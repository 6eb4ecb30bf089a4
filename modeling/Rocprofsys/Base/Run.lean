namespace Rocprofsys
namespace Base

variable {σ τ ε : Type} {step : σ → ε → Option σ}

/-! ## Runs of a step function that not every state enables -/

def runFrom (step : σ → ε → Option σ) : σ → List ε → Option σ
  | s, [] => some s
  | s, e :: es => (step s e).bind fun s' => runFrom step s' es

/-- Each step is taken from a state that allows it. -/
def Along (step : σ → ε → Option σ) (allows : σ → ε → Prop) : σ → List ε → Prop
  | _, [] => True
  | s, e :: es => allows s e ∧ ∀ s', step s e = some s' → Along step allows s' es

theorem along_cons_of_none {allows : σ → ε → Prop} {s : σ} {e : ε} {es : List ε}
    (hstep : step s e = none) : allows s e ↔ Along step allows s (e :: es) := by
  refine ⟨fun h => ⟨h, fun s' hs' => ?_⟩, And.left⟩
  rw [hstep] at hs'
  cases hs'

theorem along_cons_of_some {allows : σ → ε → Prop} {s s' : σ} {e : ε} {es : List ε}
    (hstep : step s e = some s') :
    allows s e ∧ Along step allows s' es ↔ Along step allows s (e :: es) := by
  refine ⟨fun h => ⟨h.1, fun s'' hs'' => ?_⟩, fun h => ⟨h.1, h.2 s' hstep⟩⟩
  rw [hstep] at hs''
  cases hs''
  exact h.2

def decideAlong {allows : σ → ε → Prop} (dec : ∀ s e, Decidable (allows s e)) :
    ∀ (s : σ) (es : List ε), Decidable (Along step allows s es)
  | _, [] => isTrue trivial
  | s, e :: es =>
    match hstep : step s e with
    | none => @decidable_of_iff _ _ (along_cons_of_none hstep) (dec s e)
    | some s' =>
      @decidable_of_iff _ _ (along_cons_of_some hstep)
        (@instDecidableAnd _ _ (dec s e) (decideAlong dec s' es))

instance {allows : σ → ε → Prop} [dec : ∀ s e, Decidable (allows s e)] (s : σ) (es : List ε) :
    Decidable (Along step allows s es) := decideAlong dec s es

theorem along_of_forall {allows : σ → ε → Prop} (h : ∀ s e, allows s e) (s : σ) (es : List ε) :
    Along step allows s es := by
  induction es generalizing s with
  | nil => trivial
  | cons e es ih => exact ⟨h s e, fun s' _ => ih s'⟩

/-- What every allowed step preserves holds at the end of a run. -/
theorem invariant_of_run {allows : σ → ε → Prop} {inv : σ → Prop}
    (hstep : ∀ s e s', inv s → allows s e → step s e = some s' → inv s') {s s' : σ} {es : List ε}
    (hs : inv s) (hallows : Along step allows s es) (hrun : runFrom step s es = some s') :
    inv s' := by
  induction es generalizing s with
  | nil =>
    cases hrun
    exact hs
  | cons e es ih =>
    obtain ⟨s'', hfirst, hrest⟩ := Option.bind_eq_some_iff.mp hrun
    exact ih (hstep s e s'' hs hallows.1 hfirst) (hallows.2 s'' hfirst) hrest

/-- An invariant that may mention the events so far. -/
theorem history_of_run {inv : List ε → σ → Prop}
    (hstep : ∀ done s e s', inv done s → step s e = some s' → inv (done ++ [e]) s')
    {done : List ε} {s s' : σ} {es : List ε} (h : inv done s)
    (hrun : runFrom step s es = some s') : inv (done ++ es) s' := by
  induction es generalizing done s with
  | nil =>
    cases hrun
    rw [List.append_nil]
    exact h
  | cons e es ih =>
    obtain ⟨t, ht, hrest⟩ := Option.bind_eq_some_iff.mp hrun
    have hlast := ih (hstep done s e t h ht) hrest
    rw [List.append_assoc] at hlast
    exact hlast

theorem runFrom_append (s : σ) (es fs : List ε) :
    runFrom step s (es ++ fs) = (runFrom step s es).bind fun s' => runFrom step s' fs := by
  induction es generalizing s with
  | nil => rfl
  | cons e es ih =>
    show (step s e).bind (fun s' => runFrom step s' (es ++ fs)) = _
    cases h : step s e with
    | none =>
      rw [runFrom, h]
      rfl
    | some s' =>
      rw [runFrom, h]
      exact ih s'

theorem isSome_runFrom_cons {s : σ} {e : ε} {es : List ε} :
    (runFrom step s (e :: es)).isSome = true ↔
      ∃ s', step s e = some s' ∧ (runFrom step s' es).isSome = true := by
  rw [runFrom]
  cases step s e with
  | none =>
    constructor
    · intro h
      cases h
    · intro h
      obtain ⟨s', hs', -⟩ := h
      cases hs'
  | some s' =>
    constructor
    · exact fun h => ⟨s', rfl, h⟩
    · intro h
      obtain ⟨s'', hs'', h⟩ := h
      cases hs''
      exact h

/-- Every step of the run is enabled, and right by where it leads. -/
def RunsWith (step : σ → ε → Option σ) (right : ε → σ → Prop) : σ → List ε → Prop
  | _, [] => True
  | s, e :: es => ∃ s', step s e = some s' ∧ right e s' ∧ RunsWith step right s' es

/-- Where an invariant makes every event right that is allowed, and no other, a run is right
exactly if all its events are allowed. -/
theorem runsWith_iff_forall {right : ε → σ → Prop} (inv : σ → Prop) {allowed : ε → Prop}
    (hgood : ∀ s e, inv s → allowed e → ∃ s', step s e = some s' ∧ right e s' ∧ inv s')
    (hbad : ∀ s e s', inv s → ¬ allowed e → step s e = some s' → ¬ right e s') {s : σ}
    (hs : inv s) {es : List ε} : RunsWith step right s es ↔ ∀ e ∈ es, allowed e := by
  induction es generalizing s with
  | nil => exact ⟨fun _ e he => absurd he List.not_mem_nil, fun _ => trivial⟩
  | cons e es ih =>
    rw [List.forall_mem_cons]
    constructor
    · intro ⟨s', hstep, hright, hrest⟩
      have hallowed : allowed e :=
        Classical.byContradiction fun hnot => hbad s e s' hs hnot hstep hright
      obtain ⟨s'', hstep', _, hs''⟩ := hgood s e hs hallowed
      rw [hstep] at hstep'
      cases hstep'
      exact ⟨hallowed, (ih hs'').mp hrest⟩
    · intro ⟨hallowed, hrest⟩
      obtain ⟨s', hstep, hright, hs'⟩ := hgood s e hs hallowed
      exact ⟨s', hstep, hright, (ih hs').mpr hrest⟩

/-- Where, under an invariant that the allowed steps keep, a step leads to a right state exactly
if it is allowed, a run is right exactly if all its steps are allowed. -/
theorem runsWith_iff_along {right : σ → Prop} (inv : σ → Prop) {allows : σ → ε → Prop}
    (hstep : ∀ s e s', inv s → step s e = some s' →
      (right s' ↔ allows s e) ∧ (allows s e → inv s')) {s : σ} (hs : inv s) {es : List ε}
    (hrun : (runFrom step s es).isSome = true) :
    RunsWith step (fun _ s' => right s') s es ↔ Along step allows s es := by
  induction es generalizing s with
  | nil => exact Iff.rfl
  | cons e es ih =>
    obtain ⟨s', hfirst, hrest⟩ := isSome_runFrom_cons.mp hrun
    obtain ⟨hiff, hkeep⟩ := hstep s e s' hs hfirst
    constructor
    · intro ⟨s'', hs'', hright, hgo⟩
      rw [hfirst] at hs''
      cases hs''
      have hallows := hiff.mp hright
      refine ⟨hallows, fun t ht => ?_⟩
      rw [hfirst] at ht
      cases ht
      exact (ih (hkeep hallows) hrest).mp hgo
    · intro ⟨hallows, hgo⟩
      exact ⟨s', hfirst, hiff.mpr hallows, (ih (hkeep hallows) hrest).mpr (hgo s' hfirst)⟩

/-! ## Runs of a step function that every state enables -/

section Total

variable {step : σ → ε → σ} {inState : σ → Prop} {atStep : σ → ε → Prop} {s : σ} {e : ε}
  {es : List ε}

/-- What holds in every state of a run, and at every step of it. -/
structure Throughout (step : σ → ε → σ) (inState : σ → Prop) (atStep : σ → ε → Prop) (s : σ)
    (es : List ε) : Prop where
  states : ∀ done, done <+: es → inState (done.foldl step s)
  steps : ∀ done e, done ++ [e] <+: es → atStep (done.foldl step s) e

theorem throughout_nil : Throughout step inState atStep s [] ↔ inState s := by
  refine ⟨fun h => h.states [] List.nil_prefix,
    fun h => ⟨fun done hdone => ?_, fun done c hdone => ?_⟩⟩
  · rw [List.prefix_nil.mp hdone]
    exact h
  · have hnil := List.prefix_nil.mp hdone
    cases done <;> cases hnil

theorem throughout_cons :
    Throughout step inState atStep s (e :: es) ↔
      inState s ∧ atStep s e ∧ Throughout step inState atStep (step s e) es := by
  constructor
  · intro h
    refine ⟨h.states [] List.nil_prefix, h.steps [] e ?_, fun done hdone => ?_,
      fun done e' hdone => ?_⟩
    · exact List.prefix_append [e] es
    · exact h.states (e :: done) ((List.prefix_cons_inj e).mpr hdone)
    · exact h.steps (e :: done) e' ((List.prefix_cons_inj e).mpr hdone)
  · intro h
    obtain ⟨hstate, hstep, hrest⟩ := h
    constructor
    · intro done hdone
      cases done with
      | nil => exact hstate
      | cons e' done =>
        obtain ⟨rfl, hprefix⟩ := List.cons_prefix_cons.mp hdone
        exact hrest.states done hprefix
    · intro done e' hdone
      cases done with
      | nil =>
        obtain ⟨rfl, -⟩ := List.cons_prefix_cons.mp hdone
        exact hstep
      | cons e'' done =>
        obtain ⟨rfl, hprefix⟩ := List.cons_prefix_cons.mp hdone
        exact hrest.steps done e' hprefix

theorem Throughout.first (h : Throughout step inState atStep s es) : inState s :=
  h.states [] List.nil_prefix

/-- What holds at every step of a run. -/
abbrev AtSteps (step : σ → ε → σ) (allows : σ → ε → Prop) (s : σ) (es : List ε) : Prop :=
  Throughout step (fun _ => True) allows s es

/-- Where the allowed steps keep an invariant under which they and no others are right, a run is
right throughout exactly if all its steps are allowed. -/
theorem throughout_iff_atSteps_of_inv {inv : σ → Prop} {allows : σ → ε → Prop}
    (hstate : ∀ s, inv s → inState s) (hinv : ∀ s e, inv s → allows s e → inv (step s e))
    (hstep : ∀ s e, inv s → (inState (step s e) ∧ atStep s e ↔ allows s e)) (hs : inv s) :
    Throughout step inState atStep s es ↔ AtSteps step allows s es := by
  induction es generalizing s with
  | nil => exact ⟨fun _ => throughout_nil.mpr trivial, fun _ => throughout_nil.mpr (hstate s hs)⟩
  | cons e es ih =>
    rw [throughout_cons, AtSteps, throughout_cons]
    constructor
    · intro h
      obtain ⟨-, he, hrest⟩ := h
      have hallows := (hstep s e hs).mp ⟨hrest.first, he⟩
      exact ⟨trivial, hallows, (ih (hinv s e hs hallows)).mp hrest⟩
    · intro h
      obtain ⟨-, hallows, hrest⟩ := h
      have he := ((hstep s e hs).mpr hallows).2
      exact ⟨hstate s hs, he, (ih (hinv s e hs hallows)).mpr hrest⟩

/-- Where a right state is followed by a right one exactly at the allowed steps, a run is
right throughout exactly if all its steps are allowed. -/
theorem throughout_iff_atSteps {allows : σ → ε → Prop}
    (hstep : ∀ s e, inState s → (inState (step s e) ∧ atStep s e ↔ allows s e)) (hs : inState s) :
    Throughout step inState atStep s es ↔ AtSteps step allows s es :=
  throughout_iff_atSteps_of_inv (fun _ h => h) (fun s e h ha => ((hstep s e h).mpr ha).1) hstep hs

/-- Two runs of the same events whose states stay related are alike, if what is said of related
states is. -/
theorem throughout_iff_of_related {step' : τ → ε → τ} {inState' : τ → Prop}
    {atStep' : τ → ε → Prop} (related : σ → τ → Prop)
    (hrelated : ∀ s t e, related s t → related (step s e) (step' t e))
    (hstate : ∀ s t, related s t → (inState s ↔ inState' t))
    (hstep : ∀ s t e, related s t → (atStep s e ↔ atStep' t e)) {t : τ} (h : related s t) :
    Throughout step inState atStep s es ↔ Throughout step' inState' atStep' t es := by
  induction es generalizing s t with
  | nil => rw [throughout_nil, throughout_nil, hstate s t h]
  | cons e es ih =>
    rw [throughout_cons, throughout_cons, hstate s t h, hstep s t e h, ih (hrelated s t e h)]

/-- Where an invariant makes every step right that is allowed whatever the state, and no other,
a run is right exactly if all its steps are allowed. -/
theorem atSteps_iff_forall {inv : σ → Prop} {allowed : ε → Prop}
    (hinv : ∀ s e, inv s → allowed e → inv (step s e))
    (hstep : ∀ s e, inv s → (atStep s e ↔ allowed e)) (hs : inv s) :
    AtSteps step atStep s es ↔ ∀ e ∈ es, allowed e := by
  induction es generalizing s with
  | nil => exact ⟨fun _ e he => absurd he List.not_mem_nil, fun _ => throughout_nil.mpr trivial⟩
  | cons e es ih =>
    rw [AtSteps, throughout_cons, List.forall_mem_cons]
    constructor
    · intro ⟨_, he, hrest⟩
      have hallowed := (hstep s e hs).mp he
      exact ⟨hallowed, (ih (hinv s e hs hallowed)).mp hrest⟩
    · intro ⟨hallowed, hrest⟩
      exact ⟨trivial, (hstep s e hs).mpr hallowed, (ih (hinv s e hs hallowed)).mpr hrest⟩

end Total

end Base
end Rocprofsys
