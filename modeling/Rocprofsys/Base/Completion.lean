namespace Rocprofsys
namespace Base

/-! ## Computations that an exception may stop -/

abbrev Fallible (σ α : Type) := StateT σ Option α

namespace Fallible

variable {σ α β : Type}

/-- An optional value, or the exception. -/
def ofOption (value : Option α) : Fallible σ α := fun s => value.map fun a => (a, s)

/-- A function of the state whose result has to pass a test. -/
def checked (f : σ → σ × α) (test : σ → Bool) : Fallible σ α := fun s =>
  if test (f s).1 then some ((f s).2, (f s).1) else none

/-- The loop over a list. -/
def each (body : α → Fallible σ Unit) : List α → Fallible σ Unit
  | [] => pure ()
  | a :: as => do
    body a
    each body as

/-- From `s` the computation gets to its end exactly where it is allowed to, and leaves `post`. -/
def Finishes (m : Fallible σ α) (s : σ) (allowed : Prop) (post : α → σ → Prop) : Prop :=
  match m s with
  | none => ¬ allowed
  | some (a, t) => allowed ∧ post a t

variable {m : Fallible σ α} {s : σ} {allowed allowed' : Prop} {post post' : α → σ → Prop}

theorem Finishes.run_of_allowed (h : Finishes m s allowed post) (hallowed : allowed) :
    ∃ a t, m s = some (a, t) ∧ post a t := by
  unfold Finishes at h
  cases hrun : m s with
  | none =>
    rw [hrun] at h
    exact absurd hallowed h
  | some r =>
    rw [hrun] at h
    exact ⟨r.1, r.2, rfl, h.2⟩

theorem Finishes.of_run (h : Finishes m s allowed post) {a : α} {t : σ} (hrun : m s = some (a, t)) :
    allowed ∧ post a t := by
  unfold Finishes at h
  rw [hrun] at h
  exact h

theorem Finishes.isSome_iff (h : Finishes m s allowed post) : (m s).isSome ↔ allowed := by
  cases hrun : m s with
  | none =>
    unfold Finishes at h
    rw [hrun] at h
    exact ⟨fun hsome => (by cases hsome), fun hallowed => absurd hallowed h⟩
  | some r => exact ⟨fun _ => (h.of_run hrun).1, fun _ => rfl⟩

theorem finishes_of_run {a : α} {t : σ} (hrun : m s = some (a, t)) (hpost : post a t) :
    Finishes m s True post := by
  unfold Finishes
  rw [hrun]
  exact ⟨trivial, hpost⟩

theorem finishes_of_none (hrun : m s = none) (hnot : ¬allowed) : Finishes m s allowed post := by
  unfold Finishes
  rw [hrun]
  exact hnot

/-- The condition may be said in other words, and less may be kept. -/
theorem Finishes.imp (h : Finishes m s allowed post) (hallowed : allowed ↔ allowed')
    (hpost : ∀ a t, allowed → post a t → post' a t) : Finishes m s allowed' post' := by
  cases hrun : m s with
  | none =>
    unfold Finishes at h
    rw [hrun] at h
    exact finishes_of_none hrun fun h' => h (hallowed.mpr h')
  | some r =>
    obtain ⟨h1, h2⟩ := h.of_run hrun
    unfold Finishes
    rw [hrun]
    exact ⟨hallowed.mp h1, hpost _ _ h1 h2⟩

theorem Finishes.congr (h : Finishes m s allowed post) (hallowed : allowed ↔ allowed') :
    Finishes m s allowed' post := h.imp hallowed fun _ _ _ hpost => hpost

theorem Finishes.mono (h : Finishes m s allowed post) (hpost : ∀ a t, post a t → post' a t) :
    Finishes m s allowed post' := h.imp Iff.rfl fun a t _ => hpost a t

theorem finishes_pure {a : α} (hpost : post a s) : Finishes (pure a) s True post :=
  finishes_of_run rfl hpost

/-- One after the other. -/
theorem Finishes.bind {f : α → Fallible σ β} {last : β → σ → Prop} (h : Finishes m s allowed post)
    (hf : ∀ a t, allowed → post a t → Finishes (f a) t allowed' last) :
    Finishes (m >>= f) s (allowed ∧ allowed') last := by
  have hbind : (m >>= f) s = (m s).bind fun r => f r.1 r.2 := rfl
  cases hrun : m s with
  | none =>
    unfold Finishes at h
    rw [hrun] at h hbind
    exact finishes_of_none hbind fun h' => h h'.1
  | some r =>
    obtain ⟨h1, h2⟩ := h.of_run hrun
    have hrest := hf _ _ h1 h2
    rw [hrun] at hbind
    unfold Finishes at hrest ⊢
    rw [hbind]
    show match f r.1 r.2 with
      | none => ¬(allowed ∧ allowed')
      | some (a, t) => (allowed ∧ allowed') ∧ last a t
    cases hlast : f r.1 r.2 with
    | none =>
      rw [hlast] at hrest
      exact fun h' => hrest h'.2
    | some r' =>
      rw [hlast] at hrest
      exact ⟨⟨h1, hrest.1⟩, hrest.2⟩

/-- A first step that leaves the state as it is. -/
theorem Finishes.bind_same {f : α → Fallible σ β} {known : α → Prop} {last : β → σ → Prop}
    (h : Finishes m s allowed fun a t => known a ∧ t = s)
    (hf : ∀ a, known a → Finishes (f a) s allowed' last) :
    Finishes (m >>= f) s (allowed ∧ allowed') last :=
  h.bind fun a _ _ ha => ha.2 ▸ hf a ha.1

/-- A first step that always gets to its end. -/
theorem Finishes.bind_always {f : α → Fallible σ β} {last : β → σ → Prop}
    (h : Finishes m s True post) (hf : ∀ a t, post a t → Finishes (f a) t allowed' last) :
    Finishes (m >>= f) s allowed' last :=
  (h.bind fun a t _ => hf a t).congr (and_iff_right trivial)

theorem Finishes.map {f : α → β} (h : Finishes m s allowed post) :
    Finishes (f <$> m) s allowed fun b t => ∃ a, b = f a ∧ post a t := by
  have hmap : (f <$> m) s = (m s).bind fun r => some (f r.1, r.2) := rfl
  unfold Finishes at h ⊢
  cases hrun : m s with
  | none =>
    rw [hrun] at h hmap
    rw [hmap]
    exact h
  | some r =>
    rw [hrun] at h hmap
    rw [hmap]
    exact ⟨h.1, r.1, rfl, h.2⟩

theorem finishes_ofOption (value : Option α) :
    Finishes (ofOption value) s (value.isSome = true) fun a t => value = some a ∧ t = s := by
  cases value with
  | none => exact finishes_of_none rfl fun h => by cases h
  | some a => exact (finishes_of_run rfl ⟨rfl, rfl⟩).congr ⟨fun _ => rfl, fun _ => trivial⟩

theorem finishes_checked {f : σ → σ × α} {test : σ → Bool} :
    Finishes (checked f test) s (test (f s).1 = true) fun a t => a = (f s).2 ∧ t = (f s).1 := by
  cases htest : test (f s).1 with
  | false =>
    refine finishes_of_none ?_ fun h => by cases h
    rw [checked, htest]
    rfl
  | true =>
    refine (finishes_of_run ?_ ⟨rfl, rfl⟩).congr ⟨fun _ => rfl, fun _ => trivial⟩
    rw [checked, htest]
    rfl

/-- The same without the answer. -/
theorem Finishes.forget {f : σ → σ × α} {test : σ → Bool}
    (h : Finishes (checked f test) s allowed post) :
    Finishes (checked (fun s => ((f s).1, ())) test) s allowed fun _ t => post (f s).2 t := by
  cases htest : test (f s).1 with
  | false =>
    have hnone : checked f test s = none := by
      rw [checked, htest]
      rfl
    unfold Finishes at h
    rw [hnone] at h
    refine finishes_of_none ?_ h
    rw [checked, htest]
    rfl
  | true =>
    have hsome : checked f test s = some ((f s).2, (f s).1) := by
      rw [checked, htest]
      rfl
    obtain ⟨hallowed, hpost⟩ := h.of_run hsome
    have hrun : checked (fun s => ((f s).1, ())) test s = some ((), (f s).1) := by
      rw [checked, htest]
      rfl
    unfold Finishes
    rw [hrun]
    exact ⟨hallowed, hpost⟩

/-- A loop, with an invariant that may mention what is done. -/
theorem finishes_each {body : α → Fallible σ Unit} {rest : List α} {allowedAt : List α → α → Prop}
    {inv : List α → σ → Prop} (front : List α) {s : σ} (hs : inv front s)
    (hbody : ∀ done a behind s, front ++ rest = done ++ a :: behind → inv done s →
      Finishes (body a) s (allowedAt done a) fun _ t => inv (done ++ [a]) t) :
    Finishes (each body rest) s
      (∀ done a behind, rest = done ++ a :: behind → allowedAt (front ++ done) a)
      fun _ t => inv (front ++ rest) t := by
  induction rest generalizing front s with
  | nil =>
    refine (finishes_pure ?_).congr ⟨fun _ done a behind h => ?_, fun _ => trivial⟩
    · rw [List.append_nil]
      exact hs
    · cases done <;> cases h
  | cons a rest ih =>
    have hfirst := hbody front a rest s rfl hs
    have hrest := fun t (ht : inv (front ++ [a]) t) => ih (front ++ [a]) ht
      fun done b behind s h => hbody done b behind s (by rw [← h, List.append_assoc]; rfl)
    refine ((hfirst.bind fun _ t _ ht => hrest t ht).imp ⟨fun h done b behind hsplit => ?_,
      fun h => ⟨?_, fun done b behind hsplit => ?_⟩⟩ fun _ t _ ht => ?_)
    · cases done with
      | nil =>
        cases hsplit
        rw [List.append_nil]
        exact h.1
      | cons c done =>
        injection hsplit with hhead htail
        subst hhead
        have hlater := h.2 done b behind htail
        rw [List.append_assoc] at hlater
        exact hlater
    · have hhere := h [] a rest rfl
      rw [List.append_nil] at hhere
      exact hhere
    · rw [List.append_assoc]
      exact h (a :: done) b behind (by rw [hsplit]; rfl)
    · rw [List.append_assoc] at ht
      exact ht

/-! ## What is left if the end is reached -/

def Yields (m : Fallible σ α) (s : σ) (post : α → σ → Prop) : Prop :=
  ∀ a t, m s = some (a, t) → post a t

theorem Yields.mono (h : Yields m s post) (hpost : ∀ a t, post a t → post' a t) :
    Yields m s post' := fun a t hrun => hpost a t (h a t hrun)

theorem yields_pure {a : α} (hpost : post a s) : Yields (pure a) s post := by
  intro b t hrun
  cases hrun
  exact hpost

theorem Yields.bind {f : α → Fallible σ β} {last : β → σ → Prop} (h : Yields m s post)
    (hf : ∀ a t, post a t → Yields (f a) t last) : Yields (m >>= f) s last := by
  intro b u hrun
  obtain ⟨r, hfirst, hrest⟩ := Option.bind_eq_some_iff.mp hrun
  exact hf r.1 r.2 (h r.1 r.2 hfirst) b u hrest

/-- A first step that leaves the state as it is. -/
theorem Yields.bind_same {f : α → Fallible σ β} {known : α → Prop} {last : β → σ → Prop}
    (h : Yields m s fun a t => known a ∧ t = s) (hf : ∀ a, known a → Yields (f a) s last) :
    Yields (m >>= f) s last :=
  h.bind fun a _ ha => ha.2 ▸ hf a ha.1

theorem yields_ofOption (value : Option α) :
    Yields (ofOption value) s fun a t => value = some a ∧ t = s := by
  intro a t hrun
  obtain ⟨b, hb, heq⟩ := Option.map_eq_some_iff.mp hrun
  cases heq
  exact ⟨hb, rfl⟩

theorem yields_checked {f : σ → σ × α} {test : σ → Bool} :
    Yields (checked f test) s fun a t => a = (f s).2 ∧ t = (f s).1 := by
  intro a t hrun
  unfold checked at hrun
  split at hrun
  · cases hrun
    exact ⟨rfl, rfl⟩
  · cases hrun

/-- A loop, with an invariant that mentions what is done. -/
theorem yields_each {body : α → Fallible σ Unit} {inv : List α → σ → Prop}
    (hbody : ∀ done a s, inv done s → Yields (body a) s fun _ t => inv (done ++ [a]) t)
    {front rest : List α} {s : σ} (hs : inv front s) :
    Yields (each body rest) s fun _ t => inv (front ++ rest) t := by
  induction rest generalizing front s with
  | nil =>
    rw [List.append_nil]
    exact yields_pure hs
  | cons a rest ih =>
    refine (hbody front a s hs).bind fun _ t ht => ?_
    have hrest := ih ht
    rw [List.append_assoc] at hrest
    exact hrest

end Fallible
end Base
end Rocprofsys
