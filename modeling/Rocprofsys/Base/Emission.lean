import Mathlib.Algebra.Order.BigOperators.Group.List
import Mathlib.Data.List.Basic
import Rocprofsys.Base.Run

namespace Rocprofsys
namespace Base

variable {σ α β : Type}

/-! ## Steps that write records -/

/-- The records of all inputs in order; `none` when a step fails. -/
def emitAll (step : σ → α → Option (σ × List β)) : σ → List α → Option (List β)
  | _, [] => some []
  | s, a :: l => (step s a).bind fun r => (emitAll step r.1 l).map (r.2 ++ ·)

theorem emitAll_map {γ : Type} (step : σ → α → Option (σ × List β)) (f : γ → α) (s : σ)
    (l : List γ) : emitAll step s (l.map f) = emitAll (fun s c => step s (f c)) s l := by
  induction l generalizing s with
  | nil => rfl
  | cons c l ih =>
    rw [List.map_cons, emitAll, emitAll]
    simp only [ih]

/-- Each value paired with the element at its place, if there are enough. -/
theorem mapM_zipIdx_getElem? {τ : Type} (ts : List τ) (f : τ → α → β) (values : List α) {k : Nat}
    (hk : k ≤ ts.length) :
    (values.zipIdx k).mapM (fun value => ts[value.2]?.map fun t => f t value.1) =
      if k + values.length ≤ ts.length then some (List.zipWith f (ts.drop k) values) else none := by
  induction values generalizing k with
  | nil =>
    rw [List.zipIdx_nil, List.length_nil, Nat.add_zero, if_pos hk, List.zipWith_nil_right]
    rfl
  | cons value values ih =>
    rw [List.zipIdx_cons, List.mapM_cons, List.length_cons]
    by_cases hlt : k < ts.length
    · have hlength : k + (values.length + 1) = k + 1 + values.length := by omega
      rw [List.getElem?_eq_getElem hlt, ih hlt, hlength, List.drop_eq_getElem_cons hlt,
        List.zipWith_cons_cons]
      split <;> rfl
    · rw [List.getElem?_eq_none (by omega), if_neg (by omega)]
      rfl

theorem mapM_eq_some_map {f : α → Option β} {g : α → β} {l : List α}
    (h : ∀ a ∈ l, f a = some (g a)) : l.mapM f = some (l.map g) := by
  induction l with
  | nil => rfl
  | cons a l ih =>
    rw [List.forall_mem_cons] at h
    rw [List.mapM_cons, h.1, ih h.2]
    rfl

/-- All elements have an outcome that is right for them. -/
theorem exists_mapM_forall₂_iff {f : α → Option β} {r : α → β → Prop} {l : List α} :
    (∃ out, l.mapM f = some out ∧ List.Forall₂ r l out) ↔ ∀ a ∈ l, ∃ b, f a = some b ∧ r a b := by
  induction l with
  | nil => exact iff_of_true ⟨[], rfl, List.Forall₂.nil⟩ nofun
  | cons a l ih =>
    rw [List.forall_mem_cons, ← ih]
    simp only [List.mapM_cons, Option.bind_eq_bind, Option.pure_def, Option.bind_eq_some_iff,
      Option.some.injEq]
    constructor
    · intro ⟨out, ⟨b, hb, rest, hrest, hout⟩, hforall⟩
      subst hout
      obtain ⟨hr, hforall⟩ := List.forall₂_cons.mp hforall
      exact ⟨⟨b, hb, hr⟩, rest, hrest, hforall⟩
    · intro ⟨⟨b, hb, hr⟩, rest, hrest, hforall⟩
      exact ⟨b :: rest, ⟨b, hb, rest, hrest, rfl⟩, List.Forall₂.cons hr hforall⟩

variable {step : σ → α → Option (σ × List β)}

theorem emitAll_cons_eq_some_iff {s s' : σ} {a : α} {c : Option (List β)}
    (hstep : step s a = c.map fun bs => (s', bs)) {l : List α} {out : List β} :
    emitAll step s (a :: l) = some out ↔
      c.isSome ∧ ∃ rest, emitAll step s' l = some rest ∧ out = c.getD [] ++ rest := by
  rw [emitAll, hstep]
  cases c with
  | none =>
    refine ⟨fun h => ?_, fun h => ?_⟩
    · cases h
    · cases h.1
  | some bs =>
    show (emitAll step s' l).map (bs ++ ·) = some out ↔ _
    rw [Option.map_eq_some_iff]
    constructor
    · intro h
      obtain ⟨rest, hrest, rfl⟩ := h
      exact ⟨rfl, rest, hrest, rfl⟩
    · intro h
      obtain ⟨-, rest, hrest, rfl⟩ := h
      exact ⟨rest, hrest, rfl⟩

/-- Where an invariant makes the records of an input independent of the state, the run
is the records input by input. -/
theorem emitAll_eq_some_iff {inv : σ → Prop} {chunk : α → Option (List β)} {l : List α}
    (hstep : ∀ s, inv s → ∀ a ∈ l, ∃ s', inv s' ∧ step s a = (chunk a).map fun bs => (s', bs))
    {s : σ} (hs : inv s) {out : List β} :
    emitAll step s l = some out ↔
      (∀ a ∈ l, (chunk a).isSome) ∧ out = l.flatMap fun a => (chunk a).getD [] := by
  induction l generalizing s out with
  | nil =>
    rw [emitAll, Option.some_inj]
    exact ⟨fun h => ⟨fun a ha => absurd ha List.not_mem_nil, h.symm⟩, fun h => h.2.symm⟩
  | cons a l ih =>
    obtain ⟨s', hs', heq⟩ := hstep s hs a List.mem_cons_self
    have hrest {rest : List β} := @ih (fun s hs a ha => hstep s hs a (List.mem_cons_of_mem _ ha))
      s' hs' rest
    rw [emitAll_cons_eq_some_iff heq, List.forall_mem_cons, List.flatMap_cons, and_assoc]
    refine and_congr_right fun _ => ⟨?_, ?_⟩
    · intro h
      obtain ⟨rest, h, rfl⟩ := h
      obtain ⟨hsome, rfl⟩ := hrest.mp h
      exact ⟨hsome, rfl⟩
    · intro h
      obtain ⟨hsome, rfl⟩ := h
      exact ⟨_, hrest.mpr ⟨hsome, rfl⟩, rfl⟩

/-- The same for steps that keep what they have written in the state. -/
theorem runFrom_writes (written : σ → List β) {step : σ → α → Option σ} {inv : σ → Prop}
    {chunk : α → Option (List β)} {l : List α}
    (hstep : ∀ s, inv s → ∀ a ∈ l,
      (chunk a = none ∧ step s a = none) ∨
        ∃ bs s', chunk a = some bs ∧ step s a = some s' ∧ inv s' ∧ written s' = written s ++ bs)
    {s : σ} (hs : inv s) :
    ((runFrom step s l).isSome ↔ ∀ a ∈ l, (chunk a).isSome) ∧
      ∀ s', runFrom step s l = some s' →
        inv s' ∧ written s' = written s ++ l.flatMap fun a => (chunk a).getD [] := by
  induction l generalizing s with
  | nil =>
    refine ⟨iff_of_true rfl nofun, fun s' hrun => ?_⟩
    cases hrun
    exact ⟨hs, (List.append_nil _).symm⟩
  | cons a l ih =>
    rw [List.forall_mem_cons]
    rcases hstep s hs a List.mem_cons_self with
      ⟨hchunk, hnone⟩ | ⟨bs, s₁, hchunk, hsome, hs₁, hwritten⟩
    · have hrun : runFrom step s (a :: l) = none := by rw [runFrom, hnone, Option.bind_none]
      rw [hrun, hchunk]
      refine ⟨iff_of_false Bool.false_ne_true (fun h => Bool.false_ne_true h.1), fun s' h => ?_⟩
      cases h
    · have hrun : runFrom step s (a :: l) = runFrom step s₁ l := by
        rw [runFrom, hsome, Option.bind_some]
      obtain ⟨hiff, hrest⟩ := ih (fun s hs a ha => hstep s hs a (List.mem_cons_of_mem _ ha)) hs₁
      rw [hrun, hiff, hchunk]
      refine ⟨(and_iff_right rfl).symm, fun s' h => ?_⟩
      obtain ⟨hs', heq⟩ := hrest s' h
      refine ⟨hs', ?_⟩
      rw [heq, hwritten, List.flatMap_cons, hchunk, Option.getD_some, List.append_assoc]

/-- Two step functions side by side. -/
def besides {τ γ : Type} (step : σ → α → Option (σ × List β)) (spec : τ → α → Option (τ × List γ))
    (s : σ × τ) (a : α) : Option (σ × τ) :=
  (step s.1 a).bind fun r => (spec s.2 a).map fun t => (r.1, t.1)

/-- Where a step writes as many records as the specification asks for, the records of a run
are those asked for exactly if they are at every step. -/
theorem emitAll_eq_map_iff {τ γ : Type} {spec : τ → α → Option (τ × List γ)} {f : γ → β}
    {related : σ → τ → Prop} {allows : σ × τ → α → Prop}
    (hstep : ∀ s t a t' asked, related s t → spec t a = some (t', asked) →
      ∃ s' written, step s a = some (s', written) ∧ related s' t' ∧
        written.length = asked.length ∧ (written = asked.map f ↔ allows (s, t) a))
    {s : σ} {t : τ} (hrelated : related s t) {l : List α} {asked : List γ}
    (hspec : emitAll spec t l = some asked) :
    emitAll step s l = some (asked.map f) ↔ Along (besides step spec) allows (s, t) l := by
  induction l generalizing s t asked with
  | nil =>
    cases hspec
    exact ⟨fun _ => trivial, fun _ => rfl⟩
  | cons a l ih =>
    obtain ⟨⟨t', first⟩, hfirst, hmap⟩ := Option.bind_eq_some_iff.mp hspec
    obtain ⟨rest, hrest, rfl⟩ := Option.map_eq_some_iff.mp hmap
    obtain ⟨s', written, hwritten, hrelated', hlength, hiff⟩ := hstep s t a t' first hrelated hfirst
    have hnext : besides step spec (s, t) a = some (s', t') := by
      rw [besides, hwritten, hfirst]
      rfl
    rw [emitAll_cons_eq_some_iff (show step s a = (some written).map fun bs => (s', bs) from
      hwritten), ← along_cons_of_some hnext, ← ih hrelated' hrest, ← hiff]
    refine ⟨?_, ?_⟩
    · intro h
      obtain ⟨-, tail, htail, heq⟩ := h
      rw [List.map_append, Option.getD_some] at heq
      obtain ⟨hhead, hequal⟩ := List.append_inj heq (by rw [List.length_map, hlength])
      exact ⟨hhead.symm, hequal ▸ htail⟩
    · intro h
      obtain ⟨rfl, htail⟩ := h
      exact ⟨rfl, _, htail, List.map_append⟩

/-- One record of a kind for each input. -/
theorem filterMap_flatMap_eq_map {γ : Type} {f : α → List β} {g : β → Option γ} {h : α → γ}
    {l : List α} (hone : ∀ a ∈ l, (f a).filterMap g = [h a]) :
    (l.flatMap f).filterMap g = l.map h := by
  induction l with
  | nil => rfl
  | cons a l ih =>
    rw [List.forall_mem_cons] at hone
    rw [List.flatMap_cons, List.filterMap_append, hone.1, ih hone.2, List.map_cons]
    rfl

/-- Inputs without records can be left out. -/
theorem flatMap_filter_of_nil {p : α → Bool} {f : α → List β} {l : List α}
    (h : ∀ a ∈ l, p a = false → f a = []) : (l.filter p).flatMap f = l.flatMap f := by
  induction l with
  | nil => rfl
  | cons a l ih =>
    rw [List.forall_mem_cons] at h
    rw [List.filter_cons, List.flatMap_cons]
    by_cases hp : p a = true
    · rw [if_pos hp, List.flatMap_cons, ih h.2]
    · rw [if_neg hp, ih h.2, h.1 (Bool.not_eq_true _ ▸ hp), List.nil_append]

/-- Records that come in equal numbers agree input by input. -/
theorem flatMap_eq_flatMap_iff {f g : α → List β} {l : List α}
    (hlength : ∀ a ∈ l, (f a).length = (g a).length) :
    l.flatMap f = l.flatMap g ↔ ∀ a ∈ l, f a = g a := by
  refine ⟨fun h => ?_, List.flatMap_congr⟩
  induction l with
  | nil => exact fun _ ha => absurd ha List.not_mem_nil
  | cons a l ih =>
    rw [List.forall_mem_cons] at hlength ⊢
    rw [List.flatMap_cons, List.flatMap_cons] at h
    obtain ⟨hhead, htail⟩ := List.append_inj h hlength.1
    exact ⟨hhead, ih hlength.2 htail⟩

/-! ## Equal sums -/

/-- Where the sums agree and no term is above its counterpart, the terms agree. -/
theorem forall_eq_of_sum_eq {M : Type} [AddCommMonoid M] [LinearOrder M]
    [IsOrderedCancelAddMonoid M] {l : List α} {f g : α → M} (hle : ∀ a ∈ l, f a ≤ g a)
    (hsum : (l.map f).sum = (l.map g).sum) : ∀ a ∈ l, f a = g a := by
  intro a ha
  refine (hle a ha).antisymm (not_lt.mp fun hlt => ?_)
  exact absurd hsum (List.sum_lt_sum f g hle ⟨a, ha, hlt⟩).ne

theorem sum_flatMap {M : Type} [AddMonoid M] (l : List α) (f : α → List β) (w : β → M) :
    ((l.flatMap f).map w).sum = (l.map fun a => ((f a).map w).sum).sum := by
  rw [List.map_flatMap, List.flatMap_def, List.sum_flatten, List.map_map]
  rfl

end Base
end Rocprofsys
