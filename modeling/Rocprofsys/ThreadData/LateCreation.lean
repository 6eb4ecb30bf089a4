import Rocprofsys.ThreadData.GrowthInvariant

namespace Rocprofsys
namespace ThreadData

open Base
open Container

variable {α : Type} {M : MaxThreads}

/-! ## An uninterrupted growth -/

section Uninterrupted

variable (s : State α M) (init : α) (tid : Int64)

theorem run_growNext (grown rest : List (Entry α M)) {stop : Nat}
    (hstop : stop = grown.length + rest.length) (hready : ∀ e ∈ rest, e.stage = .ready) :
    runFrom (step init)
        { s with entries := grown ++ rest, growing := some ⟨tid, grown.length, stop⟩ }
        (List.replicate rest.length .growNext) =
      some { s with entries := grown ++ rest.map (Entry.grow init tid),
                    growing := some ⟨tid, stop, stop⟩ } := by
  induction rest generalizing grown with
  | nil =>
    subst hstop
    rfl
  | cons e rest ih =>
    have hnext : (grown ++ e :: rest)[grown.length]? = some e := by
      rw [List.getElem?_append_right (Nat.le_refl _), Nat.sub_self]
      rfl
    have hset : (grown ++ e :: rest).set grown.length (e.grow init tid) =
        (grown ++ [e.grow init tid]) ++ rest := by
      rw [List.set_append_right _ _ (Nat.le_refl _), Nat.sub_self, List.append_assoc]
      rfl
    have hlt : grown.length < stop := by
      rw [hstop, List.length_cons]
      omega
    have hstage : ¬(e.kind = .value ∧ e.stage = .constructing) := by
      rw [hready e List.mem_cons_self]
      exact fun h => Stage.noConfusion h.2
    have hstep : step init
        { s with entries := grown ++ e :: rest, growing := some ⟨tid, grown.length, stop⟩ }
        .growNext =
        some { s with entries := (grown ++ [e.grow init tid]) ++ rest,
                      growing := some ⟨tid, (grown ++ [e.grow init tid]).length, stop⟩ } := by
      dsimp only [step]
      rw [hnext]
      dsimp only
      rw [if_pos ⟨hlt, hstage⟩, hset, List.length_append, List.length_singleton]
    have hrest := ih (grown ++ [e.grow init tid])
      (by rw [hstop, List.length_append, List.length_cons, List.length_singleton]; omega)
      fun e' he' => hready e' (List.mem_cons_of_mem e he')
    rw [List.length_cons, List.replicate_succ, runFrom, hstep]
    show runFrom (step init) _ _ = _
    rw [hrest, List.append_assoc]
    rfl

/-- One after the other, the steps of a growth are `grow_data`. -/
theorem run_growth (hgrowing : s.growing = none) (hpeak : s.peak ≤ tid.toInt)
    (hready : ∀ e ∈ s.entries, e.stage = .ready) :
    runFrom (step init) s
        (.beginGrow tid :: (List.replicate s.entries.length .growNext ++ [.endGrow])) =
      some (growData init s tid).1 := by
  have hbegin : step init s (.beginGrow tid) =
      some { s with growing := some ⟨tid, 0, s.entries.length⟩ } := by
    dsimp only [step]
    rw [if_pos ⟨hgrowing, hpeak⟩]
  have hgrow := run_growNext s init tid [] s.entries (Nat.zero_add s.entries.length).symm hready
  rw [List.nil_append, List.nil_append, List.length_nil] at hgrow
  rw [runFrom, hbegin]
  show runFrom (step init) _ _ = _
  rw [runFrom_append, hgrow, growData_of_le init hpeak]
  show (step init _ .endGrow).bind _ = _
  dsimp only [step]
  rw [if_pos rfl]
  show some _ = some _
  rw [← hgrowing]

end Uninterrupted

/-! ## Between the steps -/

/-- A container under construction has no elements yet, and the peak has not been raised. -/
def Fits (n : Nat) (e : Entry α M) : Prop :=
  (e.stage = .ready → Full e.data n) ∧ (e.stage ≠ .ready → e.data = .empty ∧ n = M.count)

/-- No growth is under way. -/
structure Settled (n : Nat) (s : State α M) : Prop where
  peak : s.peak = n
  growing : s.growing = none
  returned : ∀ tid ∈ s.returned, tid.toInt < n
  fits : ∀ e ∈ s.entries, Fits n e

/-- The callbacks in front of the next one have run. -/
structure Growing (n : Nat) (g : Growth) (s : State α M) : Prop where
  peak : s.peak = n
  growing : s.growing = some g
  returned : ∀ tid ∈ s.returned, tid.toInt < n
  stop : g.stop = s.entries.length
  reached : (n : Int) ≤ g.tid.toInt
  near : g.tid.toInt < n + M.count
  grown : ∀ i e, s.entries[i]? = some e → i < g.next → e.stage = .ready ∧ Full e.data (n + M.count)
  waiting : ∀ i e, s.entries[i]? = some e → g.next ≤ i → Fits n e

inductive Inv (s : State α M) : Prop where
  | settled (n : Nat) (h : Settled n s)
  | growing (n : Nat) (g : Growth) (h : Growing n g s)

theorem inv_initial : Inv (initial : State α M) :=
  .settled M.count
    ⟨rfl, rfl, fun _ h => absurd h List.not_mem_nil, fun _ h => absurd h List.not_mem_nil⟩

theorem fits_of_full {n : Nat} {e : Entry α M} (hstage : e.stage = .ready) (h : Full e.data n) :
    Fits n e := ⟨fun _ => h, fun hnot => absurd hstage hnot⟩

theorem fits_of_empty {n : Nat} {e : Entry α M} (hstage : e.stage ≠ .ready)
    (hdata : e.data = .empty) (hn : n = M.count) : Fits n e :=
  ⟨fun hready => absurd hready hstage, fun _ => ⟨hdata, hn⟩⟩

/-- A container in use has at least as many elements as the peak. -/
theorem covered_of_inv {s : State α M} (h : Inv s) : Covered s := by
  intro e he hready tid htid
  cases h with
  | settled n h =>
    have hsize := ((h.fits e he).1 hready).size
    have hlt := h.returned tid htid
    omega
  | growing n g h =>
    have hlt := h.returned tid htid
    obtain ⟨i, hi⟩ := List.mem_iff_getElem?.mp he
    by_cases hnext : i < g.next
    · have hsize := (h.grown i e hi hnext).2.size
      omega
    · have hsize := ((h.waiting i e hi (Nat.le_of_not_lt hnext)).1 hready).size
      omega

/-! ## Creation -/

section Steps

variable {s s' : State α M} {init : α}

theorem inv_register {kind : Kind} (h : Inv s) (hallows : Allows s (.register kind))
    (hstep : step init s (.register kind) = some s') : Inv s' := by
  obtain ⟨hpeak, hgrowing⟩ := hallows
  cases h with
  | growing n g h =>
    rw [h.growing] at hgrowing
    cases hgrowing
  | settled n h =>
    have hn : n = M.count := by
      have := h.peak
      omega
    have happend : ∀ e : Entry α M, Fits n e →
        Inv { s with entries := s.entries ++ [e] } := by
      intro e hfits
      refine .settled n ⟨h.peak, h.growing, h.returned, fun e' he' => ?_⟩
      rcases List.mem_append.mp he' with he' | he'
      · exact h.fits e' he'
      · rw [List.mem_singleton.mp he']
        exact hfits
    have hnew : ∀ kind : Kind, Fits n (⟨kind, .constructing, .empty⟩ : Entry α M) := fun kind =>
      fits_of_empty Stage.noConfusion rfl hn
    cases kind with
    | constructed =>
      cases hstep
      subst hn
      exact happend _ (fits_of_full rfl (full_resizeToMax_empty init))
    | value =>
      cases hstep
      exact happend _ (hnew .value)
    | pointer =>
      cases hstep
      exact happend _ (hnew .pointer)

/-- Only a container that is not in use changes outside of a growth. -/
theorem inv_set (h : Inv s) {i : Nat} {e e' : Entry α M} (he : s.entries[i]? = some e)
    (hstage : e.stage ≠ .ready) (hfits : e.data = .empty → Fits M.count e') :
    Inv { s with entries := s.entries.set i e' } := by
  cases h with
  | settled n h =>
    obtain ⟨hempty, hn⟩ := (h.fits e (List.mem_of_getElem? he)).2 hstage
    refine .settled n ⟨h.peak, h.growing, h.returned, fun e'' he'' => ?_⟩
    rcases List.mem_or_eq_of_mem_set he'' with he'' | rfl
    · exact h.fits e'' he''
    · exact hn ▸ hfits hempty
  | growing n g h =>
    have hwaits : g.next ≤ i := by
      by_contra hlt
      exact hstage (h.grown i e he (Nat.lt_of_not_le hlt)).1
    obtain ⟨hempty, hn⟩ := (h.waiting i e he hwaits).2 hstage
    refine .growing n g ⟨h.peak, h.growing, h.returned, ?_, h.reached, h.near, ?_, ?_⟩
    · show g.stop = (s.entries.set i e').length
      rw [List.length_set]
      exact h.stop
    · intro j e'' hj hlt
      rw [List.getElem?_set_ne (by omega)] at hj
      exact h.grown j e'' hj hlt
    · intro j e'' hj hle
      by_cases heq : i = j
      · subst heq
        rw [List.getElem?_set_self (List.getElem?_eq_some_iff.mp he).1] at hj
        cases hj
        exact hn ▸ hfits hempty
      · rw [List.getElem?_set_ne heq] at hj
        exact h.waiting j e'' hj hle

theorem inv_assign {i : Nat} (h : Inv s) (hstep : step init s (.assign i) = some s') :
    Inv s' := by
  dsimp only [step] at hstep
  split at hstep
  · rename_i data he
    cases hstep
    exact inv_set h he Stage.noConfusion fun hempty =>
      fits_of_empty Stage.noConfusion hempty rfl
  · cases hstep

/-- A finished container has one chunk, full. -/
theorem finished_spec {e e' : Entry α M} (h : finished init e = some e') :
    e.stage ≠ .ready ∧ (e.data = .empty → Fits M.count e') := by
  unfold finished at h
  split at h
  · rename_i hkind hstage
    cases h
    rw [hstage]
    exact ⟨Stage.noConfusion, fun _ => fits_of_full rfl (full_ofCount init)⟩
  · rename_i hkind hstage
    cases h
    rw [hstage]
    refine ⟨Stage.noConfusion, fun hempty => fits_of_full rfl ?_⟩
    rw [hempty]
    exact full_resizeToMax_empty init
  · cases h

theorem inv_finish {i : Nat} (h : Inv s) (hstep : step init s (.finish i) = some s') :
    Inv s' := by
  obtain ⟨e', hfinished, rfl⟩ := Option.map_eq_some_iff.mp hstep
  obtain ⟨e, he, hfinished⟩ := Option.bind_eq_some_iff.mp hfinished
  obtain ⟨hstage, hfits⟩ := finished_spec hfinished
  exact inv_set h he hstage hfits

/-! ## Growth -/

theorem inv_returnEarly {tid : Int64} (h : Inv s)
    (hstep : step init s (.returnEarly tid) = some s') : Inv s' := by
  dsimp only [step] at hstep
  split at hstep
  · rename_i hlt
    cases hstep
    have hcons : ∀ n : Nat, s.peak = n → (∀ t ∈ s.returned, t.toInt < n) →
        ∀ t ∈ tid :: s.returned, t.toInt < n := by
      intro n hpeak hreturned t ht
      rcases List.mem_cons.mp ht with rfl | ht
      · omega
      · exact hreturned t ht
    cases h with
    | settled n h =>
      exact .settled n { h with returned := hcons n h.peak h.returned }
    | growing n g h =>
      exact .growing n g { h with returned := hcons n h.peak h.returned }
  · cases hstep

theorem inv_beginGrow {tid : Int64} (h : Inv s) (hallows : Allows s (.beginGrow tid))
    (hstep : step init s (.beginGrow tid) = some s') : Inv s' := by
  have hnear : tid.toInt < s.peak + M.count := hallows
  dsimp only [step] at hstep
  split at hstep
  · rename_i hbegin
    obtain ⟨hgrowing, hreached⟩ := hbegin
    cases hstep
    cases h with
    | growing n g h =>
      rw [h.growing] at hgrowing
      cases hgrowing
    | settled n h =>
      have hpeak := h.peak
      refine .growing n ⟨tid, 0, s.entries.length⟩ ⟨hpeak, rfl, h.returned, rfl, ?_, ?_, ?_, ?_⟩
      · show (n : Int) ≤ tid.toInt
        omega
      · show tid.toInt < n + M.count
        omega
      · intro i e he hi
        exact absurd hi (Nat.not_lt_zero i)
      · intro i e he hi
        exact h.fits e (List.mem_of_getElem? he)
  · cases hstep

/-- The next callback grows its container, and no other. -/
theorem inv_growNext (h : Inv s) (hallows : Allows s .growNext)
    (hstep : step init s .growNext = some s') : Inv s' := by
  cases h with
  | settled n h =>
    dsimp only [step] at hstep
    rw [h.growing] at hstep
    cases hstep
  | growing n g h =>
    dsimp only [step] at hstep
    rw [h.growing] at hstep
    dsimp only at hstep
    cases he : s.entries[g.next]? with
    | none =>
      rw [he] at hstep
      cases hstep
    | some e =>
      rw [he] at hstep
      dsimp only at hstep
      split at hstep
      · cases hstep
        have hstage := hallows g h.growing e he
        have hfull := (h.waiting g.next e he (Nat.le_refl _)).1 hstage
        have hgrown := grow_spec init hstage hfull h.reached
        refine .growing n { g with next := g.next + 1 }
          ⟨h.peak, rfl, h.returned, ?_, h.reached, h.near, ?_, ?_⟩
        · show g.stop = (s.entries.set g.next _).length
          rw [List.length_set]
          exact h.stop
        · intro i e' he' hi
          by_cases heq : g.next = i
          · have hlt := (List.getElem?_eq_some_iff.mp he).1
            subst heq
            rw [List.getElem?_set_self hlt] at he'
            cases he'
            exact hgrown
          · rw [List.getElem?_set_ne heq] at he'
            have hlt : i < g.next + 1 := hi
            exact h.grown i e' he' (by omega)
        · intro i e' he' hi
          have hle : g.next + 1 ≤ i := hi
          rw [List.getElem?_set_ne (by omega)] at he'
          exact h.waiting i e' he' (by omega)
      · cases hstep

/-- At the end every container has grown, and the peak with them. -/
theorem inv_endGrow (h : Inv s) (hstep : step init s .endGrow = some s') : Inv s' := by
  cases h with
  | settled n h =>
    dsimp only [step] at hstep
    rw [h.growing] at hstep
    cases hstep
  | growing n g h =>
    dsimp only [step] at hstep
    rw [h.growing] at hstep
    dsimp only at hstep
    split at hstep
    · rename_i hend
      cases hstep
      have hpeak := h.peak
      have hnear := h.near
      refine .settled (n + M.count) ⟨?_, rfl, ?_, ?_⟩
      · show s.peak + M.count = ((n + M.count : Nat) : Int)
        omega
      · intro t ht
        rcases List.mem_cons.mp ht with rfl | ht
        · omega
        · have hlt := h.returned t ht
          omega
      · intro e he
        obtain ⟨i, hi⟩ := List.mem_iff_getElem?.mp he
        have hlt : i < s.entries.length := (List.getElem?_eq_some_iff.mp hi).1
        have hstop := h.stop
        obtain ⟨hready, hgrown⟩ := h.grown i e hi (by omega)
        exact fits_of_full hready hgrown
    · cases hstep

theorem inv_step {ev : Event} (h : Inv s) (hallows : Allows s ev)
    (hstep : step init s ev = some s') : Inv s' := by
  cases ev with
  | register kind => exact inv_register h hallows hstep
  | assign i => exact inv_assign h hstep
  | finish i => exact inv_finish h hstep
  | returnEarly tid => exact inv_returnEarly h hstep
  | beginGrow tid => exact inv_beginGrow h hallows hstep
  | growNext => exact inv_growNext h hallows hstep
  | endGrow => exact inv_endGrow h hstep

end Steps

/-! ## Runs -/

/-- Containers created before the first growth cover the threads of every growth that has
returned. -/
theorem run_covered {init : α} {es : List Event} {s : State α M}
    (hallows : Along (step init) Allows (initial : State α M) es)
    (hrun : runFrom (step init) (initial : State α M) es = some s) : Covered s :=
  covered_of_inv (invariant_of_run (fun _ _ _ h hallows hstep => inv_step h hallows hstep)
    inv_initial hallows hrun)

/-- A pointer container created in three steps, then grown. -/
def createdThenGrown : List Event :=
  [.register .pointer, .register .constructed, .assign 0, .finish 0, .beginGrow 4, .growNext,
    .growNext, .endGrow, .returnEarly 7]

theorem run_createdThenGrown_covered :
    ∃ s : State Nat four, runFrom (step 0) initial createdThenGrown = some s ∧ Covered s := by
  have hallows : Along (step 0) Allows (initial : State Nat four) createdThenGrown := by decide
  exact ⟨_, rfl, run_covered hallows rfl⟩

/-- A container created behind a growth has one chunk. -/
theorem not_run_covered_late :
    ¬∀ (es : List Event) (s : State Nat four),
      runFrom (step 0) initial es = some s → Covered s := by
  intro h
  have hcovered := h [.beginGrow 4, .endGrow, .register .constructed] _ rfl
    ⟨.constructed, .ready, resizeToMax 0 .empty⟩ List.mem_cons_self rfl 4 List.mem_cons_self
  have hsize : (resizeToMax 0 .empty : StableVector Nat four.count).size = 4 :=
    (full_resizeToMax_empty 0).size
  rw [hsize] at hcovered
  exact absurd hcovered (by decide)

end ThreadData
end Rocprofsys
