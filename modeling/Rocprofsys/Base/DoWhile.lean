namespace Rocprofsys
namespace Base

variable {σ : Type} {next : σ → Option σ} {again : σ → Bool}

/-! ## Loops with the test behind the body -/

/-- The states in which the passes of a loop begin. A loop that outlasts its fuel has no
result, nor has one in which a pass has no outcome. -/
def doWhile (next : σ → Option σ) (again : σ → Bool) : Nat → σ → Option (List σ)
  | 0, _ => none
  | fuel + 1, s => (next s).bind fun s' =>
    if again s' then (doWhile next again fuel s').map (s :: ·) else some [s]

/-- The state after a number of passes. -/
def passes (next : σ → Option σ) : Nat → σ → Option σ
  | 0, s => some s
  | n + 1, s => (next s).bind (passes next n)

theorem passes_of_fixed {s : σ} (h : next s = some s) (n : Nat) : passes next n s = some s := by
  induction n with
  | zero => rfl
  | succ n ih => rw [passes, h, Option.bind_some, ih]

/-- More fuel changes nothing. -/
theorem doWhile_of_le {fuel fuel' : Nat} (hle : fuel ≤ fuel') {s : σ} {visited : List σ}
    (h : doWhile next again fuel s = some visited) :
    doWhile next again fuel' s = some visited := by
  induction fuel generalizing fuel' s visited with
  | zero => cases h
  | succ fuel ih =>
    obtain ⟨fuel', rfl⟩ := Nat.exists_eq_add_of_le' (Nat.lt_of_lt_of_le (Nat.succ_pos fuel) hle)
    obtain ⟨s', hnext, hrest⟩ := Option.bind_eq_some_iff.mp h
    rw [doWhile, hnext, Option.bind_some]
    split at hrest
    · rename_i hagain
      obtain ⟨rest, hloop, rfl⟩ := Option.map_eq_some_iff.mp hrest
      rw [if_pos hagain, ih (Nat.le_of_succ_le_succ hle) hloop, Option.map_some]
    · rename_i hagain
      rw [if_neg hagain]
      exact hrest

/-- A loop stops exactly if the test fails after one of its passes. -/
theorem exists_doWhile_iff {s : σ} :
    (∃ fuel, (doWhile next again fuel s).isSome = true) ↔
      ∃ n s', passes next (n + 1) s = some s' ∧ again s' = false := by
  constructor
  · intro h
    obtain ⟨fuel, h⟩ := h
    induction fuel generalizing s with
    | zero => cases h
    | succ fuel ih =>
      rw [doWhile] at h
      cases hnext : next s with
      | none =>
        rw [hnext] at h
        cases h
      | some s' =>
        rw [hnext, Option.bind_some] at h
        cases hagain : again s' with
        | false => exact ⟨0, s', by rw [passes, hnext]; rfl, hagain⟩
        | true =>
          rw [if_pos hagain, Option.isSome_map] at h
          obtain ⟨n, s'', hpasses, hstop⟩ := ih h
          exact ⟨n + 1, s'', by rw [passes, hnext, Option.bind_some, hpasses], hstop⟩
  · intro h
    obtain ⟨n, s'', hpasses, hstop⟩ := h
    refine ⟨n + 1, ?_⟩
    induction n generalizing s with
    | zero =>
      obtain ⟨s', hnext, heq⟩ := Option.bind_eq_some_iff.mp hpasses
      cases heq
      rw [doWhile, hnext, Option.bind_some, if_neg (Bool.eq_false_iff.mp hstop)]
      rfl
    | succ n ih =>
      obtain ⟨s', hnext, hrest⟩ := Option.bind_eq_some_iff.mp hpasses
      rw [doWhile, hnext, Option.bind_some]
      split
      · rw [Option.isSome_map]
        exact ih hrest
      · rfl

/-- A pass begins in the states that are reached with the test holding all the way. -/
theorem mem_doWhile_iff {fuel : Nat} {s v : σ} {visited : List σ}
    (h : doWhile next again fuel s = some visited) :
    v ∈ visited ↔ ∃ n, passes next n s = some v ∧
      ∀ m < n, ∃ s', passes next (m + 1) s = some s' ∧ again s' = true := by
  induction fuel generalizing s visited with
  | zero => cases h
  | succ fuel ih =>
    obtain ⟨s', hnext, hrest⟩ := Option.bind_eq_some_iff.mp h
    have hpasses (n : Nat) : passes next (n + 1) s = passes next n s' := by
      rw [passes, hnext, Option.bind_some]
    split at hrest
    · rename_i hagain
      obtain ⟨rest, hloop, rfl⟩ := Option.map_eq_some_iff.mp hrest
      rw [List.mem_cons, ih hloop]
      constructor
      · intro hmem
        rcases hmem with rfl | ⟨n, hv, htests⟩
        · exact ⟨0, rfl, fun m hm => absurd hm (Nat.not_lt_zero m)⟩
        · refine ⟨n + 1, by rw [hpasses, hv], fun m hm => ?_⟩
          cases m with
          | zero => exact ⟨s', hpasses 0, hagain⟩
          | succ m =>
            rw [hpasses]
            exact htests m (Nat.lt_of_succ_lt_succ hm)
      · intro ⟨n, hv, htests⟩
        cases n with
        | zero =>
          cases hv
          exact Or.inl rfl
        | succ n =>
          rw [hpasses] at hv
          refine Or.inr ⟨n, hv, fun m hm => ?_⟩
          have htest := htests (m + 1) (Nat.succ_lt_succ hm)
          rwa [hpasses] at htest
    · rename_i hagain
      cases hrest
      rw [List.mem_singleton]
      constructor
      · intro heq
        subst heq
        exact ⟨0, rfl, fun m hm => absurd hm (Nat.not_lt_zero m)⟩
      · intro ⟨n, hv, htests⟩
        cases n with
        | zero =>
          cases hv
          rfl
        | succ n =>
          obtain ⟨w, hw, htest⟩ := htests 0 (Nat.succ_pos n)
          rw [hpasses] at hw
          cases hw
          exact absurd htest hagain

end Base
end Rocprofsys
