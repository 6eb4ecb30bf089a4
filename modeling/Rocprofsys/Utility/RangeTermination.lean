import Rocprofsys.Utility.NumericRange

namespace Rocprofsys
namespace Utility

open Base

/-! ## Passes of the loop -/

section Passes

variable {increment v w : Int64}

theorem passes_wraps (n : Nat) : ∃ w, passes (add .wraps increment) n v = some w ∧
    w.toInt = (v.toInt + n * increment.toInt).bmod (2 ^ 64) := by
  induction n generalizing v with
  | zero => exact ⟨v, rfl, by simp⟩
  | succ n ih =>
    obtain ⟨w, hpasses, hw⟩ := @ih (v + increment)
    refine ⟨w, hpasses, ?_⟩
    rw [hw, Int64.toInt_add, Int.bmod_add_bmod]
    congr 1
    push_cast
    ring

theorem add_undefined_eq_some_iff : add .undefined increment v = some w ↔
    w.toInt = v.toInt + increment.toInt := by
  rw [add]
  split
  · rename_i h
    rw [Option.some_inj, ← Int64.toInt_inj, Int64.toInt_add, Int.bmod_eq_of_le h.1 h.2, eq_comm]
  · rename_i h
    refine iff_of_false (fun h' => nomatch h') fun heq => h ?_
    rw [← heq]
    exact ⟨w.le_toInt, w.toInt_lt⟩

theorem toInt_of_passes_undefined {n : Nat} (h : passes (add .undefined increment) n v = some w) :
    w.toInt = v.toInt + n * increment.toInt := by
  induction n generalizing v with
  | zero =>
    cases h
    simp
  | succ n ih =>
    obtain ⟨v', hadd, hrest⟩ := Option.bind_eq_some_iff.mp h
    rw [ih hrest, add_undefined_eq_some_iff.mp hadd]
    push_cast
    ring

/-- What fits 64 bits is reached. -/
theorem exists_passes_undefined {n : Nat} (hincrement : 0 ≤ increment.toInt)
    (hfits : v.toInt + n * increment.toInt < 2 ^ 63) :
    ∃ w, passes (add .undefined increment) n v = some w := by
  induction n generalizing v with
  | zero => exact ⟨v, rfl⟩
  | succ n ih =>
    have hlow := v.le_toInt
    have hproduct : 0 ≤ (n : ℤ) * increment.toInt :=
      Int.mul_nonneg (Int.natCast_nonneg n) hincrement
    have hsum : v.toInt + ((n + 1 : ℕ) : ℤ) * increment.toInt =
        v.toInt + increment.toInt + n * increment.toInt := by
      push_cast
      ring
    rw [hsum] at hfits
    have hnext : (v + increment).toInt = v.toInt + increment.toInt := by
      rw [Int64.toInt_add, Int.bmod_eq_of_le (by omega) (by omega)]
    obtain ⟨w, hpasses⟩ := @ih (v + increment) (by rw [hnext]; exact hfits)
    exact ⟨w, by rw [passes, add_undefined_eq_some_iff.mpr hnext, Option.bind_some, hpasses]⟩

end Passes

section Range

variable {first last increment : Int64}

theorem exists_above_wraps_iff :
    (∃ n w, passes (add .wraps increment) (n + 1) first = some w ∧ last < w) ↔
      (Specification.range first last increment).Stops .wraps := by
  have hlow := first.le_toInt
  have htop := first.toInt_lt
  constructor
  · intro h
    obtain ⟨n, w, hpasses, habove⟩ := h
    obtain ⟨w', hpasses', hw⟩ := @passes_wraps increment first (n + 1)
    rw [hpasses, Option.some_inj] at hpasses'
    subst hpasses'
    have hmod : w.toInt ≡ first.toInt + (n + 1) * increment.toInt [ZMOD (2 ^ 64 : ℕ)] := by
      rw [hw, Nat.cast_succ]
      exact Int.bmod_emod
    have hle := @le_greatest_of_modEq _ first.toInt increment.toInt (2 ^ 63 - 1) n w.toInt hmod
      (Int.le_sub_one_of_lt w.toInt_lt)
    exact Int.lt_of_lt_of_le (Int64.lt_iff_toInt_lt.mp habove) hle
  · intro h
    obtain ⟨n, hn⟩ := @exists_modEq_greatest (2 ^ 64) first.toInt increment.toInt (2 ^ 63 - 1)
      (by decide)
    obtain ⟨w, hpasses, hw⟩ := @passes_wraps increment first (n + 1)
    refine ⟨n, w, hpasses, Int64.lt_iff_toInt_lt.mpr ?_⟩
    have heq : w.toInt = greatest (2 ^ 64) (2 ^ 63 - 1) first.toInt increment.toInt := by
      have hlarge := @sub_lt_greatest (2 ^ 64) first.toInt increment.toInt (2 ^ 63 - 1)
        (by omega) (by omega)
      have hsmall := @greatest_le (2 ^ 64) first.toInt increment.toInt (2 ^ 63 - 1) (by decide)
      rw [hw, Nat.cast_succ, ← Int.emod_bmod, ← hn, Int.emod_bmod]
      exact Int.bmod_eq_of_le (by omega) (by omega)
    rw [heq]
    exact h

theorem exists_above_undefined_iff :
    (∃ n w, passes (add .undefined increment) (n + 1) first = some w ∧ last < w) ↔
      (Specification.range first last increment).Stops .undefined := by
  show _ ↔ if 0 < increment.toInt then _ else _
  split
  · rename_i hpos
    rw [← exists_beyond_iff hpos]
    constructor
    · intro h
      obtain ⟨n, w, hpasses, habove⟩ := h
      have hw := toInt_of_passes_undefined hpasses
      push_cast at hw
      rw [Int64.lt_iff_toInt_lt, hw] at habove
      exact ⟨n, hw ▸ w.toInt_lt, habove⟩
    · intro h
      obtain ⟨n, hfits, habove⟩ := h
      obtain ⟨w, hpasses⟩ := @exists_passes_undefined increment first (n + 1) hpos.le
        (by push_cast; exact hfits)
      refine ⟨n, w, hpasses, ?_⟩
      rw [Int64.lt_iff_toInt_lt, toInt_of_passes_undefined hpasses]
      push_cast
      exact habove
  · rename_i hpos
    constructor
    · intro h
      obtain ⟨n, w, hpasses, habove⟩ := h
      have hproduct : (n : ℤ) * increment.toInt ≤ 0 :=
        Int.mul_nonpos_of_nonneg_of_nonpos (Int.natCast_nonneg n) (Int.not_lt.mp hpos)
      rw [Int64.lt_iff_toInt_lt, toInt_of_passes_undefined hpasses] at habove
      push_cast at habove
      rw [Int.add_mul, Int.one_mul] at habove
      omega
    · intro habove
      have hlow := last.le_toInt
      have htop := first.toInt_lt
      have hnext : (first + increment).toInt = first.toInt + increment.toInt := by
        rw [Int64.toInt_add, Int.bmod_eq_of_le (by omega) (by omega)]
      refine ⟨0, first + increment, ?_, ?_⟩
      · rw [passes, add_undefined_eq_some_iff.mpr hnext]
        rfl
      · rw [Int64.lt_iff_toInt_lt, hnext]
        exact habove

end Range

/-- The loop of a range stops exactly if a value above its bound is reached. -/
theorem exists_emplaced_iff {overflow : Overflow} {spec : Specification} :
    (∃ fuel, (emplaced overflow fuel spec).isSome = true) ↔ spec.Stops overflow := by
  cases spec with
  | ignored => exact iff_of_true ⟨0, rfl⟩ trivial
  | value v => exact iff_of_true ⟨0, rfl⟩ trivial
  | range first last increment =>
    have habove (w : Int64) : decide (w ≤ last) = false ↔ last < w := by
      rw [decide_eq_false_iff_not, Int64.not_le]
    show (∃ fuel, (doWhile _ _ fuel first).isSome = true) ↔ _
    rw [exists_doWhile_iff]
    simp only [habove]
    cases overflow with
    | wraps => exact exists_above_wraps_iff
    | undefined => exact exists_above_undefined_iff

section Parse

variable {delimit : List UInt8 → List UInt8 → List (List UInt8)} {label : List UInt8}
  {incr : Int64} {overflow : Overflow}

theorem emplaced_of_le {fuel fuel' : Nat} (hle : fuel ≤ fuel') {spec : Specification}
    {values : List Int64} (h : emplaced overflow fuel spec = some values) :
    emplaced overflow fuel' spec = some values := by
  cases spec with
  | ignored => exact h
  | value v => exact h
  | range first last increment => exact doWhile_of_le hle h

theorem parseParts_of_le {fuel fuel' : Nat} (hle : fuel ≤ fuel') {vs : List (List UInt8)}
    {result : Except Failure (List Int64)}
    (h : parseParts delimit label incr overflow fuel vs = some result) :
    parseParts delimit label incr overflow fuel' vs = some result := by
  induction vs generalizing result with
  | nil => exact h
  | cons v vs ih =>
    rw [parseParts] at h ⊢
    split at h
    · exact h
    · obtain ⟨values, hvalues, hrest⟩ := Option.bind_eq_some_iff.mp h
      obtain ⟨rest, hparts, rfl⟩ := Option.map_eq_some_iff.mp hrest
      rw [emplaced_of_le hle hvalues, Option.bind_some, ih hparts, Option.map_some]

theorem exists_parseParts_iff {vs : List (List UInt8)} :
    (∃ fuel, (parseParts delimit label incr overflow fuel vs).isSome = true) ↔
      RangesStop delimit label incr overflow vs := by
  induction vs with
  | nil => exact iff_of_true ⟨0, rfl⟩ trivial
  | cons v vs ih =>
    simp only [parseParts, RangesStop]
    cases hspec : specification delimit label incr v with
    | error failure => exact iff_of_true ⟨0, rfl⟩ trivial
    | ok spec =>
      show (∃ fuel, Option.isSome (Option.bind (emplaced overflow fuel spec) _) = true) ↔
        spec.Stops overflow ∧ _
      rw [← ih, ← exists_emplaced_iff]
      constructor
      · intro h
        obtain ⟨fuel, h⟩ := h
        obtain ⟨result, hresult⟩ := Option.isSome_iff_exists.mp h
        obtain ⟨values, hvalues, hrest⟩ := Option.bind_eq_some_iff.mp hresult
        obtain ⟨rest, hparts, -⟩ := Option.map_eq_some_iff.mp hrest
        exact ⟨⟨fuel, by rw [hvalues]; rfl⟩, fuel, by rw [hparts]; rfl⟩
      · intro h
        obtain ⟨⟨fuel, h⟩, fuel', h'⟩ := h
        obtain ⟨values, hvalues⟩ := Option.isSome_iff_exists.mp h
        obtain ⟨rest, hparts⟩ := Option.isSome_iff_exists.mp h'
        refine ⟨max fuel fuel', ?_⟩
        rw [emplaced_of_le (Nat.le_max_left _ _) hvalues, Option.bind_some,
          parseParts_of_le (Nat.le_max_right _ _) hparts]
        rfl

end Parse

/-- The function returns or throws exactly if the ranges it comes to stop. -/
theorem terminates_iff (delimit : List UInt8 → List UInt8 → List (List UInt8))
    (label : List UInt8) (incr : Int64) (overflow : Overflow) (input : List UInt8) :
    Terminates delimit label incr overflow input ↔
      RangesStop delimit label incr overflow (delimit (input.map toLower) delimiters) :=
  exists_parseParts_iff

/-- A delimiter function: the stretches between delimiters that are not empty. -/
def splitAny (line delimiters : List UInt8) : List (List UInt8) :=
  (line.splitOnP delimiters.contains).filter (· ≠ [])

/-- The text `3-9:3,7`. -/
example : parseNumericRange splitAny [] 1 .wraps 4 [51, 45, 57, 58, 51, 44, 55] =
    some (.ok [3, 6, 9, 7]) := rfl

/-- The text `0-4:0`. -/
def zeroIncrement : List UInt8 := [48, 45, 52, 58, 48]

theorem not_terminates_of_overflow (label : List UInt8) (overflow : Overflow) :
    ¬ Terminates splitAny label 1 overflow zeroIncrement := by
  intro h
  obtain ⟨fuel, h⟩ := h
  have hparts : splitAny (zeroIncrement.map toLower) delimiters = [zeroIncrement] := by decide
  have hspec : specification splitAny label 1 zeroIncrement = .ok (.range 0 4 0) := rfl
  obtain ⟨result, hresult⟩ := Option.isSome_iff_exists.mp h
  rw [parseNumericRange, hparts, parseParts, hspec] at hresult
  obtain ⟨values, hvalues, -⟩ := Option.bind_eq_some_iff.mp hresult
  obtain ⟨n, w, hpasses, hstop⟩ := exists_doWhile_iff.mp ⟨fuel, Option.isSome_of_eq_some hvalues⟩
  have hfixed : add overflow 0 0 = some 0 := by
    cases overflow <;> rfl
  rw [passes_of_fixed hfixed, Option.some_inj] at hpasses
  subst hpasses
  exact absurd hstop (by decide)

/-- A range with the increment zero never comes above its bound. -/
theorem not_terminates_zeroIncrement :
    ¬ Terminates splitAny [] 1 .wraps zeroIncrement ∧
      ¬ Terminates splitAny [] 1 .undefined zeroIncrement :=
  ⟨not_terminates_of_overflow [] .wraps, not_terminates_of_overflow [] .undefined⟩

end Utility
end Rocprofsys
