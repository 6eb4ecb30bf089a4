import Mathlib.Data.List.Sort
import Rocprofsys.Utility.RangeItems

namespace Rocprofsys
namespace Utility

open Base

/-! ## Containers -/

/-- A container that `emplace` fills. -/
structure Container (C : Type) where
  empty : C
  emplace : C → Int64 → C
  Holds : C → Int64 → Prop
  not_holds_empty : ∀ v, ¬ Holds empty v
  holds_emplace : ∀ c v w, Holds (emplace c v) w ↔ Holds c w ∨ w = v

namespace Container

/-- `std::vector<int64_t>`, by `emplace_back`. -/
def vector : Container (List Int64) where
  empty := []
  emplace c v := c ++ [v]
  Holds c v := v ∈ c
  not_holds_empty _ := List.not_mem_nil
  holds_emplace _ _ _ := by rw [List.mem_append, List.mem_singleton]

/-- `std::set<int64_t>`, in the order of its numbers. -/
def set : Container (List Int64) where
  empty := []
  emplace c v := if v ∈ c then c else c.orderedInsert (· ≤ ·) v
  Holds c v := v ∈ c
  not_holds_empty _ := List.not_mem_nil
  holds_emplace c v w := by
    split
    · rename_i h
      refine ⟨Or.inl, fun hw => ?_⟩
      rcases hw with hw | rfl
      · exact hw
      · exact h
    · rw [List.mem_orderedInsert, or_comm]

/-- `std::unordered_set<int64_t>`. -/
def unorderedSet : Container (List Int64) where
  empty := []
  emplace c v := c.insert v
  Holds c v := v ∈ c
  not_holds_empty _ := List.not_mem_nil
  holds_emplace _ _ _ := by rw [List.mem_insert_iff, or_comm]

variable {C : Type} (container : Container C)

def filled (values : List Int64) : C := values.foldl container.emplace container.empty

theorem holds_filled {values : List Int64} {w : Int64} :
    container.Holds (container.filled values) w ↔ w ∈ values := by
  have hfold (c : C) : container.Holds (values.foldl container.emplace c) w ↔
      container.Holds c w ∨ w ∈ values := by
    induction values generalizing c with
    | nil => simp
    | cons v values ih => rw [List.foldl_cons, ih, container.holds_emplace, List.mem_cons, or_assoc]
  rw [filled, hfold, or_iff_right (container.not_holds_empty w)]

end Container

/-! ## The numbers of a specification -/

section Values

variable {overflow : Overflow} {incr : Int64} {label : List UInt8}

theorem emplaced_specification {item : Item} (h : item.Bounded)
    (hincr : 1 ≤ incr.toInt ∧ incr.toInt < 2 ^ 62) :
    ∃ fuel values, emplaced overflow fuel (item.specification incr) = some values ∧
      ∀ v : Int64, v ∈ values ↔ item.Denotes incr.toInt v.toInt := by
  cases item with
  | single n =>
    refine ⟨0, [Int64.ofNat n.value], rfl, fun v => ?_⟩
    rw [List.mem_singleton, ← Int64.toInt_inj, Int64.toInt_ofNat_of_lt h]
    rfl
  | range first last =>
    obtain ⟨hle, hlast⟩ := h
    have hfirst' : (Int64.ofNat first.value).toInt = first.value :=
      Int64.toInt_ofNat_of_lt (by omega)
    have hlast' : (Int64.ofNat last.value).toInt = last.value :=
      Int64.toInt_ofNat_of_lt (by omega)
    have h := @emplaced_range overflow (Int64.ofNat first.value) (Int64.ofNat last.value) incr
      (by omega) hincr.1 (by omega)
    rwa [hfirst', hlast'] at h
  | stepped first last increment =>
    obtain ⟨hle, hlast, hpos, hincrement⟩ := h
    have hfirst' : (Int64.ofNat first.value).toInt = first.value :=
      Int64.toInt_ofNat_of_lt (by omega)
    have hlast' : (Int64.ofNat last.value).toInt = last.value :=
      Int64.toInt_ofNat_of_lt (by omega)
    have hincrement' : (Int64.ofNat increment.value).toInt = increment.value :=
      Int64.toInt_ofNat_of_lt (by omega)
    have h := @emplaced_range overflow (Int64.ofNat first.value) (Int64.ofNat last.value)
      (Int64.ofNat increment.value) (by omega) (by omega) (by omega)
    rwa [hfirst', hlast', hincrement'] at h

theorem parseParts_items {items : List Item} (hitems : ∀ item ∈ items, item.Bounded)
    (hincr : 1 ≤ incr.toInt ∧ incr.toInt < 2 ^ 62) :
    ∃ fuel values,
      parseParts Common.delimit label incr overflow fuel (items.map Item.text) =
        some (.ok values) ∧
      ∀ v : Int64, v ∈ values ↔ ∃ item ∈ items, item.Denotes incr.toInt v.toInt := by
  induction items with
  | nil => exact ⟨0, [], rfl, fun v => by simp⟩
  | cons item items ih =>
    have hitem := hitems item List.mem_cons_self
    obtain ⟨fuel, values, hvalues, hmem⟩ := @emplaced_specification overflow incr item hitem hincr
    obtain ⟨fuel', rest, hrest, hmem'⟩ :=
      ih fun item' h => hitems item' (List.mem_cons_of_mem item h)
    refine ⟨max fuel fuel', values ++ rest, ?_, fun v => ?_⟩
    · rw [List.map_cons, parseParts, specification_text hitem]
      show (emplaced _ _ _).bind _ = _
      rw [emplaced_of_le (Nat.le_max_left fuel fuel') hvalues, Option.bind_some,
        parseParts_of_le (Nat.le_max_right fuel fuel') hrest]
      rfl
    · rw [List.mem_append, hmem, hmem']
      simp

/-- No item stands for a number that does not fit 64 bits. -/
theorem Item.Bounded.fits {item : Item} (h : item.Bounded) (hincr : 1 ≤ incr.toInt) {z : ℤ}
    (hz : item.Denotes incr.toInt z) : -2 ^ 63 ≤ z ∧ z < 2 ^ 63 := by
  cases item with
  | single n =>
    have hn : n.value < 2 ^ 63 := h
    have heq : z = n.value := hz
    omega
  | range first last =>
    obtain ⟨hle, hlast⟩ := h
    obtain ⟨i, heq, hbound⟩ := hz
    have hproduct : 0 ≤ (i : ℤ) * incr.toInt :=
      Int.mul_nonneg (Int.natCast_nonneg i) (by omega)
    omega
  | stepped first last increment =>
    obtain ⟨hle, hlast, hpos, hincrement⟩ := h
    obtain ⟨i, heq, hbound⟩ := hz
    have hproduct : 0 ≤ (i : ℤ) * increment.value :=
      Int.mul_nonneg (Int.natCast_nonneg i) (Int.natCast_nonneg _)
    omega

end Values

/-! ## Specifications -/

section Specifications

variable {isSeparator : UInt8 → Bool} {items : List Item} {input : List UInt8}

theorem toLower_of_isPermitted {b : UInt8} (h : isPermitted b = true) : toLower b = b := by
  rw [toLower, if_neg]
  intro hupper
  rw [isPermitted, Bool.or_eq_true, Bool.or_eq_true, beq_iff_eq, beq_iff_eq] at h
  rw [UInt8.le_iff_toNat_le, UInt8.le_iff_toNat_le] at hupper
  rcases h with (h | rfl) | rfl
  · have hdigit := isDigit_toNat h
    have hlow : 65 ≤ b.toNat := hupper.1
    omega
  · exact absurd hupper.1 (by decide)
  · exact absurd hupper.1 (by decide)

/-- There is no letter in a specification. -/
theorem map_toLower (hlower : ∀ b, isSeparator b = true → toLower b = b)
    (h : Separated isSeparator (items.map Item.text) input) : input.map toLower = input := by
  refine (List.map_congr_left fun b hb => ?_).trans (List.map_id input)
  rcases mem_of_separated h hb with hb | ⟨t, ht, hb⟩
  · exact hlower b hb
  · obtain ⟨item, -, rfl⟩ := List.mem_map.mp ht
    exact toLower_of_isPermitted (List.all_eq_true.mp (all_isPermitted_text item) b hb)

theorem cases_of_delimiter {b : UInt8} (h : delimiters.contains b = true) :
    b = 44 ∨ b = 59 ∨ b = 32 ∨ b = 9 ∨ b = 10 ∨ b = 13 := by
  simpa [delimiters] using h

theorem toLower_of_delimiter {b : UInt8} (h : delimiters.contains b = true) : toLower b = b := by
  rcases cases_of_delimiter h with rfl | rfl | rfl | rfl | rfl | rfl <;> rfl

theorem isToken_item (item : Item) : IsToken delimiters.contains item.text :=
  item.isToken_text (fun _ hdigit => contains_of_isDigit rfl hdigit) rfl rfl

/-- The function returns, with the numbers of the items. -/
theorem parseNumericRange_items {overflow : Overflow} {incr : Int64} {label : List UInt8}
    (hincr : 1 ≤ incr.toInt ∧ incr.toInt < 2 ^ 62) (hitems : ∀ item ∈ items, item.Bounded)
    (hinput : Separated delimiters.contains (items.map Item.text) input) :
    ∃ fuel values,
      parseNumericRange Common.delimit label incr overflow fuel input = some (.ok values) ∧
      ∀ z : ℤ, (∃ v ∈ values, v.toInt = z) ↔ ∃ item ∈ items, item.Denotes incr.toInt z := by
  obtain ⟨fuel, values, hparse, hmem⟩ := @parseParts_items overflow incr label items hitems hincr
  refine ⟨fuel, values, ?_, fun z => ?_⟩
  · rw [parseNumericRange, map_toLower (fun b hb => toLower_of_delimiter hb) hinput,
      Common.delimit_eq_tokens, tokens_of_separated hinput, hparse]
  · constructor
    · intro h
      obtain ⟨v, hv, rfl⟩ := h
      exact (hmem v).mp hv
    · intro h
      obtain ⟨item, hitem, hz⟩ := h
      obtain ⟨hlow, hhigh⟩ := (hitems item hitem).fits hincr.1 hz
      have hv : (Int64.ofInt z).toInt = z := Int64.toInt_ofInt_of_le hlow hhigh
      refine ⟨Int64.ofInt z, (hmem _).mpr ⟨item, hitem, ?_⟩, hv⟩
      rw [hv]
      exact hz

end Specifications

/-- `parse_numeric_range` into a container. -/
def parseNumericRangeInto {C : Type} (container : Container C)
    (delimit : List UInt8 → List UInt8 → List (List UInt8)) (label : List UInt8) (incr : Int64)
    (overflow : Overflow) (fuel : Nat) (input : List UInt8) : Option (Except Failure C) :=
  (parseNumericRange delimit label incr overflow fuel input).map (Except.map container.filled)

/-- Of a specification, whatever stands between its items, the container holds the numbers
that the items stand for. -/
theorem parseNumericRangeInto_holds {C : Type} (container : Container C)
    (delimit : List UInt8 → List UInt8 → List (List UInt8)) (hdelimit : delimit = Common.delimit)
    (label : List UInt8) (incr : Int64) (hincr : 1 ≤ incr.toInt ∧ incr.toInt < 2 ^ 62)
    (overflow : Overflow) (items : List Item) (hitems : ∀ item ∈ items, item.Bounded)
    (input : List UInt8) (hinput : Separated delimiters.contains (items.map Item.text) input) :
    ∃ fuel c,
      parseNumericRangeInto container delimit label incr overflow fuel input = some (.ok c) ∧
      ∀ z : ℤ, (∃ v, container.Holds c v ∧ v.toInt = z) ↔
        ∃ item ∈ items, item.Denotes incr.toInt z := by
  subst hdelimit
  obtain ⟨fuel, values, hparse, hmem⟩ :=
    @parseNumericRange_items items input overflow incr label hincr hitems hinput
  refine ⟨fuel, container.filled values, ?_, fun z => ?_⟩
  · rw [parseNumericRangeInto, hparse]
    rfl
  · simp only [container.holds_filled]
    exact hmem z

def three : Digits := .one 51 rfl
def seven : Digits := .one 55 rfl
def nine : Digits := .one 57 rfl

/-- The text `3-9:3, 7`. -/
theorem parseNumericRangeInto_holds_steppedSingle :
    ∃ fuel c, parseNumericRangeInto Container.set Common.delimit [] 1 .wraps fuel
        [51, 45, 57, 58, 51, 44, 32, 55] = some (.ok c) ∧
      ∀ z : ℤ, (∃ v, Container.set.Holds c v ∧ v.toInt = z) ↔
        ∃ item ∈ [Item.stepped three nine three, Item.single seven], item.Denotes 1 z := by
  refine parseNumericRangeInto_holds Container.set Common.delimit rfl [] 1 (by decide) .wraps
    [.stepped three nine three, .single seven] (fun item hitem => ?_)
    [51, 45, 57, 58, 51, 44, 32, 55] ?_
  · rcases List.mem_pair.mp hitem with rfl | rfl
    · exact ⟨by decide, by decide, by decide, by decide⟩
    · show seven.value < 2 ^ 63
      decide
  · exact .token (isToken_item (.stepped three nine three)) rfl
      (.delimiter rfl (.last (isToken_item (.single seven))))

end Utility
end Rocprofsys
