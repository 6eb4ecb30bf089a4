import Rocprofsys.Common.Delimit
import Rocprofsys.Utility.RangeTermination

namespace Rocprofsys
namespace Utility

open Base

/-! ## Items of a range specification -/

/-- A number as it is written. -/
structure Digits where
  bytes : List UInt8
  ne_nil : bytes ≠ []
  areDigits : ∀ b ∈ bytes, isDigit b = true

def Digits.value (n : Digits) : Nat := digitsValue n.bytes

/-- A number of one digit. -/
def Digits.one (b : UInt8) (h : isDigit b = true) : Digits :=
  ⟨[b], List.cons_ne_nil b [], List.forall_mem_singleton.mpr h⟩

/-- `n`, `N-M` or `N-M:K`. -/
inductive Item where
  | single (n : Digits)
  | range (first last : Digits)
  | stepped (first last increment : Digits)

namespace Item

def text : Item → List UInt8
  | single n => n.bytes
  | range first last => first.bytes ++ 45 :: last.bytes
  | stepped first last increment => first.bytes ++ 45 :: (last.bytes ++ 58 :: increment.bytes)

/-- The numbers that the item stands for, where `incr` is the increment of the caller. -/
def Denotes (incr : ℤ) (v : ℤ) : Item → Prop
  | single n => v = n.value
  | range first last => ∃ i : ℕ, v = first.value + i * incr ∧ v ≤ last.value
  | stepped first last increment =>
    ∃ i : ℕ, v = first.value + i * increment.value ∧ v ≤ last.value

/-- A number is a 64-bit integer, and a range rises with some way to go to the limit. -/
def Bounded : Item → Prop
  | single n => n.value < 2 ^ 63
  | range first last => first.value ≤ last.value ∧ last.value < 2 ^ 62
  | stepped first last increment => first.value ≤ last.value ∧ last.value < 2 ^ 62 ∧
      1 ≤ increment.value ∧ increment.value < 2 ^ 62

/-- What the item is parsed to. -/
def specification (incr : Int64) : Item → Specification
  | single n => .value (Int64.ofNat n.value)
  | range first last => .range (Int64.ofNat first.value) (Int64.ofNat last.value) incr
  | stepped first last increment => .range (Int64.ofNat first.value) (Int64.ofNat last.value)
      (Int64.ofNat increment.value)

end Item

/-! ## Reading an item -/

section Digits

variable {b c : UInt8} {n : Digits}

theorem isSpace_of_isDigit (h : isDigit b = true) : isSpace b = false := by
  have hdigit := isDigit_toNat h
  rw [isSpace, Bool.or_eq_false_iff, Bool.and_eq_false_iff]
  refine ⟨?_, Or.inr ?_⟩
  · rw [beq_eq_false_iff_ne]
    intro heq
    subst heq
    exact absurd hdigit.1 (by decide)
  · rw [decide_eq_false_iff_not, UInt8.le_iff_toNat_le]
    show ¬ b.toNat ≤ 13
    omega

theorem ne_of_isDigit (h : isDigit b = true) (hc : isDigit c = false) : b ≠ c := by
  intro heq
  subst heq
  rw [h] at hc
  cases hc

theorem not_mem_digits (hc : isDigit c = false) : c ∉ n.bytes := by
  intro hmem
  exact ne_of_isDigit (n.areDigits c hmem) hc rfl

theorem scan_digits (n : Digits) : scan n.bytes = (false, n.bytes) := by
  obtain ⟨bytes, hne, hdigits⟩ := n
  cases bytes with
  | nil => exact absurd rfl hne
  | cons b bytes =>
    have hb := hdigits b List.mem_cons_self
    have hspace : (b :: bytes).dropWhile isSpace = b :: bytes := by
      rw [List.dropWhile_cons_of_neg]
      rw [isSpace_of_isDigit hb]
      exact Bool.false_ne_true
    rw [scan, hspace, takeSign_of_isDigit hb, List.takeWhile_eq_self_iff.mpr hdigits]

theorem scannedValue_digits (n : Digits) : scannedValue n.bytes = n.value := by
  rw [scannedValue, scan_digits]
  rfl

theorem stoull_digits (h : n.value < 2 ^ 64) : stoull n.bytes = .ok (UInt64.ofNat n.value) := by
  have hlt : ¬ 2 ^ 64 ≤ digitsValue n.bytes := Nat.not_le.mpr h
  have hmod : (n.value : ℤ) % 2 ^ 64 = n.value := by omega
  simp only [stoull, scan_digits, if_neg n.ne_nil, if_neg hlt, scannedValue_digits, UInt64.ofInt,
    hmod, Int.toNat_natCast]

theorem stoll_digits (h : n.value < 2 ^ 63) : stoll n.bytes = .ok (Int64.ofNat n.value) := by
  have hfits : -2 ^ 63 ≤ (n.value : ℤ) ∧ (n.value : ℤ) < 2 ^ 63 := by omega
  simp only [stoll, scan_digits, if_neg n.ne_nil, scannedValue_digits, if_pos hfits,
    Int64.ofInt_eq_ofNat]

theorem stoi_digits (n : Digits) : stoi n.bytes =
    if n.value < 2 ^ 31 then .ok (Int32.ofNat n.value) else .error (.outOfRange "stoi") := by
  have hfits : (-2 ^ 31 ≤ (n.value : ℤ) ∧ (n.value : ℤ) < 2 ^ 31) ↔ n.value < 2 ^ 31 := by omega
  simp only [stoi, scan_digits, if_neg n.ne_nil, scannedValue_digits, hfits, Int32.ofInt_eq_ofNat]

theorem getValue_digits (h : n.value < 2 ^ 63) : getValue n.bytes = Int64.ofNat n.value := by
  have hlow : Int64.minValue.toInt ≤ (n.value : ℤ) := by
    show -2 ^ 63 ≤ (n.value : ℤ)
    omega
  have hhigh : (n.value : ℤ) ≤ Int64.maxValue.toInt := by
    show (n.value : ℤ) ≤ 2 ^ 63 - 1
    omega
  rw [getValue, scannedValue_digits, Int64.ofIntClamp, dif_pos hlow, dif_pos hhigh,
    Int64.ofIntLE_eq_ofInt, Int64.ofInt_eq_ofNat]

end Digits

section Parts

variable {incr : Int64} {label head : List UInt8} {n first last : Digits}

theorem all_isPermitted_digits (n : Digits) : n.bytes.all isPermitted = true := by
  rw [List.all_eq_true]
  intro b hb
  rw [isPermitted, n.areDigits b hb]
  rfl

theorem all_isPermitted_text (item : Item) : item.text.all isPermitted = true := by
  have hminus : isPermitted 45 = true := by decide
  have hcolon : isPermitted 58 = true := by decide
  cases item with
  | single n => exact all_isPermitted_digits n
  | range first last =>
    simp only [Item.text, List.all_append, List.all_cons, all_isPermitted_digits, hminus,
      Bool.and_self]
  | stepped first last increment =>
    simp only [Item.text, List.all_append, List.all_cons, all_isPermitted_digits, hminus, hcolon,
      Bool.and_self]

theorem dropWhile_colon (h : 58 ∉ head) (rest : List UInt8) :
    (head ++ 58 :: rest).dropWhile (· != 58) = 58 :: rest := by
  rw [List.dropWhile_append_of_pos]
  · rfl
  · intro b hb
    rw [bne_iff_ne]
    intro heq
    subst heq
    exact h hb

theorem takeWhile_colon (h : 58 ∉ head) (rest : List UInt8) :
    (head ++ 58 :: rest).takeWhile (· != 58) = head := by
  rw [List.takeWhile_append_of_pos, List.takeWhile_cons_of_neg, List.append_nil]
  · decide
  · intro b hb
    rw [bne_iff_ne]
    intro heq
    subst heq
    exact h hb

theorem takeWhile_of_no_colon (h : 58 ∉ head) : head.takeWhile (· != 58) = head := by
  rw [List.takeWhile_eq_self_iff]
  intro b hb
  rw [bne_iff_ne]
  intro heq
  subst heq
  exact h hb

theorem increment_of_no_colon (h : 58 ∉ head) : increment incr head = .ok incr := by
  have hdrop : head.dropWhile (· != 58) = [] := by
    rw [← List.append_cancel_left_eq (head.takeWhile (· != 58)), List.takeWhile_append_dropWhile,
      takeWhile_of_no_colon h, List.append_nil]
  rw [increment, hdrop]
  rfl

theorem increment_of_colon (h : 58 ∉ head) (hn : n.value < 2 ^ 64) :
    increment incr (head ++ 58 :: n.bytes) = .ok (Int64.ofNat n.value) := by
  rw [increment, dropWhile_colon h, List.drop_succ_cons, List.drop_zero, if_neg n.ne_nil,
    stoull_digits hn]
  rfl

/-- The first and the last number of a range. -/
def bothEnds (first last : Digits) : List UInt8 := first.bytes ++ 45 :: last.bytes

theorem no_colon_digits (n : Digits) : 58 ∉ n.bytes := not_mem_digits (by decide)

theorem no_colon_bothEnds (first last : Digits) : 58 ∉ bothEnds first last := by
  rw [bothEnds, List.mem_append, List.mem_cons, not_or, not_or]
  exact ⟨no_colon_digits first, by decide, no_colon_digits last⟩

theorem contains_of_isDigit {ds : List UInt8} (hds : ds.any isDigit = false)
    {b : UInt8} (h : isDigit b = true) : ds.contains b = false := by
  rw [Bool.eq_false_iff]
  intro hmem
  have hany : ds.any isDigit = true :=
    List.any_eq_true.mpr ⟨b, List.contains_iff_mem.mp hmem, h⟩
  exact Bool.false_ne_true (hds.symm.trans hany)

theorem isToken_digits {isDelimiter : UInt8 → Bool}
    (h : ∀ b, isDigit b = true → isDelimiter b = false) (n : Digits) :
    IsToken isDelimiter n.bytes :=
  ⟨n.ne_nil, fun b hb => h b (n.areDigits b hb)⟩

theorem Item.isToken_text {isDelimiter : UInt8 → Bool}
    (h : ∀ b, isDigit b = true → isDelimiter b = false) (hminus : isDelimiter 45 = false)
    (hcolon : isDelimiter 58 = false) (item : Item) : IsToken isDelimiter item.text := by
  cases item with
  | single n => exact isToken_digits h n
  | range first last =>
    exact (isToken_digits h first).append_cons hminus (isToken_digits h last)
  | stepped first last increment =>
    exact (isToken_digits h first).append_cons hminus
      ((isToken_digits h last).append_cons hcolon (isToken_digits h increment))

theorem delimit_bothEnds (first last : Digits) :
    Common.delimit (bothEnds first last) [45] = [first.bytes, last.bytes] := by
  have hdigit (b : UInt8) (h : isDigit b = true) : [45].contains b = false :=
    contains_of_isDigit rfl h
  rw [Common.delimit_eq_tokens, bothEnds, tokens_append_token (isToken_digits hdigit first) rfl,
    tokens_token (isToken_digits hdigit last)]

theorem bounds_digits (h : n.value < 2 ^ 63) :
    bounds Common.delimit label n.bytes incr = .ok (.value (Int64.ofNat n.value)) := by
  have hminus : 45 ∉ n.bytes := not_mem_digits (by decide)
  rw [bounds, if_neg hminus, stoll_digits h]
  rfl

theorem bounds_bothEnds (hfirst : first.value < 2 ^ 63) (hlast : last.value < 2 ^ 63) :
    bounds Common.delimit label (bothEnds first last) incr =
      .ok (.range (Int64.ofNat first.value) (Int64.ofNat last.value) incr) := by
  have hminus : 45 ∈ bothEnds first last :=
    List.mem_append_right first.bytes List.mem_cons_self
  simp only [bounds, if_pos hminus, delimit_bothEnds, getValue_digits hfirst,
    getValue_digits hlast]

theorem text_stepped (first last increment : Digits) :
    (Item.stepped first last increment).text = bothEnds first last ++ 58 :: increment.bytes := by
  rw [bothEnds, List.append_assoc]
  rfl

/-- An item is read as what it says. -/
theorem specification_text {item : Item} (h : item.Bounded) :
    specification Common.delimit label incr item.text = .ok (item.specification incr) := by
  rw [specification, if_pos (all_isPermitted_text item)]
  cases item with
  | single n =>
    show (increment incr n.bytes).bind _ = _
    rw [increment_of_no_colon (no_colon_digits n)]
    show bounds _ _ (n.bytes.takeWhile _) incr = _
    rw [takeWhile_of_no_colon (no_colon_digits n), bounds_digits h]
    rfl
  | range first last =>
    obtain ⟨hle, hlast⟩ := h
    show (increment incr (bothEnds first last)).bind _ = _
    rw [increment_of_no_colon (no_colon_bothEnds first last)]
    show bounds _ _ ((bothEnds first last).takeWhile _) incr = _
    rw [takeWhile_of_no_colon (no_colon_bothEnds first last),
      bounds_bothEnds (by omega) (by omega)]
    rfl
  | stepped first last step =>
    obtain ⟨hle, hlast, -, hstep⟩ := h
    rw [text_stepped, increment_of_colon (no_colon_bothEnds first last) (by omega)]
    show bounds _ _ ((bothEnds first last ++ 58 :: step.bytes).takeWhile _) _ = _
    rw [takeWhile_colon (no_colon_bothEnds first last), bounds_bothEnds (by omega) (by omega)]
    rfl

end Parts

/-! ## The numbers of an item -/

section Values

variable {overflow : Overflow} {first last increment : Int64}

/-- As long as it fits, the sum is the exact one in either reading of overflow. -/
theorem passes_of_fits {n : ℕ} (hincrement : 0 ≤ increment.toInt)
    (hfits : first.toInt + n * increment.toInt < 2 ^ 63) :
    ∃ w, passes (add overflow increment) n first = some w ∧
      w.toInt = first.toInt + n * increment.toInt := by
  have hlow := first.le_toInt
  have hproduct : 0 ≤ (n : ℤ) * increment.toInt :=
    Int.mul_nonneg (Int.natCast_nonneg n) hincrement
  cases overflow with
  | wraps =>
    obtain ⟨w, hpasses, hw⟩ := @passes_wraps increment first n
    exact ⟨w, hpasses, by rw [hw, Int.bmod_eq_of_le (by omega) (by omega)]⟩
  | undefined =>
    obtain ⟨w, hpasses⟩ := exists_passes_undefined hincrement hfits
    exact ⟨w, hpasses, toInt_of_passes_undefined hpasses⟩

/-- The tests of the first passes hold as long as the numbers do not pass the bound. -/
theorem le_of_tests (hle : first.toInt ≤ last.toInt) (hincrement : 0 ≤ increment.toInt)
    (hfits : last.toInt + increment.toInt < 2 ^ 63) {n : ℕ}
    (htests : ∀ m < n, ∃ w, passes (add overflow increment) (m + 1) first = some w ∧
      decide (w ≤ last) = true) :
    first.toInt + n * increment.toInt ≤ last.toInt := by
  induction n with
  | zero =>
    rw [Nat.cast_zero, Int.zero_mul]
    omega
  | succ n ih =>
    have hn := ih fun m hm => htests m (Nat.lt_succ_of_lt hm)
    have hsum : ((n + 1 : ℕ) : ℤ) * increment.toInt = n * increment.toInt + increment.toInt := by
      push_cast
      ring
    obtain ⟨w, hpasses, hw⟩ := @passes_of_fits overflow first increment (n + 1) hincrement
      (by omega)
    obtain ⟨w', hpasses', htest⟩ := htests n (Nat.lt_succ_self n)
    rw [hpasses, Option.some_inj] at hpasses'
    rw [← hpasses', decide_eq_true_eq, Int64.le_iff_toInt_le] at htest
    omega

/-- A range that rises, and stays away from the limit by one increment, is expanded to its
numbers. -/
theorem emplaced_range (hle : first.toInt ≤ last.toInt) (hincrement : 1 ≤ increment.toInt)
    (hfits : last.toInt + increment.toInt < 2 ^ 63) :
    ∃ fuel values, emplaced overflow fuel (.range first last increment) = some values ∧
      ∀ v : Int64, v ∈ values ↔
        ∃ i : ℕ, v.toInt = first.toInt + i * increment.toInt ∧ v.toInt ≤ last.toInt := by
  have hpos : 0 ≤ increment.toInt := by omega
  have hreached {n : ℕ} (hn : first.toInt + n * increment.toInt < 2 ^ 63) :=
    @passes_of_fits overflow first increment n hpos hn
  have hstops : ∃ fuel, (emplaced overflow fuel (.range first last increment)).isSome = true := by
    -- the first number beyond the bound still fits
    have hlow := Int.ediv_mul_le (last.toInt - first.toInt) (show increment.toInt ≠ 0 by omega)
    have hhigh := Int.lt_ediv_add_one_mul_self (last.toInt - first.toInt)
      (show 0 < increment.toInt by omega)
    have hnonneg : 0 ≤ (last.toInt - first.toInt) / increment.toInt :=
      Int.ediv_nonneg (by omega) hpos
    generalize hq : (last.toInt - first.toInt) / increment.toInt = q at hlow hhigh hnonneg
    have hnext : ((q.toNat + 1 : ℕ) : ℤ) * increment.toInt = (q + 1) * increment.toInt := by
      rw [Nat.cast_succ, Int.toNat_of_nonneg hnonneg]
    have hsum : (q + 1) * increment.toInt = q * increment.toInt + increment.toInt := by
      ring
    obtain ⟨w, hpasses, hw⟩ := @hreached (q.toNat + 1) (by omega)
    refine exists_doWhile_iff.mpr ⟨q.toNat, w, hpasses, ?_⟩
    rw [decide_eq_false_iff_not, Int64.le_iff_toInt_le]
    omega
  obtain ⟨fuel, hsome⟩ := hstops
  obtain ⟨values, hvalues⟩ := Option.isSome_iff_exists.mp hsome
  refine ⟨fuel, values, hvalues, fun v => ?_⟩
  rw [mem_doWhile_iff hvalues]
  constructor
  · intro ⟨n, hpasses, htests⟩
    have hbound := le_of_tests hle hpos hfits htests
    obtain ⟨w, hpasses', hw⟩ := @hreached n (by omega)
    rw [hpasses, Option.some_inj] at hpasses'
    rw [hpasses']
    exact ⟨n, hw, by omega⟩
  · intro ⟨i, hv, hbound⟩
    obtain ⟨w, hpasses, hw⟩ := @hreached i (by omega)
    have heq : w = v := Int64.toInt_inj.mp (hw.trans hv.symm)
    refine ⟨i, by rw [hpasses, heq], fun m hm => ?_⟩
    have hstep : ((m + 1 : ℕ) : ℤ) * increment.toInt ≤ i * increment.toInt :=
      Int.mul_le_mul_of_nonneg_right (by omega) hpos
    obtain ⟨w', hpasses', hw'⟩ := @hreached (m + 1) (by omega)
    refine ⟨w', hpasses', ?_⟩
    rw [decide_eq_true_eq, Int64.le_iff_toInt_le]
    omega

end Values

end Utility
end Rocprofsys
