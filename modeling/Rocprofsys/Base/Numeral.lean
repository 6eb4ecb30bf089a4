import Mathlib.Data.List.DropRight
import Rocprofsys.Base.Decimal
import Rocprofsys.Base.Rounding

namespace Rocprofsys
namespace Base

/-! ## Decimal notation -/

/-- A number as it is written: its digits, and a fraction and an exponent where it has
them. -/
structure Numeral where
  whole : List UInt8
  fraction : Option (List UInt8)
  exponent : Option (Bool × List UInt8)
  deriving DecidableEq, Repr

namespace Numeral

def scale (n : Numeral) : ℤ :=
  match n.exponent with
  | none => 0
  | some (true, ds) => -digitsValue ds
  | some (false, ds) => digitsValue ds

def value (n : Numeral) : ℚ :=
  digitsValue (n.whole ++ n.fraction.getD []) *
    10 ^ (n.scale - (n.fraction.getD []).length)

def IsInteger (n : Numeral) : Prop := n.fraction = none ∧ n.exponent = none

instance (n : Numeral) : Decidable n.IsInteger := inferInstanceAs (Decidable (_ ∧ _))

def printFraction : Option (List UInt8) → List UInt8
  | none => []
  | some ds => 46 :: ds

def printExponent : Option (Bool × List UInt8) → List UInt8
  | none => []
  | some (negative, ds) => 101 :: (if negative then 45 else 43) :: ds

def print (n : Numeral) : List UInt8 :=
  n.whole ++ (printFraction n.fraction ++ printExponent n.exponent)

/-- Only digits stand where digits should. -/
structure WellFormed (n : Numeral) : Prop where
  whole : ∀ b ∈ n.whole, isDigit b = true
  fraction : ∀ ds ∈ n.fraction, ∀ b ∈ ds, isDigit b = true
  exponent : ∀ e ∈ n.exponent, e.2 ≠ [] ∧ ∀ b ∈ e.2, isDigit b = true

end Numeral

/-! ## Reading -/

def readFraction : List UInt8 → Option (List UInt8) × List UInt8
  | 46 :: rest => (some (rest.takeWhile isDigit), rest.dropWhile isDigit)
  | bs => (none, bs)

/-- An `e` counts only with digits behind it. -/
def readExponent : List UInt8 → Option (Bool × List UInt8) × List UInt8
  | b :: rest =>
    let signed := takeSign rest
    if (b = 101 ∨ b = 69) ∧ signed.2.takeWhile isDigit ≠ [] then
      (some (signed.1, signed.2.takeWhile isDigit), signed.2.dropWhile isDigit)
    else (none, b :: rest)
  | [] => (none, [])

def readNumeral (bs : List UInt8) : Numeral × List UInt8 :=
  let fraction := readFraction (bs.dropWhile isDigit)
  let exponent := readExponent fraction.2
  (⟨bs.takeWhile isDigit, fraction.1, exponent.1⟩, exponent.2)

/-- No digit, point or exponent follows. -/
def Ends (rest : List UInt8) : Prop :=
  ∀ b ∈ rest.head?, isDigit b = false ∧ b ≠ 46 ∧ b ≠ 101 ∧ b ≠ 69

theorem readFraction_none {rest : List UInt8} (h : ∀ b ∈ rest.head?, b ≠ 46) :
    readFraction rest = (none, rest) := by
  unfold readFraction
  split
  · exact absurd rfl (h 46 rfl)
  · rfl

theorem readExponent_none {rest : List UInt8} (h : ∀ b ∈ rest.head?, b ≠ 101 ∧ b ≠ 69) :
    readExponent rest = (none, rest) := by
  cases rest with
  | nil => rfl
  | cons b rest =>
    have hb := h b rfl
    rw [readExponent, if_neg]
    intro hexponent
    exact hexponent.1.elim hb.1 hb.2

theorem takeSign_sign (negative : Bool) (rest : List UInt8) :
    takeSign ((if negative then 45 else 43) :: rest) = (negative, rest) := by
  cases negative <;> rfl

theorem head_printExponent {exponent : Option (Bool × List UInt8)} {rest : List UInt8}
    (h : Ends rest) : ∀ b ∈ (Numeral.printExponent exponent ++ rest).head?,
      isDigit b = false ∧ b ≠ 46 := by
  intro b hb
  cases exponent with
  | none => exact ⟨(h b hb).1, (h b hb).2.1⟩
  | some exponent =>
    cases hb
    decide

theorem readExponent_printExponent {exponent : Option (Bool × List UInt8)}
    (hdigits : ∀ e ∈ exponent, e.2 ≠ [] ∧ ∀ b ∈ e.2, isDigit b = true) {rest : List UInt8}
    (h : Ends rest) : readExponent (Numeral.printExponent exponent ++ rest) = (exponent, rest) := by
  cases exponent with
  | none => exact readExponent_none fun b hb => (h b hb).2.2
  | some exponent =>
    obtain ⟨negative, ds⟩ := exponent
    obtain ⟨hne, hds⟩ := hdigits (negative, ds) rfl
    obtain ⟨htake, hdrop⟩ := takeWhile_isDigit hds fun b hb => (h b hb).1
    show readExponent (101 :: (if negative then 45 else 43) :: (ds ++ rest)) = _
    rw [readExponent]
    rw [takeSign_sign]
    show (if _ ∧ (ds ++ rest).takeWhile isDigit ≠ [] then _ else _) = _
    rw [htake, if_pos ⟨Or.inl rfl, hne⟩]
    show (some (negative, ds), (ds ++ rest).dropWhile isDigit) = _
    rw [hdrop]

/-- What is written is read back, up to where it ends. -/
theorem readNumeral_print {n : Numeral} (hn : n.WellFormed) {rest : List UInt8} (h : Ends rest) :
    readNumeral (n.print ++ rest) = (n, rest) := by
  obtain ⟨whole, fraction, exponent⟩ := n
  have hexponent := readExponent_printExponent hn.exponent h
  have hhead := @head_printExponent exponent rest h
  have hfraction : readFraction (Numeral.printFraction fraction ++
      (Numeral.printExponent exponent ++ rest)) =
      (fraction, Numeral.printExponent exponent ++ rest) := by
    cases fraction with
    | none => exact readFraction_none fun b hb => (hhead b hb).2
    | some ds =>
      obtain ⟨htake, hdrop⟩ := takeWhile_isDigit (hn.fraction ds rfl) fun b hb => (hhead b hb).1
      show (some ((ds ++ _).takeWhile isDigit), (ds ++ _).dropWhile isDigit) = _
      rw [htake, hdrop]
  have hwhole : ∀ b ∈ (Numeral.printFraction fraction ++
      (Numeral.printExponent exponent ++ rest)).head?, isDigit b = false := by
    intro b hb
    cases fraction with
    | none => exact (hhead b hb).1
    | some ds =>
      cases hb
      decide
  obtain ⟨htake, hdrop⟩ := takeWhile_isDigit hn.whole hwhole
  rw [Numeral.print, List.append_assoc, List.append_assoc, readNumeral]
  simp only [htake, hdrop, hfraction, hexponent]

/-! ## The format `%g` -/

/-- The digits of a rounded number and the exponent of the first. -/
def scientific (digits : ℕ) (q : ℚ) : ℕ × ℤ :=
  let m := (roundHalfEven (q / 10 ^ lastPlace 10 digits q)).toNat
  if m = 10 ^ digits then (10 ^ (digits - 1), Int.log 10 q + 1) else (m, Int.log 10 q)

/-- The digits behind the point, without the zeros at the end. -/
def fractionOf (ds : List UInt8) : Option (List UInt8) :=
  let kept := ds.rdropWhile (· == 48)
  if kept = [] then none else some kept

/-- At least two digits. -/
def exponentDigits (x : ℤ) : List UInt8 :=
  if x.natAbs < 10 then 48 :: decimal x.natAbs else decimal x.natAbs

/-- `%g` with `digits` significant digits, for a number that is not negative. -/
def generalFormat (digits : ℕ) (q : ℚ) : Numeral :=
  if q = 0 then ⟨[48], none, none⟩
  else
    let ds := decimal (scientific digits q).1
    let x := (scientific digits q).2
    if -4 ≤ x ∧ x < digits then
      if 0 ≤ x then ⟨ds.take (x.toNat + 1), fractionOf (ds.drop (x.toNat + 1)), none⟩
      else ⟨[48], fractionOf (List.replicate (-x - 1).toNat 48 ++ ds), none⟩
    else ⟨ds.take 1, fractionOf (ds.drop 1), some (decide (x < 0), exponentDigits x)⟩

theorem digitsValue_replicate_zero (n : ℕ) : digitsValue (List.replicate n 48) = 0 := by
  induction n with
  | zero => rfl
  | succ n ih =>
    rw [List.replicate_succ', digitsValue_append, ih, Nat.zero_mul, Nat.zero_add]
    rfl

theorem digitsValue_append_zeros {zeros : List UInt8} (h : ∀ b ∈ zeros, (b == 48) = true)
    (ds : List UInt8) : digitsValue (ds ++ zeros) = digitsValue ds * 10 ^ zeros.length := by
  have hzeros : zeros = List.replicate zeros.length 48 :=
    List.eq_replicate_of_mem fun b hb => eq_of_beq (h b hb)
  have hvalue := digitsValue_replicate_zero zeros.length
  rw [digitsValue_append]
  rw [← hzeros] at hvalue
  rw [hvalue, Nat.add_zero]

theorem fractionOf_getD (ds : List UInt8) :
    (fractionOf ds).getD [] = ds.rdropWhile (· == 48) := by
  unfold fractionOf
  simp only []
  split
  · rename_i hnil
    rw [hnil]
    rfl
  · rfl

/-- The zeros at the end of a fraction count for nothing. -/
theorem value_fractionOf (whole ds : List UInt8) (exponent : Option (Bool × List UInt8)) :
    (Numeral.mk whole (fractionOf ds) exponent).value =
      digitsValue (whole ++ ds) * 10 ^ ((Numeral.mk whole none exponent).scale - ds.length) := by
  have hzeros : ∀ b ∈ ds.rtakeWhile (· == 48), (b == 48) = true :=
    fun b hb => List.mem_rtakeWhile_imp (p := fun b => b == 48) hb
  have hsplit : ds.rdropWhile (· == 48) ++ ds.rtakeWhile (· == 48) = ds :=
    List.rdropWhile_append_rtakeWhile
  show (digitsValue (whole ++ (fractionOf ds).getD []) : ℚ) *
    10 ^ ((Numeral.mk whole none exponent).scale - ((fractionOf ds).getD []).length) = _
  rw [fractionOf_getD]
  generalize ds.rdropWhile (· == 48) = kept at *
  generalize ds.rtakeWhile (· == 48) = zeros at *
  subst hsplit
  have hpow : (10 : ℚ) ^ ((Numeral.mk whole none exponent).scale - (kept.length : ℤ)) =
      10 ^ zeros.length *
        10 ^ ((Numeral.mk whole none exponent).scale - ((kept ++ zeros).length : ℤ)) := by
    rw [← zpow_natCast, ← zpow_add₀ (by norm_num), List.length_append]
    congr 1
    push_cast
    ring
  rw [← List.append_assoc, digitsValue_append_zeros hzeros, hpow]
  push_cast
  ring

section Format

variable {digits : ℕ} (hdigits : 0 < digits) {q : ℚ} (hq : 0 < q)
include hdigits hq

/-- The rounded digits as a natural number. -/
theorem exists_digits : ∃ m : ℕ, roundHalfEven (q / 10 ^ lastPlace 10 digits q) = m ∧
    10 ^ (digits - 1) ≤ m ∧ m ≤ 10 ^ digits := by
  have hlow := le_roundHalfEven_lastPlace (by norm_num : 1 < 10) hq hdigits
  have hhigh := @roundHalfEven_lastPlace_le 10 digits (by norm_num) q
  have hpos : (0 : ℤ) < ((10 : ℕ) : ℤ) ^ (digits - 1) := pow_pos (by norm_num) _
  simp only [Nat.cast_ofNat] at hlow hhigh hpos
  obtain ⟨m, hm⟩ := Int.eq_ofNat_of_zero_le (hpos.le.trans hlow)
  rw [hm] at hlow hhigh
  exact ⟨m, hm, by exact_mod_cast hlow, by exact_mod_cast hhigh⟩

theorem scientific_bounds :
    10 ^ (digits - 1) ≤ (scientific digits q).1 ∧ (scientific digits q).1 < 10 ^ digits := by
  obtain ⟨m, hm, hlow, hhigh⟩ := exists_digits hdigits hq
  rw [scientific, hm, Int.toNat_natCast]
  by_cases hfull : m = 10 ^ digits
  · rw [if_pos hfull]
    exact ⟨le_rfl, Nat.pow_lt_pow_right (by norm_num) (by omega)⟩
  · rw [if_neg hfull]
    exact ⟨hlow, lt_of_le_of_ne hhigh hfull⟩

theorem scientific_value :
    roundDigits 10 digits q =
      (scientific digits q).1 * 10 ^ ((scientific digits q).2 + 1 - digits) := by
  obtain ⟨m, hm, -, -⟩ := exists_digits hdigits hq
  rw [roundDigits, roundAt, Nat.cast_ofNat, hm, scientific, hm, Int.toNat_natCast]
  by_cases hfull : m = 10 ^ digits
  · -- one digit more, which is a zero
    have hten : (10 : ℚ) ≠ 0 := by norm_num
    have hcast : ((m : ℤ) : ℚ) = 10 ^ (digits - 1) * 10 := by
      rw [hfull, ← pow_succ, Nat.sub_add_cancel hdigits]
      push_cast
      rfl
    have hplace : Int.log 10 q + 1 + 1 - (digits : ℤ) = lastPlace 10 digits q + 1 := by
      rw [lastPlace]
      ring
    rw [if_pos hfull, hcast, hplace, zpow_add_one₀ hten]
    push_cast
    ring
  · rw [if_neg hfull]
    rfl

theorem length_scientific : (decimal (scientific digits q).1).length = digits := by
  obtain ⟨hlow, hhigh⟩ := scientific_bounds hdigits hq
  have hle := (length_decimal_le hdigits).mpr hhigh
  have hpos := List.length_pos_iff.mpr (decimal_ne_nil (scientific digits q).1)
  by_contra hne
  have hfew : (decimal (scientific digits q).1).length ≤ digits - 1 := by omega
  have hlt := (length_decimal_le (by omega)).mp hfew
  omega

end Format

theorem digitsValue_exponentDigits (x : ℤ) : digitsValue (exponentDigits x) = x.natAbs := by
  rw [exponentDigits]
  split
  · rw [← List.singleton_append, digitsValue_append, digitsValue_decimal]
    show 0 * _ + _ = _
    rw [Nat.zero_mul, Nat.zero_add]
  · exact digitsValue_decimal _

theorem scale_exponentDigits (whole : List UInt8) (x : ℤ) :
    (Numeral.mk whole none (some (decide (x < 0), exponentDigits x))).scale = x := by
  unfold Numeral.scale
  by_cases hx : x < 0
  · rw [decide_eq_true hx]
    simp only [digitsValue_exponentDigits]
    omega
  · rw [decide_eq_false hx]
    simp only [digitsValue_exponentDigits]
    omega

/-- `%g` writes the rounded number. -/
theorem generalFormat_value {digits : ℕ} (hdigits : 0 < digits) {q : ℚ} (hq : 0 < q) :
    (generalFormat digits q).value = roundDigits 10 digits q := by
  have hlength := length_scientific hdigits hq
  have hvalue := digitsValue_decimal (scientific digits q).1
  rw [scientific_value hdigits hq, generalFormat, if_neg hq.ne']
  simp only []
  generalize (scientific digits q).2 = x
  generalize (scientific digits q).1 = m at *
  generalize decimal m = ds at *
  by_cases hfixed : -4 ≤ x ∧ x < digits
  · rw [if_pos hfixed]
    by_cases hx : 0 ≤ x
    · rw [if_pos hx, value_fractionOf, List.take_append_drop, hvalue, List.length_drop, hlength]
      have hplaces : (Numeral.mk (ds.take (x.toNat + 1)) none none).scale -
          ((digits - (x.toNat + 1) : ℕ) : ℤ) = x + 1 - digits := by
        show 0 - ((digits - (x.toNat + 1) : ℕ) : ℤ) = _
        omega
      rw [hplaces]
    · rw [if_neg hx, value_fractionOf, List.length_append, List.length_replicate, hlength,
        ← List.append_assoc, digitsValue_append, hvalue]
      have hzeros : digitsValue ([48] ++ List.replicate (-x - 1).toNat 48) = 0 :=
        digitsValue_replicate_zero ((-x - 1).toNat + 1)
      have hplaces : (Numeral.mk [48] none none).scale -
          (((-x - 1).toNat + digits : ℕ) : ℤ) = x + 1 - digits := by
        show 0 - (((-x - 1).toNat + digits : ℕ) : ℤ) = _
        omega
      rw [hzeros, Nat.zero_mul, Nat.zero_add, hplaces]
  · have hplaces : x - ((digits - 1 : ℕ) : ℤ) = x + 1 - digits := by omega
    rw [if_neg hfixed, value_fractionOf, List.take_append_drop, hvalue, List.length_drop, hlength,
      scale_exponentDigits, hplaces]

theorem isDigit_fractionOf {ds fraction : List UInt8} (h : fractionOf ds = some fraction)
    (hds : ∀ b ∈ ds, isDigit b = true) : ∀ b ∈ fraction, isDigit b = true := by
  intro b hb
  have hkept := fractionOf_getD ds
  rw [h, Option.getD_some] at hkept
  exact hds b ((List.rdropWhile_prefix _ _).subset (hkept ▸ hb))

theorem isDigit_exponentDigits (x : ℤ) : ∀ b ∈ exponentDigits x, isDigit b = true := by
  intro b hb
  rw [exponentDigits] at hb
  split at hb
  · rcases List.mem_cons.mp hb with rfl | hb
    · rfl
    · exact isDigit_of_mem_decimal hb
  · exact isDigit_of_mem_decimal hb

theorem exponentDigits_ne_nil (x : ℤ) : exponentDigits x ≠ [] := by
  rw [exponentDigits]
  split
  · exact List.cons_ne_nil _ _
  · exact decimal_ne_nil _

theorem generalFormat_wellFormed (digits : ℕ) (q : ℚ) : (generalFormat digits q).WellFormed := by
  have hzero : isDigit 48 = true := rfl
  have hsingle : ∀ b ∈ [(48 : UInt8)], isDigit b = true := by
    intro b hb
    rw [List.mem_singleton.mp hb]
    exact hzero
  rw [generalFormat]
  simp only []
  generalize (scientific digits q).2 = x
  have hds : ∀ b ∈ decimal (scientific digits q).1, isDigit b = true :=
    fun b hb => isDigit_of_mem_decimal hb
  generalize decimal (scientific digits q).1 = ds at *
  split_ifs with hq hfixed hx
  · exact ⟨hsingle, (fun _ h => nomatch h), (fun _ h => nomatch h)⟩
  · refine ⟨fun b hb => hds b (List.mem_of_mem_take hb), fun fraction h => ?_,
      fun _ h => nomatch h⟩
    exact isDigit_fractionOf h fun b hb => hds b (List.mem_of_mem_drop hb)
  · refine ⟨hsingle, fun fraction h => isDigit_fractionOf h ?_, fun _ h => nomatch h⟩
    intro b hb
    rcases List.mem_append.mp hb with hb | hb
    · rw [List.eq_of_mem_replicate hb]
      exact hzero
    · exact hds b hb
  · refine ⟨fun b hb => hds b (List.mem_of_mem_take hb), fun fraction h => ?_, fun e he => ?_⟩
    · exact isDigit_fractionOf h fun b hb => hds b (List.mem_of_mem_drop hb)
    · cases he
      exact ⟨exponentDigits_ne_nil x, isDigit_exponentDigits x⟩

theorem generalFormat_whole_ne_nil (digits : ℕ) (q : ℚ) : (generalFormat digits q).whole ≠ [] := by
  have hds := decimal_ne_nil (scientific digits q).1
  rw [generalFormat]
  simp only []
  generalize decimal (scientific digits q).1 = ds at *
  generalize (scientific digits q).2 = x
  split_ifs with hq hfixed hx
  · exact List.cons_ne_nil _ _
  · intro h
    exact (List.take_eq_nil_iff.mp h).elim (Nat.succ_ne_zero _) hds
  · exact List.cons_ne_nil _ _
  · intro h
    exact (List.take_eq_nil_iff.mp h).elim Nat.one_ne_zero hds

/-- Without a point and an exponent there are no more than `digits` digits. -/
theorem generalFormat_isInteger {digits : ℕ} {q : ℚ} (h : (generalFormat digits q).IsInteger) :
    digitsValue (generalFormat digits q).whole < 10 ^ digits := by
  have hzero : digitsValue [48] < 10 ^ digits := Nat.pow_pos (by norm_num)
  have hds : ∀ b ∈ decimal (scientific digits q).1, isDigit b = true :=
    fun b hb => isDigit_of_mem_decimal hb
  rw [generalFormat] at h ⊢
  simp only [] at h ⊢
  generalize decimal (scientific digits q).1 = ds at *
  generalize (scientific digits q).2 = x at *
  split_ifs at h ⊢ with hq hfixed hx
  · exact hzero
  · have hlt := digitsValue_lt fun b hb => hds b (List.mem_of_mem_take (i := x.toNat + 1) hb)
    refine hlt.trans_le (Nat.pow_le_pow_right (by norm_num) ?_)
    rw [List.length_take]
    omega
  · exact hzero
  · cases h.2

end Base
end Rocprofsys
