import Mathlib.Data.List.Induction
import Mathlib.Data.List.TakeWhile
import Mathlib.Tactic.Ring

namespace Rocprofsys
namespace Base

/-! ## Decimal digits in byte strings -/

def isDigit (b : UInt8) : Bool := decide (48 ≤ b.toNat ∧ b.toNat ≤ 57)

/-- The decimal form of a number. -/
def decimal (n : Nat) : List UInt8 := (Nat.toDigits 10 n).map fun c => UInt8.ofNat c.toNat

/-- The number that decimal digits spell. -/
def digitsValue (bs : List UInt8) : Nat := bs.foldl (fun value b => 10 * value + (b.toNat - 48)) 0

theorem toNat_ofChar {c : Char} (h : c.isDigit) : (UInt8.ofNat c.toNat).toNat = c.toNat := by
  have hle : c.toNat ≤ 57 := by
    simp only [Char.isDigit, Bool.and_eq_true, decide_eq_true_eq] at h
    exact h.2
  rw [UInt8.toNat_ofNat', Nat.mod_eq_of_lt (by omega)]

theorem isDigit_of_mem_decimal {n : Nat} {b : UInt8} (h : b ∈ decimal n) : isDigit b = true := by
  obtain ⟨c, hc, rfl⟩ := List.mem_map.mp h
  have hdigit : c.isDigit = true := Nat.isDigit_of_mem_toDigits (by decide) (by decide) hc
  rw [isDigit, toNat_ofChar hdigit, decide_eq_true_eq]
  simp only [Char.isDigit, Bool.and_eq_true, decide_eq_true_eq] at hdigit
  exact hdigit

theorem decimal_ne_nil (n : Nat) : decimal n ≠ [] := by
  intro h
  exact Nat.toDigits_ne_nil (List.map_eq_nil_iff.mp h)

theorem foldl_map_toNat {cs : List Char} (h : ∀ c ∈ cs, c.isDigit = true) (init : Nat) :
    (cs.map fun c => UInt8.ofNat c.toNat).foldl (fun value b => 10 * value + (b.toNat - 48)) init =
      Nat.ofDigitChars 10 cs init := by
  induction cs generalizing init with
  | nil => rfl
  | cons c cs ih =>
    rw [List.map_cons, List.foldl_cons, toNat_ofChar (h c List.mem_cons_self),
      ih fun c' hc' => h c' (List.mem_cons_of_mem c hc'), Nat.ofDigitChars_cons]
    rfl

theorem digitsValue_decimal (n : Nat) : digitsValue (decimal n) = n := by
  have hdigits : ∀ c ∈ Nat.toDigits 10 n, c.isDigit = true := fun c hc =>
    Nat.isDigit_of_mem_toDigits (by decide) (by decide) hc
  rw [digitsValue, decimal, foldl_map_toNat hdigits, Nat.ofDigitChars_ten_toDigits]

theorem length_decimal_le {n k : Nat} (hk : 0 < k) : (decimal n).length ≤ k ↔ n < 10 ^ k := by
  rw [decimal, List.length_map, Nat.length_toDigits_le_iff (by decide) hk]

theorem foldl_digits (bs : List UInt8) (init : Nat) :
    bs.foldl (fun value b => 10 * value + (b.toNat - 48)) init =
      init * 10 ^ bs.length + digitsValue bs := by
  induction bs generalizing init with
  | nil => simp [digitsValue]
  | cons b bs ih =>
    rw [digitsValue, List.foldl_cons, List.foldl_cons, ih, ih (10 * 0 + (b.toNat - 48)),
      List.length_cons]
    ring

theorem digitsValue_append (bs cs : List UInt8) :
    digitsValue (bs ++ cs) = digitsValue bs * 10 ^ cs.length + digitsValue cs := by
  rw [digitsValue, List.foldl_append, foldl_digits cs]
  rfl

theorem isDigit_toNat {b : UInt8} (h : isDigit b = true) : 48 ≤ b.toNat ∧ b.toNat ≤ 57 := by
  rwa [isDigit, decide_eq_true_eq] at h

theorem digitsValue_lt {bs : List UInt8} (h : ∀ b ∈ bs, isDigit b = true) :
    digitsValue bs < 10 ^ bs.length := by
  induction bs using List.reverseRecOn with
  | nil => exact Nat.one_pos
  | append_singleton bs b ih =>
    have hb := isDigit_toNat (h b (List.mem_append_right bs (List.mem_singleton_self b)))
    have hbs := ih fun b' hb' => h b' (List.mem_append_left [b] hb')
    have hlast : digitsValue [b] = b.toNat - 48 := Nat.zero_add _
    rw [digitsValue_append, hlast, List.length_append, List.length_singleton, pow_one,
      pow_succ 10 bs.length]
    omega

/-- An optional sign, and whether it is a minus. -/
def takeSign : List UInt8 → Bool × List UInt8
  | 43 :: rest => (false, rest)
  | 45 :: rest => (true, rest)
  | bs => (false, bs)

theorem takeSign_of_isDigit {b : UInt8} (h : isDigit b = true) (rest : List UInt8) :
    takeSign (b :: rest) = (false, b :: rest) := by
  have hdigit := isDigit_toNat h
  unfold takeSign
  split
  · rename_i heq
    cases heq
    exact absurd hdigit.1 (by decide)
  · rename_i heq
    cases heq
    exact absurd hdigit.1 (by decide)
  · rfl

/-- A run of digits ends in front of anything else. -/
theorem takeWhile_isDigit {bs rest : List UInt8} (hbs : ∀ b ∈ bs, isDigit b = true)
    (hrest : ∀ b ∈ rest.head?, isDigit b = false) :
    (bs ++ rest).takeWhile isDigit = bs ∧ (bs ++ rest).dropWhile isDigit = rest := by
  rw [List.takeWhile_append_of_pos hbs, List.dropWhile_append_of_pos hbs]
  cases rest with
  | nil => simp
  | cons b rest =>
    have hb : ¬isDigit b = true := by
      rw [hrest b rfl]
      decide
    rw [List.takeWhile_cons_of_neg hb, List.dropWhile_cons_of_neg hb, List.append_nil]
    exact ⟨rfl, rfl⟩

end Base
end Rocprofsys
