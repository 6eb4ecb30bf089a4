import Rocprofsys.Common.Md5sum

namespace Rocprofsys
namespace Common

open Base

variable {x : List UInt32} {w : Md5.Words} {block : List UInt8} {i : ℕ}

/-! ## Words and bytes -/

theorem toNat_toUInt32_shiftLeft (b : UInt8) (k : ℕ) (h : k ≤ 3) :
    (b.toUInt32 <<< UInt32.ofNat (k * 8)).toNat = b.toNat <<< (k * 8) := by
  have hb := b.toNat_lt
  have hshift : (UInt32.ofNat (k * 8)).toNat % 32 = k * 8 := by
    rw [UInt32.toNat_ofNat']
    omega
  have hpow : 2 ^ (k * 8) ≤ 2 ^ 24 := Nat.pow_le_pow_right (by decide) (by omega)
  have hle : b.toNat * 2 ^ (k * 8) ≤ 255 * 2 ^ 24 := Nat.mul_le_mul (by omega) hpow
  rw [UInt32.toNat_shiftLeft, hshift, UInt8.toNat_toUInt32, Nat.shiftLeft_eq, Nat.mod_eq_of_lt]
  omega

/-- Four bytes shifted into their places. -/
theorem decode_word (b₀ b₁ b₂ b₃ : UInt8) :
    b₀.toUInt32 ||| b₁.toUInt32 <<< 8 ||| b₂.toUInt32 <<< 16 ||| b₃.toUInt32 <<< 24 =
      UInt32.ofNat (leNat [b₀, b₁, b₂, b₃]) := by
  have h₀ := b₀.toNat_lt
  have h₁ := b₁.toNat_lt
  have h₂ := b₂.toNat_lt
  have h₃ := b₃.toNat_lt
  have hvalue : leNat [b₀, b₁, b₂, b₃] =
      b₀.toNat + 256 * (b₁.toNat + 256 * (b₂.toNat + 256 * b₃.toNat)) := by
    simp only [leNat, Nat.mul_zero, Nat.add_zero]
  have hfirst : (b₁.toUInt32 <<< 8).toNat = b₁.toNat <<< (1 * 8) :=
    toNat_toUInt32_shiftLeft b₁ 1 (by decide)
  have hsecond : (b₂.toUInt32 <<< 16).toNat = b₂.toNat <<< (2 * 8) :=
    toNat_toUInt32_shiftLeft b₂ 2 (by decide)
  have hthird : (b₃.toUInt32 <<< 24).toNat = b₃.toNat <<< (3 * 8) :=
    toNat_toUInt32_shiftLeft b₃ 3 (by decide)
  apply UInt32.toNat_inj.mp
  rw [UInt32.toNat_or, UInt32.toNat_or, UInt32.toNat_or, hfirst, hsecond, hthird,
    UInt8.toNat_toUInt32, or_shiftLeft (show b₀.toNat < 256 ^ 1 by omega),
    or_shiftLeft (show b₀.toNat + 256 ^ 1 * b₁.toNat < 256 ^ 2 by omega),
    or_shiftLeft
      (show b₀.toNat + 256 ^ 1 * b₁.toNat + 256 ^ 2 * b₂.toNat < 256 ^ 3 by omega),
    UInt32.toNat_ofNat', hvalue]
  omega

theorem decode_getD (block : List UInt8) (k : ℕ) (h : 4 * (k + 1) ≤ block.length) :
    (decode block).getD k 0 = Md5.blockWord block k := by
  induction k generalizing block with
  | zero =>
    match block, h with
    | b₀ :: b₁ :: b₂ :: b₃ :: rest, _ =>
      rw [decode, decode_word]
      rfl
  | succ k ih =>
    match block, h with
    | b₀ :: b₁ :: b₂ :: b₃ :: rest, h =>
      have hrest : 4 * (k + 1) ≤ rest.length := by
        simp only [List.length_cons] at h
        omega
      rw [decode, List.getD_cons_succ, ih rest hrest]
      rfl

/-- One byte of a word. -/
theorem encode_byte (w : UInt32) (k : ℕ) (h : k ≤ 3) :
    (w >>> UInt32.ofNat (k * 8) &&& 0xff).toUInt8 = UInt8.ofNat (w.toNat / 256 ^ k) := by
  have hpow : 256 ^ k = 2 ^ (k * 8) := by
    rw [Nat.mul_comm, Nat.pow_mul]
  have hshift : (UInt32.ofNat (k * 8)).toNat % 32 = k * 8 := by
    rw [UInt32.toNat_ofNat']
    omega
  have hand (n : ℕ) : n &&& 255 = n % 256 := Nat.and_two_pow_sub_one_eq_mod n 8
  apply UInt8.toNat_inj.mp
  rw [UInt32.toNat_toUInt8, UInt32.toNat_and, UInt32.toNat_shiftRight, hshift,
    Nat.shiftRight_eq_div_pow, hpow, UInt8.toNat_ofNat']
  show (_ &&& 255) % 256 = _ % 256
  rw [hand, Nat.mod_mod]

theorem encode_eq (input : List UInt32) : encode input = input.flatMap fun w => leBytes 4 w.toNat := by
  refine List.flatMap_congr fun w _ => ?_
  have hfirst : (w &&& 0xff).toUInt8 = UInt8.ofNat w.toNat := by
    have hbyte := encode_byte w 0 (by decide)
    rwa [Nat.pow_zero, Nat.div_one, Nat.zero_mul, show UInt32.ofNat 0 = 0 from rfl,
      UInt32.shiftRight_zero] at hbyte
  have hsecond : (w >>> 8 &&& 0xff).toUInt8 = UInt8.ofNat (w.toNat / 256) :=
    encode_byte w 1 (by decide)
  have hthird : (w >>> 16 &&& 0xff).toUInt8 = UInt8.ofNat (w.toNat / 256 / 256) := by
    rw [Nat.div_div_eq_div_mul]
    exact encode_byte w 2 (by decide)
  have hfourth : (w >>> 24 &&& 0xff).toUInt8 = UInt8.ofNat (w.toNat / 256 / 256 / 256) := by
    rw [Nat.div_div_eq_div_mul, Nat.div_div_eq_div_mul]
    exact encode_byte w 3 (by decide)
  rw [hfirst, hsecond, hthird, hfourth]
  rfl

/-! ## The rounds -/

/-- The variables that take the places of the words in a step. -/
def registers (i : ℕ) : Register × Register × Register × Register :=
  if i % 4 = 0 then (.a, .b, .c, .d)
  else if i % 4 = 1 then (.d, .a, .b, .c)
  else if i % 4 = 2 then (.c, .d, .a, .b)
  else (.b, .c, .d, .a)

def logic (i : ℕ) : Logic :=
  if i < 16 then .F else if i < 32 then .G else if i < 48 then .H else .I

/-- The call that does a step. -/
def stepCall (i : ℕ) : RoundCall :=
  ⟨logic i, (registers i).1, (registers i).2.1, (registers i).2.2.1, (registers i).2.2.2,
    Md5.wordIndex i, Md5.shift i, Md5.table.getD i 0⟩

theorem rounds_eq : rounds = (List.range 64).map stepCall := by decide

/-- The variables in the order of the words in front of a step. -/
def view (i : ℕ) (w : Md5.Words) : Md5.Words :=
  ⟨(registers i).1.get w, (registers i).2.1.get w, (registers i).2.2.1.get w,
    (registers i).2.2.2.get w⟩

theorem eval_logic (i : ℕ) (w : Md5.Words) : (logic i).eval w.b w.c w.d = Md5.mix i w := by
  rw [logic, Md5.mix]
  split_ifs <;> rfl

/-- What is assigned to the first variable is the second word of the next step. -/
theorem view_set (i : ℕ) (w : Md5.Words) (value : UInt32) :
    view (i + 1) ((registers i).1.set w value) =
      ⟨(view i w).d, value, (view i w).b, (view i w).c⟩ := by
  have hlt : i % 4 < 4 := Nat.mod_lt i (by decide)
  have hnext : (i + 1) % 4 = (i % 4 + 1) % 4 := by omega
  unfold view registers
  rw [hnext]
  generalize i % 4 = r at hlt
  match r, hlt with
  | 0, _ => rfl
  | 1, _ => rfl
  | 2, _ => rfl
  | 3, _ => rfl

/-- A call in place is a step that moves the words on. -/
theorem view_apply (hx : x.getD (Md5.wordIndex i) 0 = Md5.blockWord block (Md5.wordIndex i)) :
    view (i + 1) ((stepCall i).apply x w) = Md5.step (Md5.blockWord block) (view i w) i := by
  have hvalue : (stepCall i).apply x w = (registers i).1.set w
      (rotateLeft ((view i w).a + (logic i).eval (view i w).b (view i w).c (view i w).d +
        x.getD (Md5.wordIndex i) 0 + Md5.table.getD i 0) (Md5.shift i) + (view i w).b) := rfl
  rw [hvalue, view_set, eval_logic, hx, UInt32.add_comm]
  rfl

theorem wordIndex_lt (i : ℕ) : Md5.wordIndex i < 16 := by
  rw [Md5.wordIndex]
  split_ifs <;> omega

theorem view_foldl (hblock : block.length = 64) {n : ℕ} (hn : n ≤ 64) :
    view n (((List.range n).map stepCall).foldl (RoundCall.apply (decode block)) w) =
      (List.range n).foldl (Md5.step (Md5.blockWord block)) w := by
  induction n with
  | zero => rfl
  | succ n ih =>
    have hindex := wordIndex_lt n
    have hx := decode_getD block (Md5.wordIndex n) (by omega)
    rw [List.range_succ, List.map_append, List.foldl_append, List.foldl_append, ← ih (by omega)]
    exact view_apply hx

/-- `transform` of a block is the compression of the message digest. -/
theorem transform_eq (state : Md5.Words) (hblock : block.length = 64) :
    transform state block = Md5.compress state block := by
  have hrounds := @view_foldl state block hblock 64 le_rfl
  have hview (w : Md5.Words) : view 64 w = w := rfl
  rw [← rounds_eq, hview] at hrounds
  rw [transform, hrounds]
  rfl

end Common
end Rocprofsys
