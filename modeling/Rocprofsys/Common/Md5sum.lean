import Rocprofsys.Base.Md5

namespace Rocprofsys
namespace Common

open Base

/-! ## md5sum -/

/-- The low level logic operations. -/
inductive Logic where
  | F
  | G
  | H
  | I
  deriving DecidableEq, Repr

def Logic.eval : Logic → UInt32 → UInt32 → UInt32 → UInt32
  | F, x, y, z => x &&& y ||| (~~~x) &&& z
  | G, x, y, z => x &&& z ||| y &&& (~~~z)
  | H, x, y, z => x ^^^ y ^^^ z
  | I, x, y, z => y ^^^ (x ||| ~~~z)

/-- `rotate_left`. -/
def rotateLeft (x n : UInt32) : UInt32 := x <<< n ||| x >>> (32 - n)

/-- The variables of `transform`. -/
inductive Register where
  | a
  | b
  | c
  | d
  deriving DecidableEq, Repr

def Register.get (w : Md5.Words) : Register → UInt32
  | a => w.a
  | b => w.b
  | c => w.c
  | d => w.d

def Register.set (w : Md5.Words) (value : UInt32) : Register → Md5.Words
  | a => { w with a := value }
  | b => { w with b := value }
  | c => { w with c := value }
  | d => { w with d := value }

/-- A call as `FF(a, b, c, d, x[k], s, ac)`. -/
structure RoundCall where
  logic : Logic
  a : Register
  b : Register
  c : Register
  d : Register
  k : ℕ
  s : UInt32
  ac : UInt32
  deriving DecidableEq, Repr

def FF := RoundCall.mk .F
def GG := RoundCall.mk .G
def HH := RoundCall.mk .H
def II := RoundCall.mk .I

def RoundCall.apply (x : List UInt32) (w : Md5.Words) (call : RoundCall) : Md5.Words :=
  call.a.set w (rotateLeft (call.a.get w +
    call.logic.eval (call.b.get w) (call.c.get w) (call.d.get w) + x.getD call.k 0 + call.ac)
      call.s + call.b.get w)

/-- `decode` of a block into 32-bit words. -/
def decode : List UInt8 → List UInt32
  | b₀ :: b₁ :: b₂ :: b₃ :: rest =>
    (b₀.toUInt32 ||| b₁.toUInt32 <<< 8 ||| b₂.toUInt32 <<< 16 ||| b₃.toUInt32 <<< 24) :: decode rest
  | _ => []

/-- `encode` of 32-bit words into bytes. -/
def encode (input : List UInt32) : List UInt8 :=
  input.flatMap fun w : UInt32 => [(w &&& 0xff).toUInt8, (w >>> 8 &&& 0xff).toUInt8,
    (w >>> 16 &&& 0xff).toUInt8, (w >>> 24 &&& 0xff).toUInt8]

def S11 : UInt32 := 7
def S12 : UInt32 := 12
def S13 : UInt32 := 17
def S14 : UInt32 := 22
def S21 : UInt32 := 5
def S22 : UInt32 := 9
def S23 : UInt32 := 14
def S24 : UInt32 := 20
def S31 : UInt32 := 4
def S32 : UInt32 := 11
def S33 : UInt32 := 16
def S34 : UInt32 := 23
def S41 : UInt32 := 6
def S42 : UInt32 := 10
def S43 : UInt32 := 15
def S44 : UInt32 := 21

/-- The four rounds of `transform`. -/
def rounds : List RoundCall := [
    FF .a .b .c .d 0 S11 0xd76aa478, FF .d .a .b .c 1 S12 0xe8c7b756,
    FF .c .d .a .b 2 S13 0x242070db, FF .b .c .d .a 3 S14 0xc1bdceee,
    FF .a .b .c .d 4 S11 0xf57c0faf, FF .d .a .b .c 5 S12 0x4787c62a,
    FF .c .d .a .b 6 S13 0xa8304613, FF .b .c .d .a 7 S14 0xfd469501,
    FF .a .b .c .d 8 S11 0x698098d8, FF .d .a .b .c 9 S12 0x8b44f7af,
    FF .c .d .a .b 10 S13 0xffff5bb1, FF .b .c .d .a 11 S14 0x895cd7be,
    FF .a .b .c .d 12 S11 0x6b901122, FF .d .a .b .c 13 S12 0xfd987193,
    FF .c .d .a .b 14 S13 0xa679438e, FF .b .c .d .a 15 S14 0x49b40821,
    GG .a .b .c .d 1 S21 0xf61e2562, GG .d .a .b .c 6 S22 0xc040b340,
    GG .c .d .a .b 11 S23 0x265e5a51, GG .b .c .d .a 0 S24 0xe9b6c7aa,
    GG .a .b .c .d 5 S21 0xd62f105d, GG .d .a .b .c 10 S22 0x2441453,
    GG .c .d .a .b 15 S23 0xd8a1e681, GG .b .c .d .a 4 S24 0xe7d3fbc8,
    GG .a .b .c .d 9 S21 0x21e1cde6, GG .d .a .b .c 14 S22 0xc33707d6,
    GG .c .d .a .b 3 S23 0xf4d50d87, GG .b .c .d .a 8 S24 0x455a14ed,
    GG .a .b .c .d 13 S21 0xa9e3e905, GG .d .a .b .c 2 S22 0xfcefa3f8,
    GG .c .d .a .b 7 S23 0x676f02d9, GG .b .c .d .a 12 S24 0x8d2a4c8a,
    HH .a .b .c .d 5 S31 0xfffa3942, HH .d .a .b .c 8 S32 0x8771f681,
    HH .c .d .a .b 11 S33 0x6d9d6122, HH .b .c .d .a 14 S34 0xfde5380c,
    HH .a .b .c .d 1 S31 0xa4beea44, HH .d .a .b .c 4 S32 0x4bdecfa9,
    HH .c .d .a .b 7 S33 0xf6bb4b60, HH .b .c .d .a 10 S34 0xbebfbc70,
    HH .a .b .c .d 13 S31 0x289b7ec6, HH .d .a .b .c 0 S32 0xeaa127fa,
    HH .c .d .a .b 3 S33 0xd4ef3085, HH .b .c .d .a 6 S34 0x4881d05,
    HH .a .b .c .d 9 S31 0xd9d4d039, HH .d .a .b .c 12 S32 0xe6db99e5,
    HH .c .d .a .b 15 S33 0x1fa27cf8, HH .b .c .d .a 2 S34 0xc4ac5665,
    II .a .b .c .d 0 S41 0xf4292244, II .d .a .b .c 7 S42 0x432aff97,
    II .c .d .a .b 14 S43 0xab9423a7, II .b .c .d .a 5 S44 0xfc93a039,
    II .a .b .c .d 12 S41 0x655b59c3, II .d .a .b .c 3 S42 0x8f0ccc92,
    II .c .d .a .b 10 S43 0xffeff47d, II .b .c .d .a 1 S44 0x85845dd1,
    II .a .b .c .d 8 S41 0x6fa87e4f, II .d .a .b .c 15 S42 0xfe2ce6e0,
    II .c .d .a .b 6 S43 0xa3014314, II .b .c .d .a 13 S44 0x4e0811a1,
    II .a .b .c .d 4 S41 0xf7537e82, II .d .a .b .c 11 S42 0xbd3af235,
    II .c .d .a .b 2 S43 0x2ad7d2bb, II .b .c .d .a 9 S44 0xeb86d391]

def transform (state : Md5.Words) (block : List UInt8) : Md5.Words :=
  let w := rounds.foldl (RoundCall.apply (decode block)) state
  ⟨state.a + w.a, state.b + w.b, state.c + w.c, state.d + w.d⟩

/-- What `update` is given: bytes that a `size_type` of 32 bits can count. -/
structure Input where
  bytes : List UInt8
  short : bytes.length < 2 ^ 32

def Input.length (input : Input) : UInt32 := UInt32.ofNat input.bytes.length

structure Md5sum where
  finalized : Bool := false
  /-- The number of bits, lower word first. -/
  count : UInt32 × UInt32 := (0, 0)
  buffer : Vector UInt8 64 := Vector.replicate 64 0
  state : Md5.Words := ⟨0x67452301, 0xefcdab89, 0x98badcfe, 0x10325476⟩
  digest : List UInt8 := List.replicate 16 0

namespace Md5sum

/-- `memcpy(&buffer[index], src, n)`, or nothing where it leaves the buffer or the source. -/
def copyInto (buffer : Vector UInt8 64) (index : ℕ) (src : List UInt8) (n : ℕ) :
    Option (Vector UInt8 64) :=
  if index + n ≤ 64 ∧ n ≤ src.length then
    some (Vector.ofFn fun i =>
      if index ≤ i.1 ∧ i.1 < index + n then src.getD (i - index) 0 else buffer[i])
  else none

/-- `for(; i + blocksize <= length; i += blocksize) transform(&input[i])`, or nothing where the
block is not all in the input. -/
def transformFrom (input : Input) (i : UInt32) (state : Md5.Words) : Option (UInt32 × Md5.Words) :=
  if i + 64 ≤ input.length then
    if h : i.toNat + 64 ≤ input.bytes.length then
      transformFrom input (i + 64) (transform state ((input.bytes.drop i.toNat).take 64))
    else none
  else some (i, state)
termination_by input.bytes.length - i.toNat
decreasing_by
  have hshort := input.short
  have hnext : (64 : UInt32).toNat = 64 := rfl
  rw [UInt32.toNat_add]
  omega

/-- The two words that count the bits. -/
def countBits (count : UInt32 × UInt32) (length : UInt32) : UInt32 × UInt32 :=
  let low := count.1 + length <<< 3
  let high := if low < length <<< 3 then count.2 + 1 else count.2
  (low, high + length >>> 29)

def update (m : Md5sum) (input : Input) : Option Md5sum :=
  let length := input.length
  let index := m.count.1 / 8 % 64
  let count := countBits m.count length
  let firstpart := 64 - index
  if length ≥ firstpart then do
    let buffer ← copyInto m.buffer index.toNat input.bytes firstpart.toNat
    let (i, state) ← transformFrom input firstpart (transform m.state buffer.toList)
    let buffer ← copyInto buffer 0 (input.bytes.drop i.toNat) (length - i).toNat
    some { m with count, buffer, state }
  else do
    let buffer ← copyInto m.buffer index.toNat input.bytes length.toNat
    some { m with count, buffer }

def padding : List UInt8 := 0x80 :: List.replicate 63 0

theorem length_take_padding_lt (n : ℕ) : (padding.take n).length < 2 ^ 32 :=
  (List.length_take_le' n padding).trans_lt (by decide)

theorem length_encode (input : List UInt32) : (encode input).length = 4 * input.length := by
  induction input with
  | nil => rfl
  | cons w input ih =>
    rw [encode, List.flatMap_cons, List.length_append]
    show 4 + (encode input).length = 4 * (input.length + 1)
    rw [ih]
    omega

theorem length_encode_pair_lt (count : UInt32 × UInt32) :
    (encode [count.1, count.2]).length < 2 ^ 32 := by
  rw [length_encode]
  show 4 * 2 < 2 ^ 32
  decide

def bits (m : Md5sum) : Input := ⟨encode [m.count.1, m.count.2], length_encode_pair_lt m.count⟩

/-- The number of bytes that are missing to 56 modulo 64. -/
def padLen (index : UInt32) : UInt32 := if index < 56 then 56 - index else 120 - index

def finalize (m : Md5sum) : Option Md5sum :=
  if m.finalized then some m
  else do
    let index := m.count.1 / 8 % 64
    let padded ← m.update ⟨padding.take (padLen index).toNat, length_take_padding_lt _⟩
    let counted ← padded.update m.bits
    some { counted with
      digest := encode [counted.state.a, counted.state.b, counted.state.c, counted.state.d]
      buffer := Vector.replicate 64 0
      count := (0, 0)
      finalized := true }

end Md5sum

/-- The digest after the inputs, one after the other. -/
def md5sum (inputs : List Input) : Option (List UInt8) :=
  ((inputs.foldlM Md5sum.update {}).bind Md5sum.finalize).map Md5sum.digest

end Common
end Rocprofsys
