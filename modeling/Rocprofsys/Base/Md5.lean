import Rocprofsys.Base.Absorption
import Rocprofsys.Base.LittleEndian

namespace Rocprofsys
namespace Base
namespace Md5

/-! ## The MD5 message digest -/

structure Words where
  a : UInt32
  b : UInt32
  c : UInt32
  d : UInt32
  deriving DecidableEq, Repr

def initial : Words := ⟨0x67452301, 0xefcdab89, 0x98badcfe, 0x10325476⟩

/-- Of step `i`, the integer part of `2 ^ 32` times the sine of `i + 1` without its sign. -/
def table : List UInt32 := [
    0xd76aa478, 0xe8c7b756, 0x242070db, 0xc1bdceee, 0xf57c0faf, 0x4787c62a, 0xa8304613, 0xfd469501,
    0x698098d8, 0x8b44f7af, 0xffff5bb1, 0x895cd7be, 0x6b901122, 0xfd987193, 0xa679438e, 0x49b40821,
    0xf61e2562, 0xc040b340, 0x265e5a51, 0xe9b6c7aa, 0xd62f105d, 0x02441453, 0xd8a1e681, 0xe7d3fbc8,
    0x21e1cde6, 0xc33707d6, 0xf4d50d87, 0x455a14ed, 0xa9e3e905, 0xfcefa3f8, 0x676f02d9, 0x8d2a4c8a,
    0xfffa3942, 0x8771f681, 0x6d9d6122, 0xfde5380c, 0xa4beea44, 0x4bdecfa9, 0xf6bb4b60, 0xbebfbc70,
    0x289b7ec6, 0xeaa127fa, 0xd4ef3085, 0x04881d05, 0xd9d4d039, 0xe6db99e5, 0x1fa27cf8, 0xc4ac5665,
    0xf4292244, 0x432aff97, 0xab9423a7, 0xfc93a039, 0x655b59c3, 0x8f0ccc92, 0xffeff47d, 0x85845dd1,
    0x6fa87e4f, 0xfe2ce6e0, 0xa3014314, 0x4e0811a1, 0xf7537e82, 0xbd3af235, 0x2ad7d2bb, 0xeb86d391]

/-- The words `b`, `c` and `d` mixed as the round of a step does. -/
def mix (i : Nat) (w : Words) : UInt32 :=
  if i < 16 then w.b &&& w.c ||| (~~~w.b) &&& w.d
  else if i < 32 then w.b &&& w.d ||| w.c &&& (~~~w.d)
  else if i < 48 then w.b ^^^ w.c ^^^ w.d
  else w.c ^^^ (w.b ||| ~~~w.d)

/-- The word of the block that a step adds. -/
def wordIndex (i : Nat) : Nat :=
  if i < 16 then i
  else if i < 32 then (5 * i + 1) % 16
  else if i < 48 then (3 * i + 5) % 16
  else 7 * i % 16

def shift (i : Nat) : UInt32 :=
  ([[7, 12, 17, 22], [5, 9, 14, 20], [4, 11, 16, 23], [6, 10, 15, 21]].getD (i / 16) []).getD
    (i % 4) 0

def rotateLeft (x n : UInt32) : UInt32 := x <<< n ||| x >>> (32 - n)

/-- One step, after which the words have moved on by one place. -/
def step (x : Nat → UInt32) (w : Words) (i : Nat) : Words where
  a := w.d
  b := w.b + rotateLeft (w.a + mix i w + x (wordIndex i) + table.getD i 0) (shift i)
  c := w.b
  d := w.c

def blockWord (block : List UInt8) (k : Nat) : UInt32 :=
  UInt32.ofNat (leNat ((block.drop (4 * k)).take 4))

def Words.add (w v : Words) : Words := ⟨w.a + v.a, w.b + v.b, w.c + v.c, w.d + v.d⟩

def compress (s : Words) (block : List UInt8) : Words :=
  s.add ((List.range 64).foldl (step (blockWord block)) s)

/-- A one bit, zeros up to a length of 56 modulo 64, and the number of bits modulo `2 ^ 64`. -/
def padding (length : Nat) : List UInt8 :=
  0x80 :: (List.replicate ((119 - length % 64) % 64) 0 ++ leBytes 8 (8 * length))

def Words.bytes (w : Words) : List UInt8 :=
  leBytes 4 w.a.toNat ++ leBytes 4 w.b.toNat ++ leBytes 4 w.c.toNat ++ leBytes 4 w.d.toNat

def digest (message : List UInt8) : List UInt8 :=
  (absorb compress 64 initial (message ++ padding message.length)).1.bytes

end Md5
end Base
end Rocprofsys
