import Rocprofsys.Base.Reader

namespace Rocprofsys
namespace TraceCache

open Base

/-- One past the largest `size_t`. -/
def sizeLimit : Nat := 2 ^ 64

/-- `size_t` subtraction. -/
def sizeSub (a b : Nat) : Nat := (a + (sizeLimit - b % sizeLimit)) % sizeLimit

theorem sizeSub_of_le {a b : Nat} (hb : b ≤ a) (ha : a < sizeLimit) : sizeSub a b = a - b := by
  unfold sizeSub
  rw [Nat.mod_eq_of_lt (by omega : b < sizeLimit),
    show a + (sizeLimit - b) = a - b + sizeLimit from by omega, Nat.add_mod_right,
    Nat.mod_eq_of_lt (by omega)]

def mByte : Nat := 1024 * 1024
def bufferSize : Nat := 100 * mByte
def flushThreshold : Nat := 80 * mByte

/-- `sizeof(TypeIdentifierEnum)`. -/
def typeSize : Nat := 4

/-- The bytes in front of every record: its type and its `size_t` length. -/
def headerSize : Nat := typeSize + 8

abbrev Bytes := List UInt8

/-- A `double`, kept as its bit pattern. -/
structure Double where
  bits : UInt64
  deriving DecidableEq, Repr

/-! ## Field types

`store_value` and `parse_value` copy an arithmetic value as its own bytes and a
string or vector as a `size_t` length followed by the elements. -/

/-- An arithmetic type and its object representation. -/
class Scalar (α : Type) where
  width : Nat
  toNat : α → Nat
  ofNat : Nat → α
  toNat_lt (x : α) : toNat x < 256 ^ width
  ofNat_toNat (x : α) : ofNat (toNat x) = x

instance : Scalar UInt8 where
  width := 1
  toNat := UInt8.toNat
  ofNat := UInt8.ofNat
  toNat_lt x := x.toNat_lt
  ofNat_toNat _ := UInt8.ofNat_toNat

instance : Scalar UInt32 where
  width := 4
  toNat := UInt32.toNat
  ofNat := UInt32.ofNat
  toNat_lt x := x.toNat_lt
  ofNat_toNat _ := UInt32.ofNat_toNat

instance : Scalar UInt64 where
  width := 8
  toNat := UInt64.toNat
  ofNat := UInt64.ofNat
  toNat_lt x := x.toNat_lt
  ofNat_toNat _ := UInt64.ofNat_toNat

instance : Scalar Int32 where
  width := 4
  toNat x := x.toUInt32.toNat
  ofNat n := Int32.ofUInt32 (UInt32.ofNat n)
  toNat_lt x := x.toUInt32.toNat_lt
  ofNat_toNat x := by rw [UInt32.ofNat_toNat]

instance : Scalar Int64 where
  width := 8
  toNat x := x.toUInt64.toNat
  ofNat n := Int64.ofUInt64 (UInt64.ofNat n)
  toNat_lt x := x.toUInt64.toNat_lt
  ofNat_toNat x := by rw [UInt64.ofNat_toNat]

instance : Scalar Double where
  width := 8
  toNat x := x.bits.toNat
  ofNat n := ⟨UInt64.ofNat n⟩
  toNat_lt x := x.bits.toNat_lt
  ofNat_toNat x := by rw [UInt64.ofNat_toNat]

/-- A type that `store_value` and `parse_value` accept.  `Bounded` is the range
in which a `size_t` can count the elements, and `Granted` says that `parse_value`
gets the memory it asks for. -/
class Supported (α : Type) where
  field : Field
  getSize : α → Nat
  storeValue : α → Bytes
  parseValue : Reader α
  Bounded : α → Prop
  Granted : Nat → α → Prop
  getSize_eq {x : α} (h : Bounded x) : getSize x = (storeValue x).length % sizeLimit
  parse_store {x : α} (h : Bounded x) {limit : Nat} (hlimit : Granted limit x) (rest : Bytes) :
    parseValue.run limit (storeValue x ++ rest) = .ok (x, rest)
  follows : parseValue.Follows [field]

export Supported (storeValue parseValue)

instance scalarSupported {α : Type} [Scalar α] : Supported α where
  field := .fixed (Scalar.width α)
  getSize _ := Scalar.width α % sizeLimit
  storeValue x := leBytes (Scalar.width α) (Scalar.toNat x)
  parseValue := Scalar.ofNat <$> Reader.word (Scalar.width α)
  Bounded _ := True
  Granted _ _ := True
  getSize_eq _ := by rw [length_leBytes]
  parse_store {x} _ _ _ rest := by
    rw [Reader.run_map, Reader.run_word_append (Scalar.toNat_lt x)]
    simp only [Except.map, Scalar.ofNat_toNat]
  follows := (Reader.follows_word _).map _

/-- `get_size` of a string view or a byte vector: the elements and their length. -/
def containerSize (value : Bytes) : Nat := (value.length + 8) % sizeLimit

/-- `store_value` of a string view or a byte vector.  The length written is
recovered from `get_size` by subtraction in `size_t`. -/
def storeContainer (value : Bytes) : Bytes :=
  let dataSize := sizeSub (containerSize value) 8
  leBytes 8 dataSize ++ value.take dataSize

theorem storeContainer_eq {value : Bytes} (h : value.length < sizeLimit) :
    storeContainer value = leBytes 8 value.length ++ value := by
  have hsize : sizeSub (containerSize value) 8 = value.length := by
    simp only [sizeSub, containerSize, sizeLimit] at h ⊢
    omega
  simp only [storeContainer, hsize, List.take_length]

/-- `std::string_view` -/
instance stringSupported : Supported Bytes where
  field := .counted 8
  getSize := containerSize
  storeValue := storeContainer
  parseValue := Reader.counted 8
  Bounded value := value.length < sizeLimit
  Granted _ _ := True
  getSize_eq h := by
    rw [storeContainer_eq h, List.length_append, length_leBytes, containerSize, Nat.add_comm]
  parse_store h _ _ rest := by
    rw [storeContainer_eq h, List.append_assoc]
    exact Reader.run_counted_append h _ rest
  follows := Reader.follows_counted 8

/-- `std::vector<uint8_t>`, which reserves memory when it is parsed. -/
structure ByteVector where
  elements : Bytes
  deriving DecidableEq, Repr

instance vectorSupported : Supported ByteVector where
  field := .collected 8
  getSize value := containerSize value.elements
  storeValue value := storeContainer value.elements
  parseValue := ByteVector.mk <$> Reader.collected 8
  Bounded value := value.elements.length < sizeLimit
  Granted limit value := value.elements.length ≤ limit
  getSize_eq h := by
    rw [storeContainer_eq h, List.length_append, length_leBytes, containerSize, Nat.add_comm]
  parse_store h _ hlimit rest := by
    rw [storeContainer_eq h, List.append_assoc, Reader.run_map,
      Reader.run_collected_append h hlimit rest]
    rfl
  follows := (Reader.follows_collected 8).map _

/- One step of a `parse_value` list.  These are stated for the bind as a whole: a
step through the match behind it would have the kernel evaluate the reader on
symbolic input. -/
theorem run_parse_scalar {α β : Type} [Scalar α] (x : α) (f : α → Reader β) (limit : Nat)
    (rest : Bytes) :
    (parseValue >>= f).run limit (storeValue x ++ rest) = (f x).run limit rest :=
  Reader.run_bind_ok (Supported.parse_store trivial trivial rest) f

theorem run_parse_string {β : Type} {value : Bytes} (h : value.length < sizeLimit)
    (f : Bytes → Reader β) (limit : Nat) (rest : Bytes) :
    (parseValue >>= f).run limit (storeValue value ++ rest) = (f value).run limit rest :=
  Reader.run_bind_ok (Supported.parse_store h trivial rest) f

theorem run_parse_vector {β : Type} {value : ByteVector} {limit : Nat}
    (h : value.elements.length < sizeLimit) (hlimit : value.elements.length ≤ limit)
    (f : ByteVector → Reader β) (rest : Bytes) :
    (parseValue >>= f).run limit (storeValue value ++ rest) = (f value).run limit rest :=
  Reader.run_bind_ok (Supported.parse_store h hlimit rest) f

theorem getSize_scalar {α : Type} [Scalar α] (x : α) :
    Supported.getSize x = (storeValue x).length % sizeLimit :=
  Supported.getSize_eq trivial

theorem getSize_string {value : Bytes} (h : value.length < sizeLimit) :
    Supported.getSize value = (storeValue value).length % sizeLimit :=
  Supported.getSize_eq h

theorem getSize_vector {value : ByteVector} (h : value.elements.length < sizeLimit) :
    Supported.getSize value = (storeValue value).length % sizeLimit :=
  Supported.getSize_eq h

/-! ## The variadic forms -/

/-- The variadic `store_value`: the values one behind the other. -/
def storeValues (pieces : List Bytes) : Bytes := pieces.flatten

@[simp] theorem storeValues_nil : storeValues [] = [] := rfl

/- Proved by rewriting, because a definitional step would have the kernel compare
`size_t` arithmetic inside the pieces. -/
@[simp] theorem storeValues_cons (piece : Bytes) (pieces : List Bytes) :
    storeValues (piece :: pieces) = piece ++ storeValues pieces := by
  rw [storeValues, List.flatten_cons, storeValues]

/-- The variadic `get_size`: the sum of the sizes in `size_t`. -/
def getSizes : List Nat → Nat
  | [] => 0
  | n :: ns => (n + getSizes ns) % sizeLimit

/-- Sizes that count their pieces in `size_t` add up to a size that counts the
whole in `size_t`. -/
theorem getSizes_eq_length {sizes : List Nat} {pieces : List Bytes}
    (h : List.Forall₂ (fun n bs => n = bs.length % sizeLimit) sizes pieces) :
    getSizes sizes = (storeValues pieces).length % sizeLimit := by
  induction h with
  | nil => rfl
  | cons hn _ ih =>
    rw [getSizes, ih, hn, storeValues_cons, List.length_append, ← Nat.add_mod]

end TraceCache
end Rocprofsys
