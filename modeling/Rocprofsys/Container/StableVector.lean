import Rocprofsys.Base.Chunks

namespace Rocprofsys
namespace Container

open Base

/-! ## aligned_static_vector -/

/-- The elements up to `m_size`; the slots behind hold `Tp{}`. -/
structure Chunk (α : Type) (capacity : Nat) where
  data : List α
  fits : data.length ≤ capacity

inductive ContainerError where
  | outOfRange (what : String)
  deriving DecidableEq, Repr

namespace Chunk

variable {α : Type} {capacity : Nat}

def empty : Chunk α capacity := ⟨[], Nat.zero_le capacity⟩

def size (c : Chunk α capacity) : Nat := c.data.length

theorem length_append_le {data : List α} (h : data.length < capacity) (a : α) :
    (data ++ [a]).length ≤ capacity := by
  rw [List.length_append, List.length_singleton]
  exact h

theorem length_set_le {data : List α} (h : data.length ≤ capacity) (i : Nat) (a : α) :
    (data.set i a).length ≤ capacity := by
  rwa [List.length_set]

def emplaceBack (c : Chunk α capacity) (a : α) : Except ContainerError (Chunk α capacity) :=
  if h : c.data.length < capacity then .ok ⟨c.data ++ [a], length_append_le h a⟩
  else .error (.outOfRange
    ("aligned_static_vector::emplace_back - reached capacity " ++ toString capacity))

/-- `operator[]`, unchecked within the array. -/
def get [Inhabited α] (c : Chunk α capacity) (i : Nat) : Option α :=
  if i < capacity then some (c.data.getD i default) else none

def set (c : Chunk α capacity) (i : Nat) (a : α) : Chunk α capacity :=
  ⟨c.data.set i a, length_set_le c.fits i a⟩

theorem emplaceBack_of_lt {c : Chunk α capacity} (h : c.data.length < capacity) (a : α) :
    c.emplaceBack a = .ok ⟨c.data ++ [a], length_append_le h a⟩ := dif_pos h

end Chunk

/-! ## stable_vector -/

structure StableVector (α : Type) (chunkSize : Nat) where
  chunks : List (Chunk α chunkSize)

namespace StableVector

variable {α : Type} {chunkSize : Nat}

def empty : StableVector α chunkSize := ⟨[]⟩

/-- From the number of chunks and the fill of the last. -/
def size (v : StableVector α chunkSize) : Nat :=
  match v.chunks.getLast? with
  | none => 0
  | some back => (v.chunks.length - 1) * chunkSize + back.size

def capacity (v : StableVector α chunkSize) : Nat := v.chunks.length * chunkSize

def addChunk (v : StableVector α chunkSize) : StableVector α chunkSize :=
  ⟨v.chunks ++ [Chunk.empty]⟩

/-- The chunks in front of the last and the last, after a new one is added where there is
none or it is full. -/
def lastChunk (v : StableVector α chunkSize) : List (Chunk α chunkSize) × Chunk α chunkSize :=
  match v.chunks.getLast? with
  | none => ([], Chunk.empty)
  | some back =>
    if back.size = chunkSize then (v.chunks, Chunk.empty) else (v.chunks.dropLast, back)

def emplaceBack (v : StableVector α chunkSize) (a : α) :
    Except ContainerError (StableVector α chunkSize) :=
  (v.lastChunk.2.emplaceBack a).map fun back => ⟨v.lastChunk.1 ++ [back]⟩

def pushBack (v : StableVector α chunkSize) (a : α) :
    Except ContainerError (StableVector α chunkSize) :=
  (v.lastChunk.2.emplaceBack a).map fun back => ⟨v.lastChunk.1 ++ [back]⟩

/-- `for(i = missing; i > 0; i -= ChunkSizeV) add_chunk()`. -/
def addChunks [NeZero chunkSize] (v : StableVector α chunkSize) (missing : Nat) :
    StableVector α chunkSize :=
  if _ : missing = 0 then v else v.addChunk.addChunks (missing - chunkSize)
termination_by missing
decreasing_by exact Nat.sub_lt (Nat.pos_of_ne_zero ‹_›) (NeZero.pos chunkSize)

/-- The difference of two `size_t` as a `ptrdiff_t`. -/
def missing (v : StableVector α chunkSize) (newCapacity : UInt64) : Int :=
  ((newCapacity.toNat : Int) - v.capacity).bmod 18446744073709551616

def reserve [NeZero chunkSize] (v : StableVector α chunkSize) (newCapacity : UInt64) :
    StableVector α chunkSize :=
  v.addChunks (v.missing newCapacity).toNat

/-- `while(_v.size() < _n) _v.emplace_back(args...)`, at most `fuel` times. -/
def fill (a : α) (n : Nat) : Nat → StableVector α chunkSize →
    Except ContainerError (StableVector α chunkSize)
  | 0, v => .ok v
  | fuel + 1, v =>
    if v.size < n then (v.emplaceBack a).bind fun v => fill a n fuel v else .ok v

def resize [NeZero chunkSize] (v : StableVector α chunkSize) (n : UInt64) (a : α) :
    Except ContainerError (StableVector α chunkSize) :=
  fill a n.toNat n.toNat (if v.capacity < n.toNat then v.reserve n else v)

/-- `operator[]`; `none` is an access outside of the chunks. -/
def get [Inhabited α] (v : StableVector α chunkSize) (i : Nat) : Option α :=
  v.chunks[i / chunkSize]?.bind fun c => c.get (i % chunkSize)

def outOfRange (v : StableVector α chunkSize) (i : Nat) : ContainerError :=
  .outOfRange ("stable_vector::at(" ++ toString i ++ "). size is " ++ toString v.size)

/-- `v.at(i) = a`. -/
def assign (v : StableVector α chunkSize) (i : Nat) (a : α) :
    Except ContainerError (StableVector α chunkSize) :=
  if v.size ≤ i then .error (v.outOfRange i)
  else .ok ⟨v.chunks.modify (i / chunkSize) fun c => c.set (i % chunkSize) a⟩

end StableVector

/-! ## Runs -/

inductive Operation (α : Type) where
  | emplaceBack (a : α)
  | pushBack (a : α)
  | reserve (n : UInt64)
  | resize (n : UInt64) (a : α)
  | assign (i : Nat) (a : α)

namespace StableVector

variable {α : Type} {chunkSize : Nat} [NeZero chunkSize]

def apply (v : StableVector α chunkSize) :
    Operation α → Except ContainerError (StableVector α chunkSize)
  | .emplaceBack a => v.emplaceBack a
  | .pushBack a => v.pushBack a
  | .reserve n => .ok (v.reserve n)
  | .resize n a => v.resize n a
  | .assign i a => v.assign i a

/-- An exception leaves the vector as it is. -/
def step (v : StableVector α chunkSize) (op : Operation α) : StableVector α chunkSize :=
  match v.apply op with
  | .ok v => v
  | .error _ => v

def run (v : StableVector α chunkSize) (ops : List (Operation α)) : StableVector α chunkSize :=
  ops.foldl step v

/-- A reservation that adds no chunk, or one to a vector whose size is its capacity. -/
def Reserves (v : StableVector α chunkSize) (n : UInt64) : Prop :=
  v.missing n ≤ 0 ∨ (v.size = v.capacity ∧ v.missing n ≤ chunkSize)

def Allows (v : StableVector α chunkSize) : Operation α → Prop
  | .reserve n => v.Reserves n
  | .resize n _ => v.capacity < n.toNat → v.Reserves n
  | _ => True

/-- Every step is allowed in the state it is taken from. -/
def AllowsAll (v : StableVector α chunkSize) : List (Operation α) → Prop
  | [] => True
  | op :: ops => v.Allows op ∧ (v.step op).AllowsAll ops

end StableVector

/-! ## The plain list -/

/-- `resize` leaves the old elements and fills the new ones. -/
def applyList {α : Type} (l : List α) : Operation α → List α
  | .emplaceBack a => l ++ [a]
  | .pushBack a => l ++ [a]
  | .reserve _ => l
  | .resize n a => l ++ List.replicate (n.toNat - l.length) a
  | .assign i a => l.set i a

def runList {α : Type} (l : List α) (ops : List (Operation α)) : List α := ops.foldl applyList l

end Container
end Rocprofsys
