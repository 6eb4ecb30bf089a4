import Rocprofsys.Base.Run
import Rocprofsys.TraceCache.BufferStorage

namespace Rocprofsys
namespace TraceCache

open Base

/-! ## Where the reservations lie

The lock makes a run a sequence of critical sections.  Writers fill what they
reserved outside the lock, so any bytes may land anywhere between two of them. -/

namespace BufferStorage

/-- A storage before its worker starts.  Nothing sets `origin_pid` yet. -/
def constructed (originPid : Int) : BufferStorage :=
  { started originPid with isRunning := false }

inductive Access where
  | start (currentPid : Int)
  | stop
  | reserve (numberOfBytes : UInt64)
  | fill (address : Nat) (bytes : Bytes)
  | snapshot (force : Bool)

def access (s : BufferStorage) : Access → BufferStorage
  | .start currentPid =>
    if s.isRunning then s else { s with isRunning := true, originPid := currentPid }
  | .stop => { s with isRunning := false }
  | .reserve numberOfBytes => (s.reserveMemorySpace numberOfBytes.toNat).2
  | .fill address bytes => { s with buffer := s.buffer.write address bytes }
  | .snapshot force => (s.snapshot force).2

/-- The reservation and the header behind it have room in an empty buffer. -/
def Reservable (numberOfBytes : Nat) : Prop := numberOfBytes + headerSize ≤ bufferSize

/-- A reservation of this size stays inside the buffer, and so does the header
of the fragment record it writes. -/
structure ReservesInside (s : BufferStorage) (numberOfBytes : Nat) : Prop where
  head_le : (s.reserveMemorySpace numberOfBytes).2.head ≤ bufferSize
  span : (s.reserveMemorySpace numberOfBytes).1 + numberOfBytes ≤ bufferSize
  header : s.wraps numberOfBytes → s.head + headerSize ≤ bufferSize
  fragmented : s.wraps numberOfBytes →
    leNat ((s.reserveMemorySpace numberOfBytes).2.buffer.read s.head typeSize) =
      TypeIdentifier.fragmentedSpace.value
  remaining : s.wraps numberOfBytes →
    s.head + headerSize
      + leNat ((s.reserveMemorySpace numberOfBytes).2.buffer.read (s.head + typeSize) 8) =
        bufferSize

/-- What is to hold of every access.  A size that has no room changes nothing. -/
def KeepsInside (s : BufferStorage) : Access → Prop
  | .reserve numberOfBytes =>
    (Reservable numberOfBytes.toNat → s.ReservesInside numberOfBytes.toNat) ∧
      (¬ Reservable numberOfBytes.toNat → (s.reserveMemorySpace numberOfBytes.toNat).2 = s)
  | _ => True

/-- The access asks for no more than an empty buffer has room for. -/
def Access.Reserves : Access → Prop
  | .reserve numberOfBytes => Reservable numberOfBytes.toNat
  | _ => True

/-- The head leaves room for the header of a fragment record. -/
def HasRoom (s : BufferStorage) : Prop := s.head + headerSize ≤ bufferSize

variable {s : BufferStorage} {n : Nat}

/-- Without overflow the wrap test compares what it says. -/
theorem wraps_eq_of_hasRoom (hroom : s.HasRoom) (hn : Reservable n) :
    s.wraps n = true ↔ bufferSize < s.head + n + headerSize := by
  have hlt : 3 * bufferSize < sizeLimit := by decide
  unfold HasRoom at hroom
  unfold Reservable at hn
  rw [wraps, decide_eq_true_iff, Nat.mod_eq_of_lt (by omega)]

/-- The head after `fragment_memory` or without it. -/
theorem prepared_head_le (hroom : s.HasRoom) (hn : Reservable n) :
    (s.prepared n).head + n + headerSize ≤ bufferSize := by
  have hwraps := wraps_eq_of_hasRoom hroom hn
  unfold HasRoom at hroom
  unfold Reservable at hn
  unfold prepared
  split
  · show 0 + n + headerSize ≤ bufferSize
    omega
  · rename_i hw
    have hfits := mt hwraps.mpr hw
    omega

theorem reserveMemorySpace_head (hroom : s.HasRoom) (hn : Reservable n) :
    (s.reserveMemorySpace n).2.head = (s.prepared n).head + n := by
  have hle := prepared_head_le hroom hn
  have hlt := bufferSize_lt
  exact Nat.mod_eq_of_lt (by omega)

/-- A reservation that fits leaves room for the next header. -/
theorem HasRoom.reserve (hroom : s.HasRoom) (hn : Reservable n) :
    (s.reserveMemorySpace n).2.HasRoom := by
  have hle := prepared_head_le hroom hn
  rw [HasRoom, reserveMemorySpace_head hroom hn]
  exact hle

/-- `fragment_memory` writes its type and its length field at the head. -/
theorem read_fragmentMemory (hroom : s.HasRoom) :
    s.fragmentMemory.buffer.read s.head typeSize =
        leBytes typeSize TypeIdentifier.fragmentedSpace.value ∧
      s.fragmentMemory.buffer.read (s.head + typeSize) 8 =
        leBytes 8 (bufferSize - s.head - headerSize) := by
  have htype : (leBytes typeSize TypeIdentifier.fragmentedSpace.value).length = typeSize :=
    length_leBytes _ _
  have hlength : (leBytes 8 (bufferSize - s.head - headerSize)).length = 8 := length_leBytes _ _
  rw [fragmentMemory_eq hroom]
  simp only [Chunk.bytes, Chunk.typeIdentifier, Chunk.payload, List.length_replicate, headerBytes]
  constructor
  · have hfront := s.buffer.read_write_append s.head []
      (leBytes typeSize TypeIdentifier.fragmentedSpace.value)
      (leBytes 8 (bufferSize - s.head - headerSize)
        ++ List.replicate (bufferSize - s.head - headerSize) 0xFF)
    rwa [List.nil_append, ← List.append_assoc, htype] at hfront
  · have hbehind := s.buffer.read_write_append s.head
      (leBytes typeSize TypeIdentifier.fragmentedSpace.value)
      (leBytes 8 (bufferSize - s.head - headerSize))
      (List.replicate (bufferSize - s.head - headerSize) 0xFF)
    rwa [hlength, htype] at hbehind

theorem HasRoom.reservesInside (hroom : s.HasRoom) (hn : Reservable n) : s.ReservesInside n := by
  have hle := prepared_head_le hroom hn
  have hlt := bufferSize_lt
  have hbuffer : s.wraps n = true →
      (s.reserveMemorySpace n).2.buffer = s.fragmentMemory.buffer := by
    intro hw
    show (s.prepared n).buffer = _
    rw [prepared, if_pos hw]
  obtain ⟨htype, hlength⟩ := read_fragmentMemory hroom
  constructor
  · rw [reserveMemorySpace_head hroom hn]
    omega
  · show (s.prepared n).head + n ≤ bufferSize
    omega
  · intro _
    exact hroom
  · intro hw
    rw [hbuffer hw, htype, leNat_leBytes (by decide)]
  · intro hw
    have hfield : bufferSize - s.head - headerSize < 256 ^ 8 := by
      have hlimit : sizeLimit = 256 ^ 8 := by decide
      omega
    unfold HasRoom at hroom
    rw [hbuffer hw, hlength, leNat_leBytes hfield]
    omega

/-- A size without room is not turned away: it moves the head. -/
theorem reserveMemorySpace_ne (hroom : s.HasRoom) (hlt : n < sizeLimit) (hn : ¬ Reservable n) :
    (s.reserveMemorySpace n).2 ≠ s := by
  have hsize := bufferSize_lt
  unfold HasRoom at hroom
  unfold Reservable at hn
  intro heq
  have hhead : ((s.prepared n).head + n) % sizeLimit = s.head :=
    congrArg BufferStorage.head heq
  unfold prepared at hhead
  split at hhead
  · -- the reservation starts at zero and ends behind every head with room
    have hzero : s.fragmentMemory.head = 0 := rfl
    rw [hzero, Nat.zero_add, Nat.mod_eq_of_lt hlt] at hhead
    omega
  · rcases Nat.lt_or_ge (s.head + n) sizeLimit with hsum | hsum
    · rw [Nat.mod_eq_of_lt hsum] at hhead
      omega
    · rw [Nat.mod_eq_sub_mod hsum, Nat.mod_eq_of_lt (by omega)] at hhead
      omega

/-- Accesses that reserve what has room keep room for a header. -/
theorem HasRoom.access (hroom : s.HasRoom) {a : Access} (ha : a.Reserves) :
    (s.access a).HasRoom := by
  cases a with
  | start currentPid =>
    rw [BufferStorage.access]
    split <;> exact hroom
  | stop => exact hroom
  | reserve numberOfBytes => exact hroom.reserve ha
  | fill address bytes => exact hroom
  | snapshot force =>
    rw [BufferStorage.access, snapshot]
    split <;> exact hroom

theorem keepsInside_iff (hroom : s.HasRoom) (a : Access) : s.KeepsInside a ↔ a.Reserves := by
  cases a with
  | reserve numberOfBytes =>
    constructor
    · intro ⟨_, hrejected⟩
      by_contra hn
      exact reserveMemorySpace_ne hroom numberOfBytes.toNat_lt hn (hrejected hn)
    · intro hn
      exact ⟨hroom.reservesInside, fun hnot => absurd hn hnot⟩
  | start currentPid => exact Iff.rfl
  | stop => exact Iff.rfl
  | fill address bytes => exact Iff.rfl
  | snapshot force => exact Iff.rfl

/-- Every reservation of a run stays inside the buffer, and one without room is turned away,
exactly if the run asks for none without room. -/
theorem keepsInside_iff_reservable (originPid : Int) (accesses : List Access) :
    AtSteps access KeepsInside (constructed originPid) accesses ↔
      ∀ numberOfBytes, Access.reserve numberOfBytes ∈ accesses →
        Reservable numberOfBytes.toNat := by
  have hstart : (constructed originPid).HasRoom := by
    show 0 + headerSize ≤ bufferSize
    decide
  have hsteps : AtSteps access KeepsInside (constructed originPid) accesses ↔
      ∀ a ∈ accesses, a.Reserves :=
    atSteps_iff_forall (fun s a hroom ha => HasRoom.access hroom ha)
      (fun s a hroom => keepsInside_iff hroom a) hstart
  rw [hsteps]
  constructor
  · intro hall numberOfBytes hmem
    exact hall _ hmem
  · intro hreserve a ha
    cases a with
    | reserve numberOfBytes => exact hreserve numberOfBytes ha
    | start currentPid => trivial
    | stop => trivial
    | fill address bytes => trivial
    | snapshot force => trivial

/-- The first reservation of a storage, one byte larger than the buffer has room for. -/
theorem not_keepsInside_tooLarge :
    ¬ AtSteps access KeepsInside (constructed 1) [.reserve 104857589] := by
  intro h
  have hstep := h.steps [] (.reserve 104857589) (List.prefix_refl _)
  have hn : ¬ Reservable (104857589 : UInt64).toNat := by
    unfold Reservable
    decide
  have hhead := congrArg BufferStorage.head (hstep.2 hn)
  revert hhead
  show ¬ ((BufferStorage.prepared (constructed 1) 104857589).head + 104857589) % sizeLimit = 0
  have hw : (constructed 1).wraps 104857589 = true := by decide
  rw [prepared, if_pos hw]
  show ¬ (0 + 104857589) % sizeLimit = 0
  decide

end BufferStorage
end TraceCache
end Rocprofsys
