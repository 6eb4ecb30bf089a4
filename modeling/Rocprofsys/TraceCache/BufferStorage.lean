import Rocprofsys.Base.RingLog
import Rocprofsys.TraceCache.SampleType

namespace Rocprofsys
namespace TraceCache

open Base

/-- The output stream of the flush worker.  A failed stream ignores writes. -/
structure Ofs where
  content : Bytes
  failed : Bool

def Ofs.write (ofs : Ofs) (bs : Bytes) : Ofs :=
  if ofs.failed then ofs else { ofs with content := ofs.content ++ bs }

structure BufferStorage where
  isRunning : Bool
  originPid : Int
  head : Nat
  tail : Nat
  buffer : Memory

namespace BufferStorage

/-- A storage whose worker has been started. -/
def started (originPid : Int) : BufferStorage where
  isRunning := true
  originPid := originPid
  head := 0
  tail := 0
  buffer := fun _ => 0

def fragmentMemory (s : BufferStorage) : BufferStorage :=
  let filled := s.buffer.write s.head (List.replicate (sizeSub bufferSize s.head) 0xFF)
  let typed := filled.write s.head (leBytes typeSize TypeIdentifier.fragmentedSpace.value)
  let remainingBytes := sizeSub (sizeSub bufferSize s.head) headerSize
  { s with
    buffer := typed.write (s.head + typeSize) (leBytes 8 remainingBytes)
    head := 0 }

/-- The test by which `reserve_memory_space` decides to wrap. -/
def wraps (s : BufferStorage) (numberOfBytes : Nat) : Bool :=
  (s.head + numberOfBytes + headerSize) % sizeLimit > bufferSize

/-- The part of `reserve_memory_space` in front of the reservation. -/
def prepared (s : BufferStorage) (numberOfBytes : Nat) : BufferStorage :=
  if s.wraps numberOfBytes then s.fragmentMemory else s

/-- `reserve_memory_space`, with the address of the space it returns. -/
def reserveMemorySpace (s : BufferStorage) (numberOfBytes : Nat) : Nat × BufferStorage :=
  let s := s.prepared numberOfBytes
  (s.head, { s with head := (s.head + numberOfBytes) % sizeLimit })

/-- The part of `store` that runs outside the lock. -/
def serializeAt (s : BufferStorage) (buf typeIdentifier sampleSize : Nat) (payload : Bytes) :
    BufferStorage :=
  let typed := s.buffer.write buf (leBytes typeSize typeIdentifier)
  let sized := typed.write (buf + typeSize) (leBytes 8 sampleSize)
  { s with buffer := sized.write (buf + headerSize) payload }

/-- `store` of a value with this type identifier, `get_size` and `serialize`. -/
def store (s : BufferStorage) (typeIdentifier sampleSize : Nat) (payload : Bytes) :
    Except String BufferStorage :=
  if !s.isRunning then
    .error "Trying to use buffered storage while it is not running"
  else
    let bytesToReserve := (headerSize + sampleSize) % sizeLimit
    let (buf, s) := s.reserveMemorySpace bytesToReserve
    .ok (s.serializeAt buf typeIdentifier sampleSize payload)

/-- `store` of a sample. -/
def storeSample (s : BufferStorage) (value : Sample) : Except String BufferStorage :=
  s.store value.typeIdentifier.value value.getSize value.serialize

/-- `used_space` of `flush`. -/
def usedSpace (s : BufferStorage) : Nat :=
  if s.head > s.tail then sizeSub s.head s.tail
  else (sizeSub bufferSize s.tail + s.head) % sizeLimit

/-- Whether `flush` goes past its two early returns. -/
def flushes (s : BufferStorage) (force : Bool) : Bool :=
  s.head != s.tail && (force || s.usedSpace ≥ flushThreshold)

/-- The part of `flush` under the lock.  It returns the local `_tail` and
`_head` unless there is nothing to write. -/
def snapshot (s : BufferStorage) (force : Bool) : Option (Nat × Nat) × BufferStorage :=
  if s.flushes force then (some (s.tail, s.head), { s with tail := s.head }) else (none, s)

/-- The part of `flush` behind the lock. -/
def writeRange (s : BufferStorage) (tail head : Nat) (ofs : Ofs) : Ofs :=
  if head > tail then ofs.write (s.buffer.read tail (sizeSub head tail))
  else
    (ofs.write (s.buffer.read tail (sizeSub bufferSize tail))).write (s.buffer.read 0 head)

/-- `flush`, with its exception if it throws one. -/
def flush (s : BufferStorage) (force : Bool) (ofs : Ofs) :
    BufferStorage × Ofs × Except String Unit :=
  match s.snapshot force with
  | (none, s) => (s, ofs, .ok ())
  | (some (tail, head), s) =>
    let ofs := s.writeRange tail head ofs
    if ofs.failed then
      (s, ofs, .error ("Error flushing buffered storage to file for pid: "
        ++ toString s.originPid ++ "\n"))
    else (s, ofs, .ok ())

end BufferStorage

/-! ## What the buffer and the file hold -/

/-- A stored value as the reader of the file is to see it. -/
structure Record where
  typeIdentifier : Nat
  payload : Bytes
  typeIdentifier_lt : typeIdentifier < 256 ^ typeSize
  ne_fragmented : typeIdentifier ≠ TypeIdentifier.fragmentedSpace.value

/-- The header `store` and `fragment_memory` write. -/
def headerBytes (typeIdentifier sampleSize : Nat) : Bytes :=
  leBytes typeSize typeIdentifier ++ leBytes 8 sampleSize

@[simp] theorem length_headerBytes (typeIdentifier sampleSize : Nat) :
    (headerBytes typeIdentifier sampleSize).length = headerSize := by
  rw [headerBytes, List.length_append, length_leBytes, length_leBytes, headerSize]

/-- A piece of the file. -/
inductive Chunk where
  | record (r : Record)
  | filler (remaining : Nat)

namespace Chunk

def typeIdentifier : Chunk → Nat
  | record r => r.typeIdentifier
  | filler _ => TypeIdentifier.fragmentedSpace.value

def payload : Chunk → Bytes
  | record r => r.payload
  | filler remaining => List.replicate remaining 0xFF

/-- A chunk as it stands in the buffer. -/
def bytes (c : Chunk) : Bytes :=
  headerBytes c.typeIdentifier c.payload.length ++ c.payload

theorem length_bytes (c : Chunk) : c.bytes.length = headerSize + c.payload.length := by
  rw [bytes, List.length_append, length_headerBytes]

def record? : Chunk → Option Record
  | record r => some r
  | filler _ => none

end Chunk

/-- The bytes of a list of chunks. -/
def chunksBytes (chunks : List Chunk) : Bytes := chunks.flatMap Chunk.bytes

/-- The records among a list of chunks. -/
def chunksRecords (chunks : List Chunk) : List Record := chunks.filterMap Chunk.record?

@[simp] theorem chunksBytes_append (cs ds : List Chunk) :
    chunksBytes (cs ++ ds) = chunksBytes cs ++ chunksBytes ds := List.flatMap_append

@[simp] theorem chunksRecords_append (cs ds : List Chunk) :
    chunksRecords (cs ++ ds) = chunksRecords cs ++ chunksRecords ds := List.filterMap_append

namespace BufferStorage

/-- The storage as a ring. -/
def ring (s : BufferStorage) : RingBuffer := ⟨s.head, s.tail, s.buffer⟩

theorem bufferSize_lt : bufferSize < sizeLimit := by decide

theorem write_header (m : Memory) (buf typeIdentifier sampleSize : Nat) :
    (m.write buf (leBytes typeSize typeIdentifier)).write (buf + typeSize) (leBytes 8 sampleSize) =
      m.write buf (headerBytes typeIdentifier sampleSize) := by
  rw [headerBytes, Memory.write_append, length_leBytes]

/-- `fragment_memory` puts a filler chunk over the rest of the buffer. -/
theorem fragmentMemory_eq {s : BufferStorage} (h : s.head + headerSize ≤ bufferSize) :
    s.fragmentMemory =
      { s with
        buffer := s.buffer.write s.head (Chunk.filler (bufferSize - s.head - headerSize)).bytes
        head := 0 } := by
  have hlt := bufferSize_lt
  have hrest : sizeSub bufferSize s.head = bufferSize - s.head := sizeSub_of_le (by omega) hlt
  have hremaining : sizeSub (bufferSize - s.head) headerSize = bufferSize - s.head - headerSize :=
    sizeSub_of_le (by omega) (by omega)
  simp only [fragmentMemory, hrest, hremaining, write_header, Chunk.bytes, Chunk.typeIdentifier,
    Chunk.payload, List.length_replicate]
  rw [Memory.write_write, length_headerBytes, List.drop_replicate]

/-- The part of `store` outside the lock writes a header and the payload. -/
theorem serializeAt_eq (s : BufferStorage) (buf typeIdentifier sampleSize : Nat)
    (payload : Bytes) :
    s.serializeAt buf typeIdentifier sampleSize payload =
      { s with buffer := s.buffer.write buf (headerBytes typeIdentifier sampleSize ++ payload) } := by
  rw [Memory.write_append, length_headerBytes, ← write_header, serializeAt]

theorem serializeAt_buffer (s : BufferStorage) (buf typeIdentifier sampleSize : Nat)
    (payload : Bytes) : (s.serializeAt buf typeIdentifier sampleSize payload).buffer =
      s.buffer.write buf (headerBytes typeIdentifier sampleSize ++ payload) := by
  rw [serializeAt_eq]

/-- Below the end of the buffer `used_space` is the distance from tail to head. -/
theorem usedSpace_eq {s : BufferStorage} (hne : s.head ≠ s.tail) (hhead : s.head ≤ bufferSize)
    (htail : s.tail ≤ bufferSize) :
    s.usedSpace = cyclicDistance bufferSize s.tail s.head := by
  have hlt := bufferSize_lt
  unfold usedSpace cyclicDistance
  split
  · rw [if_pos (by omega), sizeSub_of_le (by omega) (by omega)]
  · rw [if_neg (by omega), sizeSub_of_le htail hlt, Nat.mod_eq_of_lt (by omega)]

/-- `flush` writes the range it took in one or two pieces. -/
theorem writeRange_eq {s : BufferStorage} {tail head : Nat} {ofs : Ofs} (hofs : ofs.failed = false)
    (hne : head ≠ tail) (hhead : head ≤ bufferSize) (htail : tail ≤ bufferSize) :
    s.writeRange tail head ofs =
      { ofs with content := ofs.content ++ readCyclic bufferSize s.buffer tail head } := by
  have hlt := bufferSize_lt
  unfold writeRange readCyclic
  split
  · rw [if_pos (by omega), sizeSub_of_le (by omega) (by omega), Ofs.write, hofs]
    rfl
  · rw [if_neg (by omega), sizeSub_of_le htail hlt]
    simp only [Ofs.write, hofs, Bool.false_eq_true, if_false, List.append_assoc]

end BufferStorage
end TraceCache
end Rocprofsys
