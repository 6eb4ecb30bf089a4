import Rocprofsys.TraceCache.BufferStorage

namespace Rocprofsys
namespace TraceCache

open Base

/-! ## The storage as a ring log

A buffer storage is followed by the log of everything ever reserved in it, one
chunk behind the other.  Each of its operations is a move of the log as long as
the reservations leave what is not yet in the file alone. -/

namespace BufferStorage

/-- The number of bytes `store` reserves for a record. -/
def bytesToReserve (r : Record) : Nat := (headerSize + r.payload.length) % sizeLimit

/-- The chunks in front of a record that wraps. -/
def fillers (s : BufferStorage) (r : Record) : List Chunk :=
  if s.wraps (bytesToReserve r) then [.filler (bufferSize - s.head - headerSize)] else []

/-- The bytes that a record and its padding take from the buffer. -/
def cost (s : BufferStorage) (r : Record) : Nat :=
  (if s.wraps (bytesToReserve r) then bufferSize - s.head else 0) + headerSize + r.payload.length

/-- The bytes between tail and head. -/
def unflushed (s : BufferStorage) : Nat := cyclicDistance bufferSize s.tail s.head

/-- The unflushed bytes, the padding and the record leave at least one byte
free. -/
def Fits (s : BufferStorage) (r : Record) : Prop := s.unflushed + s.cost r < bufferSize

/-- The storage follows a log and keeps room for a filler's header. -/
structure Follows (s : BufferStorage) (log : RingLog) : Prop where
  tracks : s.ring.Tracks bufferSize log
  room : s.head + headerSize ≤ bufferSize

variable {s : BufferStorage} {log : RingLog}

theorem Follows.started (originPid : Int) :
    (started originPid).Follows ⟨[], 0, 0, fun _ => none⟩ where
  tracks := .init (by decide) _
  room := by
    show 0 + headerSize ≤ bufferSize
    decide

theorem Follows.unflushed_eq (h : s.Follows log) :
    s.unflushed = log.bytes.length - log.written :=
  h.tracks.used_eq

theorem bytesToReserve_eq {r : Record} (hlen : headerSize + r.payload.length ≤ bufferSize) :
    bytesToReserve r = headerSize + r.payload.length := by
  have hlt := bufferSize_lt
  exact Nat.mod_eq_of_lt (by omega)

theorem wraps_iff {r : Record} (hroom : s.head + headerSize ≤ bufferSize)
    (hlen : headerSize + r.payload.length ≤ bufferSize) :
    s.wraps (bytesToReserve r) = true ↔
      bufferSize < s.head + (headerSize + r.payload.length) + headerSize := by
  have hlt : 3 * bufferSize < sizeLimit := by decide
  rw [wraps, decide_eq_true_iff, bytesToReserve_eq hlen, Nat.mod_eq_of_lt (by omega)]

theorem length_le_cost (s : BufferStorage) (r : Record) :
    headerSize + r.payload.length ≤ s.cost r := by
  unfold cost
  omega

theorem length_filler (hroom : s.head + headerSize ≤ bufferSize) :
    (Chunk.filler (bufferSize - s.head - headerSize)).bytes.length = bufferSize - s.head := by
  rw [Chunk.length_bytes, Chunk.payload, List.length_replicate]
  omega

theorem length_fillers (hroom : s.head + headerSize ≤ bufferSize) (r : Record) :
    (chunksBytes (s.fillers r)).length + (headerSize + r.payload.length) = s.cost r := by
  unfold fillers cost
  split
  · rw [chunksBytes, List.flatMap_singleton, length_filler hroom]
    omega
  · simp [chunksBytes]

theorem chunksRecords_fillers (s : BufferStorage) (r : Record) :
    chunksRecords (s.fillers r) = [] := by
  unfold fillers
  split <;> rfl

/-- What a store that fits puts into the buffer is smaller than the buffer. -/
theorem Fits.small {r : Record} (h : s.Fits r) :
    ∀ c ∈ s.fillers r ++ [.record r], c.payload.length < bufferSize := by
  have hheader : 0 < headerSize := by decide
  have hcost := s.length_le_cost r
  unfold Fits at h
  intro c hc
  rcases List.mem_append.mp hc with hfiller | hrecord
  · unfold fillers at hfiller
    split at hfiller
    · rw [List.mem_singleton.mp hfiller, Chunk.payload, List.length_replicate]
      omega
    · exact absurd hfiller (by simp)
  · rw [List.mem_singleton.mp hrecord, Chunk.payload]
    omega

/-- Wrapping appends the filler to the log. -/
theorem Follows.prepared (h : s.Follows log) {r : Record}
    (hroom : s.unflushed + s.cost r < bufferSize)
    (hcopy : log.bytes.length + s.cost r ≤ log.copied + bufferSize) :
    (s.prepared (bytesToReserve r)).Follows (log.append (chunksBytes (s.fillers r))) ∧
      (s.prepared (bytesToReserve r)).head + (headerSize + r.payload.length) + headerSize
        ≤ bufferSize := by
  have hcost := s.length_le_cost r
  have hwraps := wraps_iff (s := s) (r := r) h.room (by omega)
  have hused := h.unflushed_eq
  have hlog := h.tracks.written_le
  have hhead := h.room
  unfold BufferStorage.prepared fillers
  by_cases hw : s.wraps (bytesToReserve r) = true
  · simp only [cost, if_pos hw] at hroom hcopy ⊢
    have happend := h.tracks.append (Chunk.filler (bufferSize - s.head - headerSize)).bytes
      (by rw [length_filler hhead]; simp only [ring]; omega)
      (by rw [length_filler hhead]; omega) (by rw [length_filler hhead]; omega)
    rw [length_filler hhead] at happend
    simp only [ring, Nat.add_sub_cancel' (by omega : s.head ≤ bufferSize), Nat.mod_self] at happend
    rw [fragmentMemory_eq hhead]
    refine ⟨⟨?_, ?_⟩, ?_⟩
    · simpa [chunksBytes, ring] using happend
    · simp only [Nat.zero_add]
      omega
    · simp only [Nat.zero_add]
      omega
  · simp only [if_neg hw]
    have hfits := mt hwraps.mpr hw
    exact ⟨by simpa [chunksBytes, RingLog.append] using h, by omega⟩

theorem reserveMemorySpace_fst (s : BufferStorage) (n : Nat) :
    (s.reserveMemorySpace n).1 = (s.prepared n).head := rfl

theorem reserveMemorySpace_buffer (s : BufferStorage) (n : Nat) :
    (s.reserveMemorySpace n).2.buffer = (s.prepared n).buffer := rfl

theorem prepared_isRunning (s : BufferStorage) (n : Nat) :
    (s.prepared n).isRunning = s.isRunning := by
  unfold prepared
  split <;> rfl

/-- A running storage reserves and then serializes. -/
theorem store_eq {r : Record} (hrun : s.isRunning = true) :
    s.store r.typeIdentifier r.payload.length r.payload =
      .ok ((s.reserveMemorySpace (bytesToReserve r)).2.serializeAt
        (s.reserveMemorySpace (bytesToReserve r)).1 r.typeIdentifier r.payload.length
        r.payload) := by
  simp only [store, hrun, Bool.not_true, Bool.false_eq_true, if_false, bytesToReserve]

/-- Without a wrap a store puts the record at the head. -/
theorem store_stay {r : Record} (hrun : s.isRunning = true)
    (hlen : headerSize + r.payload.length ≤ bufferSize) (hhead : s.head ≤ bufferSize)
    (hw : s.wraps (bytesToReserve r) = false) :
    s.store r.typeIdentifier r.payload.length r.payload =
      .ok { s with
        head := s.head + (headerSize + r.payload.length)
        buffer := s.buffer.write s.head (Chunk.record r).bytes } := by
  have hlt : 2 * bufferSize < sizeLimit := by decide
  rw [store_eq hrun]
  simp only [reserveMemorySpace, prepared, hw, Bool.false_eq_true, if_false, serializeAt_eq]
  rw [bytesToReserve_eq hlen, Nat.mod_eq_of_lt (by omega)]
  rfl

/-- With a wrap it puts a filler at the head and the record at address zero. -/
theorem store_wrap {r : Record} (hrun : s.isRunning = true)
    (hlen : headerSize + r.payload.length ≤ bufferSize)
    (hroom : s.head + headerSize ≤ bufferSize) (hw : s.wraps (bytesToReserve r) = true) :
    s.store r.typeIdentifier r.payload.length r.payload =
      .ok { s with
        head := headerSize + r.payload.length
        buffer := (s.buffer.write s.head
          (Chunk.filler (bufferSize - s.head - headerSize)).bytes).write 0
            (Chunk.record r).bytes } := by
  have hlt := bufferSize_lt
  rw [store_eq hrun]
  simp only [reserveMemorySpace, prepared, hw, if_true, serializeAt_eq, fragmentMemory_eq hroom]
  rw [bytesToReserve_eq hlen, Nat.zero_add, Nat.mod_eq_of_lt (by omega)]
  rfl

/-- Reserving space for a record opens a span for its bytes. -/
theorem Follows.reserve (h : s.Follows log) {w : Nat} (hw : log.spans w = none) {r : Record}
    (hroom : s.unflushed + s.cost r < bufferSize)
    (hcopy : log.bytes.length + s.cost r ≤ log.copied + bufferSize) :
    (s.reserveMemorySpace (bytesToReserve r)).1
        = (log.append (chunksBytes (s.fillers r))).bytes.length % bufferSize ∧
      (s.reserveMemorySpace (bytesToReserve r)).2.Follows
        ((log.append (chunksBytes (s.fillers r))).reserve w (Chunk.record r).bytes) := by
  obtain ⟨hprepared, hfits⟩ := h.prepared hroom hcopy
  have hlen : (log.append (chunksBytes (s.fillers r))).bytes.length
      + (headerSize + r.payload.length) = log.bytes.length + s.cost r := by
    rw [← length_fillers h.room r, RingLog.append, List.length_append, Nat.add_assoc]
  have hused := h.unflushed_eq
  have hlt := bufferSize_lt
  have hlog := h.tracks.written_le
  have hbytes : (Chunk.record r).bytes.length = headerSize + r.payload.length :=
    Chunk.length_bytes _
  have hheader : 0 < headerSize := by decide
  have hreserve : bytesToReserve r = headerSize + r.payload.length := by
    have := s.length_le_cost r
    exact bytesToReserve_eq (by omega)
  have hhead : ((s.prepared (bytesToReserve r)).head + bytesToReserve r) % sizeLimit
      = (s.prepared (bytesToReserve r)).head + (Chunk.record r).bytes.length := by
    rw [hbytes, ← hreserve, Nat.mod_eq_of_lt (by omega)]
  unfold reserveMemorySpace
  refine ⟨hprepared.tracks.head_eq, ?_, ?_⟩
  · simp only [hhead]
    refine hprepared.tracks.reserve hw _ ?_ ?_ ?_
    · rw [hbytes]
      simp only [ring]
      omega
    · rw [hbytes, hlen]
      simp only [RingLog.append]
      omega
    · rw [hbytes, hlen]
      exact hcopy
  · simp only [hhead, hbytes]
    exact hfits

/-- Serializing into the reserved space closes the span. -/
theorem Follows.serialize (h : s.Follows log) {w u : Nat} {r : Record}
    (hw : log.spans w = some (u, (Chunk.record r).bytes)) :
    (s.serializeAt (u % bufferSize) r.typeIdentifier r.payload.length r.payload).Follows
      (log.publish w) := by
  rw [serializeAt_eq]
  exact ⟨h.tracks.publish hw, h.room⟩

theorem Follows.snapshot (h : s.Follows log) (hnone : ∀ w, log.spans w = none)
    (hidle : log.copied = log.written) : { s with tail := s.head }.Follows log.snapshot :=
  ⟨h.tracks.snapshot hnone hidle, h.room⟩

theorem Follows.copy (h : s.Follows log) : s.Follows log.copy :=
  ⟨h.tracks.copy, h.room⟩

/-- `flush` writes the part of the log between the end of the file and its
snapshot. -/
theorem Follows.writeRange (h : s.Follows log) {ofs : Ofs} (hofs : ofs.failed = false)
    (hlt : log.copied < log.written) :
    s.writeRange (log.copied % bufferSize) (log.written % bufferSize) ofs =
      { ofs with
        content := ofs.content ++ (log.bytes.drop log.copied).take (log.written - log.copied) } := by
  have hcap := h.tracks.cap_pos
  have hne : log.written % bufferSize ≠ log.copied % bufferSize := by
    intro heq
    have := eq_of_mod_eq (Nat.le_of_lt hlt) h.tracks.inflight_lt (Nat.le_refl _)
      (Nat.lt_add_of_pos_right hcap) heq
    omega
  rw [writeRange_eq hofs hne (Nat.le_of_lt (Nat.mod_lt _ hcap)) (Nat.le_of_lt (Nat.mod_lt _ hcap))]
  rw [show s.buffer = s.ring.memory from rfl, h.tracks.readCyclic]

end BufferStorage
end TraceCache
end Rocprofsys
