import Rocprofsys.TraceCache.CacheFile
import Rocprofsys.TraceCache.StoreAndFlush

namespace Rocprofsys
namespace TraceCache

open Base

/-! ## Writer and reader

What the storage writes for a sequence of stored samples, the parser hands on
as that sequence. -/

inductive SampleOperation where
  | store (v : StoredSample)
  | flush (force : Bool)

namespace SampleOperation

/-- The operation with the sample as a record. -/
def operation : SampleOperation → Operation
  | store v => .store v.value.record
  | flush force => .flush force

def stored? : SampleOperation → Option StoredSample
  | store v => some v
  | flush _ => none

end SampleOperation

/-- The samples stored by a sequence of operations. -/
def storedSamples (ops : List SampleOperation) : List StoredSample :=
  ops.filterMap SampleOperation.stored?

namespace Session

def applySample (session : Session) : SampleOperation → Except String Session
  | .store v =>
    (session.storage.storeSample v.value).map fun storage => { session with storage := storage }
  | .flush force => session.apply (.flush force)

def runSamples (session : Session) (ops : List SampleOperation) : Except String Session :=
  ops.foldlM applySample session

/-- `store` of a sample is `store` of its record. -/
theorem applySample_eq (session : Session) (op : SampleOperation) :
    session.applySample op = session.apply op.operation := by
  cases op with
  | store v =>
    simp only [applySample, apply, SampleOperation.operation, BufferStorage.storeSample,
      Sample.record, v.value.getSize_eq_length v.bounded v.length_lt]
  | flush force => rfl

theorem runSamples_eq (session : Session) (ops : List SampleOperation) :
    session.runSamples ops = session.run (ops.map SampleOperation.operation) := by
  rw [runSamples, run, List.foldlM_map]
  congr
  funext session op
  exact session.applySample_eq op

/-- The bytes reserved since the last flush with `counts` stay below the buffer
size.  Padding counts as it is made. -/
def ReservedBelow (counts : BufferStorage → Bool → Bool) (session : Session) (reserved : Nat) :
    List SampleOperation → Prop
  | [] => True
  | .store v :: ops =>
    let n := session.storage.cost v.value.record
    reserved + n < bufferSize ∧ ∀ session', session.applySample (.store v) = .ok session' →
      session'.ReservedBelow counts (reserved + n) ops
  | .flush force :: ops =>
    ∀ session', session.applySample (.flush force) = .ok session' →
      session'.ReservedBelow counts (if counts session.storage force then 0 else reserved) ops

variable {session : Session} {chunks : List Chunk} {log : RingLog}

/-- Counting from the last flush that writes counts the unflushed bytes. -/
theorem ReservedBelow.hasRoom {ops : List SampleOperation}
    (h : session.ReservedBelow BufferStorage.flushes session.storage.unflushed ops)
    (hfollows : session.Follows chunks log) :
    session.HasRoom (ops.map SampleOperation.operation) := by
  induction ops generalizing session chunks log with
  | nil => trivial
  | cons op ops ih =>
    cases op with
    | store v =>
      obtain ⟨session₁, log₁, happly, hfollows₁, hunflushed⟩ := hfollows.store h.1
      refine ⟨h.1, fun session' happly' => ?_⟩
      obtain rfl := Except.ok.inj (happly.symm.trans happly')
      have hnext := h.2 session₁ ((session.applySample_eq (.store v)).trans happly)
      rw [← hunflushed] at hnext
      exact ih hnext hfollows₁
    | flush force =>
      obtain ⟨session₁, log₁, happly, hfollows₁, -, hunflushed, -⟩ := hfollows.flush force
      refine ⟨trivial, fun session' happly' => ?_⟩
      obtain rfl := Except.ok.inj (happly.symm.trans happly')
      have hnext := h session₁ ((session.applySample_eq (.flush force)).trans happly)
      rw [← hunflushed] at hnext
      exact ih hnext hfollows₁

end Session

theorem storedRecords_map_operation (ops : List SampleOperation) :
    storedRecords (ops.map SampleOperation.operation)
      = (storedSamples ops).map fun v => v.value.record := by
  induction ops with
  | nil => rfl
  | cons op ops ih =>
    cases op with
    | store v => exact congrArg _ ih
    | flush force => exact ih

/-- Chunks whose records are those of samples are the pieces of a file. -/
theorem exists_pieces {chunks : List Chunk} {samples : List StoredSample}
    (hsmall : ∀ c ∈ chunks, c.payload.length < bufferSize)
    (h : chunksRecords chunks = samples.map fun v => v.value.record) :
    ∃ pieces : List Piece, pieces.map Piece.chunk = chunks ∧
      pieces.filterMap Piece.sample? = samples.map StoredSample.value := by
  induction chunks generalizing samples with
  | nil =>
    obtain rfl : samples = [] := by simpa [chunksRecords] using h.symm
    exact ⟨[], rfl, rfl⟩
  | cons c chunks ih =>
    have hrest : ∀ c ∈ chunks, c.payload.length < bufferSize :=
      fun c hc => hsmall c (List.mem_cons_of_mem _ hc)
    cases c with
    | record r =>
      cases samples with
      | nil => exact absurd h (by simp [chunksRecords, Chunk.record?])
      | cons v samples =>
        obtain ⟨hr, htail⟩ := List.cons.inj h
        obtain ⟨pieces, hchunks, hsamples⟩ := ih hrest htail
        have hr' : r = v.value.record := hr
        exact ⟨.sample v :: pieces, by rw [List.map_cons, hchunks, hr']; rfl,
          congrArg _ hsamples⟩
    | filler remaining =>
      have hlt : remaining < bufferSize := by
        simpa [Chunk.payload] using hsmall (.filler remaining) List.mem_cons_self
      obtain ⟨pieces, hchunks, hsamples⟩ := ih hrest h
      exact ⟨.filler remaining (Nat.lt_trans hlt BufferStorage.bufferSize_lt) :: pieces,
        by rw [List.map_cons, hchunks]; rfl, hsamples⟩

theorem piecesBytes_eq (pieces : List Piece) :
    piecesBytes pieces = chunksBytes (pieces.map Piece.chunk) := by
  rw [piecesBytes, chunksBytes, List.flatMap_map]
  rfl

/-- Loading the file of a run gives back the samples stored in it, as long as
less than a buffer is reserved between two flushes that write. -/
theorem load_storedSamples {originPid : Int} {ops : List SampleOperation}
    (h : (Session.start originPid).ReservedBelow BufferStorage.flushes 0 ops)
    {env : Environment} (henv : bufferSize ≤ env.limit) (filename : String) :
    ∃ session, (Session.start originPid).runSamples (ops ++ [.flush true]) = .ok session ∧
      (load env true filename (some session.ofs.content)).delivered
        = (storedSamples ops).map StoredSample.value ∧
      (load env true filename (some session.ofs.content)).outcome = .returned := by
  have hstart := Session.Follows.start originPid
  obtain ⟨session, chunks, log, hrun, hfollows, hrecords⟩ := hstart.steps (h.hasRoom hstart)
  obtain ⟨session', log', happly, hfollows', -, -, hcontent⟩ := hfollows.flush true
  rw [storedRecords_map_operation] at hrecords
  obtain ⟨pieces, hchunks, hsamples⟩ := exists_pieces hfollows.small hrecords
  have hfits : ∀ piece ∈ pieces, piece.chunk.payload.length ≤ env.limit := by
    intro piece hpiece
    have hmem : piece.chunk ∈ chunks := hchunks ▸ List.mem_map_of_mem hpiece
    exact Nat.le_trans (Nat.le_of_lt (hfollows.small _ hmem)) henv
  obtain ⟨hdelivered, houtcome⟩ := loadFrames_pieces hfits filename
  refine ⟨session', ?_, ?_⟩
  · rw [Session.runSamples_eq, List.map_append, Session.run_append, hrun]
    exact (Session.run_singleton ..).trans happly
  · rw [load_eq, hcontent rfl, ← hchunks, ← piecesBytes_eq, hdelivered, hsamples]
    exact ⟨rfl, houtcome⟩

/-- A process that can hold any record of the buffer. -/
def roomyEnvironment : Environment where
  limit := bufferSize
  beyond := fun _ => []
  initialCapacity_le := by decide
  limit_le := by decide

/-- A CPU frequency sample with `n` bytes of frequencies. -/
def freqsSample (n : Nat) : Sample :=
  .cpuFreq ⟨0, 0, 0, 0, 0, 0, 0, 0, ⟨List.replicate n 0⟩⟩

theorem length_freqsSample {n : Nat} (h : n < sizeLimit) :
    (freqsSample n).serialize.length = 72 + n := by
  have hvector : (storeValue (⟨List.replicate n 0⟩ : ByteVector)).length = 8 + n := by
    show (storeContainer (List.replicate n 0)).length = 8 + n
    rw [storeContainer_eq (by rwa [List.length_replicate]), List.length_append, length_leBytes,
      List.length_replicate]
  simp only [freqsSample, Sample.serialize, CpuFreqSample.serialize, storeValues_cons,
    storeValues_nil, List.length_append, hvector]
  show 8 + (8 + (8 + (8 + (8 + (8 + (8 + (8 + (8 + n + 0)))))))) = 72 + n
  omega

def storedFreqs (n : Nat) (h : 72 + n < sizeLimit) : StoredSample where
  value := freqsSample n
  bounded := by
    intro value hvalue
    obtain rfl := List.mem_singleton.mp hvalue
    rw [List.length_replicate]
    omega
  length_lt := by rwa [length_freqsSample (by omega)]

/-- Two samples around a flush that does not write, and the final flush. -/
theorem load_storedFreqs :
    ∃ session, (Session.start 0).runSamples ([.store (storedFreqs 3 (by decide)), .flush false,
        .store (storedFreqs 0 (by decide))] ++ [.flush true]) = .ok session ∧
      (load roomyEnvironment true "buffered_storage.bin" (some session.ofs.content)).delivered
        = [freqsSample 3, freqsSample 0] ∧
      (load roomyEnvironment true "buffered_storage.bin" (some session.ofs.content)).outcome
        = .returned := by
  refine load_storedSamples ?_ (Nat.le_refl _) _
  refine ⟨by decide, fun session hsession => ?_⟩
  obtain rfl := Except.ok.inj hsession
  intro session hsession
  obtain rfl := Except.ok.inj hsession
  exact ⟨by decide, fun _ _ => trivial⟩

/-! ## Flushes that do not write

Below the threshold a flush returns early, and the bytes reserved before it are
still in the buffer behind it. -/

/-- A forced flush of a buffer that was written from address zero on. -/
theorem Session.flush_from_zero {session : Session} {m : Memory} {bs : Bytes} (hne : bs ≠ [])
    (hlen : bs.length ≤ bufferSize) (hofs : session.ofs = ⟨[], false⟩)
    (hhead : session.storage.head = bs.length) (htail : session.storage.tail = 0)
    (hbuffer : session.storage.buffer = m.write 0 bs) :
    ∃ session', session.apply (.flush true) = .ok session' ∧ session'.ofs.content = bs := by
  have hpos : 0 < bs.length := List.length_pos_iff.mpr hne
  have hflushes : session.storage.flushes true = true := by
    simp only [BufferStorage.flushes, hhead, htail, Bool.true_or, Bool.and_true, bne_iff_ne]
    omega
  have hwrite : { session.storage with tail := session.storage.head }.writeRange
      session.storage.tail session.storage.head session.ofs = ⟨bs, false⟩ := by
    rw [BufferStorage.writeRange_eq (by rw [hofs]) (by omega) (by omega) (by omega), htail, hhead,
      readCyclic, if_pos (Nat.zero_le _), Nat.sub_zero, hbuffer, Memory.read_write, hofs]
    rfl
  exact ⟨_, Session.apply_flush hflushes hwrite rfl, rfl⟩

/-- Two samples with a flush below the threshold between them, the second of
which wraps onto the first. -/
theorem lap_loses_first (originPid : Int) (v w : StoredSample)
    (hthreshold : headerSize + v.value.serialize.length < flushThreshold)
    (hlt : w.value.serialize.length < v.value.serialize.length)
    (hlap : bufferSize
      < headerSize + v.value.serialize.length + (headerSize + w.value.serialize.length)) :
    (Session.start originPid).ReservedBelow (fun _ _ => true) 0
        [.store v, .flush false, .store w] ∧
      ∃ session, (Session.start originPid).runSamples
          ([.store v, .flush false, .store w] ++ [.flush true]) = .ok session ∧
        session.ofs.content = (Piece.sample w).bytes := by
  have hheader : 0 < headerSize := by decide
  have hends : flushThreshold + headerSize ≤ bufferSize := by decide
  have hv : v.value.record.payload.length = v.value.serialize.length := rfl
  have hw : w.value.record.payload.length = w.value.serialize.length := rfl
  obtain ⟨hcost, session, happly, hrunning, hofs, hhead, htail⟩ :=
    Session.store_first originPid (r := v.value.record) (by omega)
  have hidle : session.storage.flushes false = false := by
    have hused := BufferStorage.usedSpace_eq (s := session.storage) (by omega) (by omega)
      (by omega)
    rw [cyclicDistance, htail, if_pos (Nat.zero_le _), hhead] at hused
    simp only [BufferStorage.flushes, hused, Bool.false_or, Bool.and_eq_false_iff,
      decide_eq_false_iff_not]
    omega
  have hwraps : session.storage.wraps (BufferStorage.bytesToReserve w.value.record) = true := by
    rw [BufferStorage.wraps_iff (by omega) (by omega)]
    omega
  have hstore := BufferStorage.store_wrap (r := w.value.record) hrunning (by omega) (by omega)
    hwraps
  obtain ⟨session₂, happly₂, hofs₂, hhead₂, htail₂, hbuffer₂⟩ : ∃ session₂,
      session.apply (.store w.value.record) = .ok session₂ ∧ session₂.ofs = ⟨[], false⟩ ∧
      session₂.storage.head = headerSize + w.value.record.payload.length ∧
      session₂.storage.tail = 0 ∧
      session₂.storage.buffer = (session.storage.buffer.write session.storage.head
        (Chunk.filler (bufferSize - session.storage.head - headerSize)).bytes).write 0
          (Piece.sample w).bytes :=
    ⟨_, Session.apply_store_ok hstore, hofs, rfl, htail, rfl⟩
  have hlen : (Piece.sample w).bytes.length = headerSize + w.value.record.payload.length :=
    Chunk.length_bytes _
  obtain ⟨session₃, hflush, hcontent⟩ := Session.flush_from_zero
    (List.ne_nil_of_length_pos (by omega)) (by omega) hofs₂ (by omega) htail₂ hbuffer₂
  refine ⟨⟨?_, fun session' happly' => ?_⟩, session₃, ?_, hcontent⟩
  · rw [hcost]
    omega
  · rw [Session.applySample_eq] at happly'
    obtain rfl := Except.ok.inj (happly.symm.trans happly')
    intro session' hidle'
    rw [Session.applySample_eq] at hidle'
    obtain rfl := Except.ok.inj ((Session.apply_flush_idle hidle).symm.trans hidle')
    refine ⟨?_, fun _ _ => trivial⟩
    simp only [BufferStorage.cost, hwraps, if_true]
    omega
  · rw [Session.runSamples_eq]
    show (Session.start originPid).run [.store v.value.record, .flush false,
      .store w.value.record, .flush true] = .ok session₃
    rw [Session.run_cons, happly]
    show session.run [.flush false, .store w.value.record, .flush true] = .ok session₃
    rw [Session.run_cons, Session.apply_flush_idle hidle]
    show session.run [.store w.value.record, .flush true] = .ok session₃
    rw [Session.run_cons, happly₂]
    exact (Session.run_singleton ..).trans hflush

/-- A store of seventy-nine megabytes, a flush below the threshold and a store of
fifty megabytes.  Each store alone leaves room in the buffer. -/
def lappingStores : List SampleOperation :=
  [.store (storedFreqs (79 * mByte) (by decide)), .flush false,
    .store (storedFreqs (50 * mByte) (by decide))]

theorem load_lappingStores_ne :
    (Session.start 0).ReservedBelow (fun _ _ => true) 0 lappingStores ∧
      ∃ session, (Session.start 0).runSamples (lappingStores ++ [.flush true]) = .ok session ∧
        (load roomyEnvironment true "buffered_storage.bin" (some session.ofs.content)).delivered
          ≠ (storedSamples lappingStores).map StoredSample.value := by
  have hfirst : (storedFreqs (79 * mByte) (by decide)).value.serialize.length = 72 + 79 * mByte :=
    length_freqsSample (by decide)
  have hsecond : (storedFreqs (50 * mByte) (by decide)).value.serialize.length = 72 + 50 * mByte :=
    length_freqsSample (by decide)
  obtain ⟨hreserved, session, hrun, hcontent⟩ := lap_loses_first 0
    (storedFreqs (79 * mByte) (by decide)) (storedFreqs (50 * mByte) (by decide))
    (by rw [hfirst]; decide) (by rw [hfirst, hsecond]; decide) (by rw [hfirst, hsecond]; decide)
  refine ⟨hreserved, session, hrun, fun hdelivered => ?_⟩
  have hfits : ∀ piece ∈ [Piece.sample (storedFreqs (50 * mByte) (by decide))],
      piece.chunk.payload.length ≤ roomyEnvironment.limit := by
    intro piece hpiece
    obtain rfl := List.mem_singleton.mp hpiece
    show (storedFreqs (50 * mByte) (by decide)).value.serialize.length ≤ bufferSize
    rw [hsecond]
    decide
  have hload := (loadFrames_pieces hfits "buffered_storage.bin").1
  rw [load_eq, hcontent] at hdelivered
  rw [piecesBytes, List.flatMap_singleton, hdelivered] at hload
  exact absurd (congrArg List.length hload) (by simp [lappingStores, storedSamples,
    SampleOperation.stored?, Piece.sample?])

end TraceCache
end Rocprofsys
