import Rocprofsys.TraceCache.StorageLog

namespace Rocprofsys
namespace TraceCache

open Base

/-! ## One caller

A single thread stores and flushes in any order.  The flush outputs end up in
one stream. -/

inductive Operation where
  | store (r : Record)
  | flush (force : Bool)

/-- A storage and the stream its flushes write to. -/
structure Session where
  storage : BufferStorage
  ofs : Ofs

namespace Session

def start (originPid : Int) : Session := ⟨.started originPid, ⟨[], false⟩⟩

def apply (session : Session) : Operation → Except String Session
  | .store r =>
    (session.storage.store r.typeIdentifier r.payload.length r.payload).map fun storage =>
      { session with storage := storage }
  | .flush force =>
    match session.storage.flush force session.ofs with
    | (storage, ofs, .ok ()) => .ok ⟨storage, ofs⟩
    | (_, _, .error e) => .error e

def run (session : Session) (ops : List Operation) : Except String Session :=
  ops.foldlM apply session

theorem run_singleton (session : Session) (op : Operation) :
    session.run [op] = session.apply op := by
  simp [run]

theorem run_cons (session : Session) (op : Operation) (ops : List Operation) :
    session.run (op :: ops) = session.apply op >>= fun session => session.run ops := rfl

theorem run_append (session : Session) (ops ops' : List Operation) :
    session.run (ops ++ ops') = session.run ops >>= fun session => session.run ops' :=
  List.foldlM_append

theorem bind_eq_ok {x : Except String Session} {f : Session → Except String Session}
    {session : Session} (h : x >>= f = .ok session) :
    ∃ session₁, x = .ok session₁ ∧ f session₁ = .ok session := by
  cases x with
  | error e => exact absurd h (by intro h'; cases h')
  | ok session₁ => exact ⟨session₁, rfl, h⟩

end Session

/-- The records stored by a sequence of operations. -/
def storedRecords : List Operation → List Record
  | [] => []
  | .store r :: ops => r :: storedRecords ops
  | .flush _ :: ops => storedRecords ops

theorem storedRecords_append (ops ops' : List Operation) :
    storedRecords (ops ++ ops') = storedRecords ops ++ storedRecords ops' := by
  induction ops with
  | nil => rfl
  | cons op ops ih => cases op <;> simp [storedRecords, ih]

namespace BufferStorage

/-- The addresses of the bytes not yet handed to a flush. -/
def unflushedRange (s : BufferStorage) : Set Nat := cyclicRange bufferSize s.tail s.head

/-- The addresses `fragment_memory` writes. -/
def fragmentRange (s : BufferStorage) : Set Nat :=
  {a | s.head ≤ a ∧ a < max bufferSize (s.head + headerSize)}

/-- The addresses `reserve_memory_space` hands out. -/
def reservedRange (s : BufferStorage) (r : Record) : Set Nat :=
  {a | (s.reserveMemorySpace (bytesToReserve r)).1 ≤ a ∧
    a < (s.reserveMemorySpace (bytesToReserve r)).1 + bytesToReserve r}

/-- Reserving for the record stays clear of the unflushed bytes. -/
structure Spares (s : BufferStorage) (r : Record) : Prop where
  fragment : s.wraps (bytesToReserve r) → Disjoint s.fragmentRange s.unflushedRange
  reserved : Disjoint (s.reservedRange r) s.unflushedRange

theorem Follows.spares {s : BufferStorage} {log : RingLog} (h : s.Follows log) {r : Record}
    (hfits : s.Fits r) : s.Spares r := by
  have hhead := h.room
  have hcost := s.length_le_cost r
  unfold Fits at hfits
  have hreserve : bytesToReserve r = headerSize + r.payload.length := bytesToReserve_eq (by omega)
  constructor
  · intro hw
    simp only [cost, if_pos hw] at hfits
    have hend : max bufferSize (s.head + headerSize) = s.head + (bufferSize - s.head) := by omega
    rw [fragmentRange, hend]
    exact disjoint_cyclicRange (by simp only [unflushed] at hfits; omega)
  · unfold reservedRange
    rw [reserveMemorySpace_fst]
    by_cases hw : s.wraps (bytesToReserve r) = true
    · simp only [cost, if_pos hw] at hfits
      rw [BufferStorage.prepared, if_pos hw, fragmentMemory_eq hhead]
      exact disjoint_cyclicRange_turn (by omega) (by simp only [unflushed] at hfits; omega)
    · simp only [cost, if_neg hw] at hfits
      rw [BufferStorage.prepared, if_neg hw]
      exact disjoint_cyclicRange (by simp only [unflushed] at hfits; omega)

/-- Storing writes only where it reserves. -/
theorem store_outside {s s' : BufferStorage} {r : Record}
    (hroom : s.head + headerSize ≤ bufferSize)
    (hlen : headerSize + r.payload.length ≤ bufferSize)
    (hstore : s.store r.typeIdentifier r.payload.length r.payload = .ok s') {a : Nat}
    (hfragment : s.wraps (bytesToReserve r) → a ∉ s.fragmentRange)
    (hreserved : a ∉ s.reservedRange r) : s'.buffer a = s.buffer a := by
  have hrun : s.isRunning = true := by
    cases hrunning : s.isRunning with
    | true => rfl
    | false => simp [store, hrunning] at hstore
  rw [store_eq hrun] at hstore
  obtain rfl := Except.ok.inj hstore
  have hbytes : (headerBytes r.typeIdentifier r.payload.length ++ r.payload).length
      = bytesToReserve r := by
    rw [List.length_append, length_headerBytes, bytesToReserve_eq hlen]
  have hprepared : (s.prepared (bytesToReserve r)).buffer a = s.buffer a := by
    unfold prepared
    split
    · rename_i hw
      have hout := hfragment hw
      simp only [fragmentRange, Set.mem_ofPred_eq, not_and_or, Nat.not_le, Nat.not_lt] at hout
      rw [fragmentMemory_eq hroom]
      refine Memory.write_outside _ ?_
      rw [Chunk.length_bytes, Chunk.payload, List.length_replicate]
      omega
    · rfl
  simp only [reservedRange, Set.mem_ofPred_eq, not_and_or, Nat.not_le, Nat.not_lt] at hreserved
  rw [serializeAt_buffer, reserveMemorySpace_buffer, Memory.write_outside _ (by rwa [hbytes]),
    hprepared]

end BufferStorage

/-! ## Runs -/

/-- The operations keep every stored record: no reservation touches a byte
between tail and head, no operation changes one, and the file ends up as the
stored records with padding between them. -/
structure Intact (originPid : Int) (ops : List Operation) : Prop where
  spares : ∀ before r after session, ops = before ++ .store r :: after →
    (Session.start originPid).run before = .ok session → session.storage.Spares r
  kept : ∀ before op after session session', ops = before ++ op :: after →
    (Session.start originPid).run before = .ok session → session.apply op = .ok session' →
    ∀ a ∈ session.storage.unflushedRange, session'.storage.buffer a = session.storage.buffer a
  written : ∃ session chunks,
    (Session.start originPid).run (ops ++ [.flush true]) = .ok session ∧
    session.ofs.content = chunksBytes chunks ∧ chunksRecords chunks = storedRecords ops

namespace Session

/-- Room for what the operation reserves. -/
def Admits (session : Session) : Operation → Prop
  | .store r => session.storage.Fits r
  | .flush _ => True

/-- Every record finds room when it is stored. -/
def HasRoom (session : Session) : List Operation → Prop
  | [] => True
  | op :: ops =>
    session.Admits op ∧ ∀ session', session.apply op = .ok session' → session'.HasRoom ops

theorem HasRoom.of_run {session session' : Session} {before after : List Operation}
    (h : session.HasRoom (before ++ after)) (hrun : session.run before = .ok session') :
    session'.HasRoom after := by
  induction before generalizing session with
  | nil =>
    obtain rfl := Except.ok.inj hrun
    exact h
  | cons op before ih =>
    rw [run_cons] at hrun
    obtain ⟨session₁, happly, hrun⟩ := bind_eq_ok hrun
    exact ih (h.2 session₁ happly) hrun

theorem HasRoom.of_append {session : Session} {before after : List Operation}
    (h : session.HasRoom (before ++ after)) : session.HasRoom before := by
  induction before generalizing session with
  | nil => trivial
  | cons op before ih => exact ⟨h.1, fun session' happly => ih (h.2 session' happly)⟩

end Session

/-- The session follows a log whose chunks are in the file up to the last
flush. -/
structure Session.Follows (session : Session) (chunks : List Chunk) (log : RingLog) : Prop where
  storage : session.storage.Follows log
  running : session.storage.isRunning = true
  bytes_eq : log.bytes = chunksBytes chunks
  spans_eq : ∀ w, log.spans w = none
  copied_eq : log.copied = log.written
  content_eq : session.ofs.content = log.bytes.take log.copied
  not_failed : session.ofs.failed = false
  small : ∀ c ∈ chunks, c.payload.length < bufferSize

namespace Session

variable {session : Session} {chunks : List Chunk} {log : RingLog}

theorem Follows.start (originPid : Int) :
    (start originPid).Follows [] ⟨[], 0, 0, fun _ => none⟩ where
  storage := .started originPid
  running := rfl
  bytes_eq := rfl
  spans_eq _ := rfl
  copied_eq := rfl
  content_eq := rfl
  not_failed := rfl
  small _ h := absurd h (by simp)

theorem apply_store_ok {r : Record} {storage : BufferStorage}
    (h : session.storage.store r.typeIdentifier r.payload.length r.payload = .ok storage) :
    session.apply (.store r) = .ok { session with storage := storage } := by
  simp only [apply, h, Except.map]

theorem apply_store (hrun : session.storage.isRunning = true) (r : Record) :
    session.apply (.store r) =
      .ok { session with
        storage := (session.storage.reserveMemorySpace (BufferStorage.bytesToReserve r)).2.serializeAt
          (session.storage.reserveMemorySpace (BufferStorage.bytesToReserve r)).1 r.typeIdentifier
          r.payload.length r.payload } :=
  apply_store_ok (BufferStorage.store_eq hrun)

theorem apply_flush_idle {force : Bool} (h : session.storage.flushes force = false) :
    session.apply (.flush force) = .ok session := by
  simp [apply, BufferStorage.flush, BufferStorage.snapshot, h]

theorem apply_flush {force : Bool} (h : session.storage.flushes force = true) {ofs : Ofs}
    (hofs : { session.storage with tail := session.storage.head }.writeRange session.storage.tail
      session.storage.head session.ofs = ofs) (hok : ofs.failed = false) :
    session.apply (.flush force) =
      .ok ⟨{ session.storage with tail := session.storage.head }, ofs⟩ := by
  simp [apply, BufferStorage.flush, BufferStorage.snapshot, h, hofs, hok]

/-- A store that fits appends the record, behind a filler when it wraps. -/
theorem Follows.store (h : session.Follows chunks log) {r : Record}
    (hfits : session.storage.Fits r) :
    ∃ session' log', session.apply (.store r) = .ok session' ∧
      session'.Follows (chunks ++ (session.storage.fillers r ++ [.record r])) log' ∧
      session'.storage.unflushed = session.storage.unflushed + session.storage.cost r := by
  have hused := h.storage.unflushed_eq
  have hlog := h.storage.tracks.written_le
  unfold BufferStorage.Fits at hfits
  obtain ⟨haddr, hreserved⟩ := h.storage.reserve (h.spans_eq 0) hfits (by
    rw [h.copied_eq]
    omega)
  have hserialized := hreserved.serialize (RingLog.spans_reserve_self ..)
  have hnone : (log.append (chunksBytes (session.storage.fillers r))).spans 0 = none :=
    h.spans_eq 0
  rw [RingLog.publish_reserve hnone, RingLog.append_append, ← haddr] at hserialized
  refine ⟨_, _, apply_store h.running r, ⟨hserialized, ?_, ?_, h.spans_eq, h.copied_eq, ?_,
    h.not_failed, ?_⟩, ?_⟩
  · have hprepared := session.storage.prepared_isRunning (BufferStorage.bytesToReserve r)
    show (session.storage.prepared (BufferStorage.bytesToReserve r)).isRunning = true
    rw [hprepared, h.running]
  · simp [RingLog.append, h.bytes_eq, chunksBytes]
  · simp only [RingLog.append]
    rw [List.take_append_of_le_length (by rw [h.copied_eq]; exact hlog)]
    exact h.content_eq
  · intro c hc
    rcases List.mem_append.mp hc with hold | hnew
    · exact h.small c hold
    · exact BufferStorage.Fits.small hfits c hnew
  · rw [hserialized.unflushed_eq, hused]
    have hlen := BufferStorage.length_fillers h.storage.room r
    simp only [RingLog.append, List.length_append, Chunk.length_bytes, Chunk.payload]
    omega

/-- A flush changes no byte of the buffer and keeps the file a prefix of the
log, all of it when forced. -/
theorem Follows.flush (h : session.Follows chunks log) (force : Bool) :
    ∃ session' log', session.apply (.flush force) = .ok session' ∧
      session'.Follows chunks log' ∧ session'.storage.buffer = session.storage.buffer ∧
      session'.storage.unflushed =
        (if session.storage.flushes force then 0 else session.storage.unflushed) ∧
      (force = true → session'.ofs.content = chunksBytes chunks) := by
  have hends := h.storage.tracks.head_eq_tail_iff
  have hwritten := h.storage.tracks.written_le
  have htail := h.storage.tracks.tail_eq
  have hhead := h.storage.tracks.head_eq
  simp only [BufferStorage.ring] at hends htail hhead
  cases hflushes : session.storage.flushes force with
  | true =>
    have hne : session.storage.head ≠ session.storage.tail := by
      intro heq
      simp [BufferStorage.flushes, heq] at hflushes
    have hlt : log.copied < log.bytes.length := by
      have := mt hends.mpr hne
      rw [h.copied_eq]
      omega
    have hsnapshot := h.storage.snapshot h.spans_eq h.copied_eq
    have hwrite := hsnapshot.writeRange h.not_failed hlt
    simp only [RingLog.snapshot] at hwrite
    rw [← hhead, h.copied_eq, ← htail] at hwrite
    have hcontent : session.ofs.content
        ++ (log.bytes.drop log.written).take (log.bytes.length - log.written) = log.bytes := by
      rw [List.take_of_length_le (by simp), h.content_eq, h.copied_eq, List.take_append_drop]
    rw [hcontent] at hwrite
    refine ⟨_, _, apply_flush hflushes hwrite h.not_failed, ⟨hsnapshot.copy, h.running, h.bytes_eq,
      h.spans_eq, rfl, ?_, h.not_failed, h.small⟩, rfl, ?_, fun _ => h.bytes_eq⟩
    · simp [RingLog.copy, RingLog.snapshot]
    · rw [hsnapshot.unflushed_eq, if_pos rfl]
      exact Nat.sub_self _
  | false =>
    refine ⟨session, log, apply_flush_idle hflushes, h, rfl, rfl, fun hforce => ?_⟩
    simp only [BufferStorage.flushes, hforce, Bool.true_or, Bool.and_true, bne_eq_false_iff_eq]
      at hflushes
    rw [h.content_eq, h.copied_eq, ← hends.mp hflushes, List.take_length, h.bytes_eq]

/-- Every operation that finds room keeps the session following a log of its
chunks. -/
theorem Follows.step (h : session.Follows chunks log) {op : Operation}
    (hadmits : session.Admits op) :
    ∃ session' chunks' log', session.apply op = .ok session' ∧ session'.Follows chunks' log' ∧
      chunksRecords chunks' = chunksRecords chunks ++ storedRecords [op] := by
  cases op with
  | store r =>
    obtain ⟨session', log', happly, hfollows, -⟩ := h.store hadmits
    refine ⟨session', _, log', happly, hfollows, ?_⟩
    rw [chunksRecords_append, chunksRecords_append, BufferStorage.chunksRecords_fillers]
    rfl
  | flush force =>
    obtain ⟨session', log', happly, hfollows, -, -, -⟩ := h.flush force
    exact ⟨session', chunks, log', happly, hfollows, by simp [storedRecords]⟩

theorem Follows.steps (h : session.Follows chunks log) {ops : List Operation}
    (hroom : session.HasRoom ops) :
    ∃ session' chunks' log', session.run ops = .ok session' ∧ session'.Follows chunks' log' ∧
      chunksRecords chunks' = chunksRecords chunks ++ storedRecords ops := by
  induction ops generalizing session chunks log with
  | nil => exact ⟨session, chunks, log, rfl, h, by simp [storedRecords]⟩
  | cons op ops ih =>
    obtain ⟨session₁, chunks₁, log₁, happly, hfollows, hrecords⟩ := h.step hroom.1
    obtain ⟨session₂, chunks₂, log₂, hrun, hfollows₂, hrecords₂⟩ :=
      ih hfollows (hroom.2 session₁ happly)
    refine ⟨session₂, chunks₂, log₂, ?_, hfollows₂, ?_⟩
    · rw [run_cons, happly]
      exact hrun
    · rw [hrecords₂, hrecords, List.append_assoc, ← storedRecords_append]
      rfl

end Session

/-- A run that finds room for every record keeps every record. -/
theorem intact_of_hasRoom {originPid : Int} {ops : List Operation}
    (h : (Session.start originPid).HasRoom ops) : Intact originPid ops where
  spares := by
    intro before r after session hops hrun
    subst hops
    obtain ⟨session', chunks, log, hrun', hfollows, -⟩ :=
      (Session.Follows.start originPid).steps h.of_append
    obtain rfl := Except.ok.inj (hrun.symm.trans hrun')
    exact hfollows.storage.spares (h.of_run hrun).1
  kept := by
    intro before op after session session' hops hrun happly a ha
    subst hops
    obtain ⟨session₀, chunks, log, hrun', hfollows, -⟩ :=
      (Session.Follows.start originPid).steps h.of_append
    obtain rfl := Except.ok.inj (hrun.symm.trans hrun')
    cases op with
    | store r =>
      have hfits : session.storage.Fits r := (h.of_run hrun).1
      have hspares := hfollows.storage.spares hfits
      have hcost := session.storage.length_le_cost r
      unfold BufferStorage.Fits at hfits
      rw [Session.apply_store hfollows.running] at happly
      obtain rfl := Except.ok.inj happly
      exact BufferStorage.store_outside hfollows.storage.room (by omega)
        (BufferStorage.store_eq hfollows.running)
        (fun hw => Set.disjoint_right.mp (hspares.fragment hw) ha)
        (Set.disjoint_right.mp hspares.reserved ha)
    | flush force =>
      obtain ⟨session₁, log', happly', -, hbuffer, -, -⟩ := hfollows.flush force
      obtain rfl := Except.ok.inj (happly.symm.trans happly')
      rw [hbuffer]
  written := by
    obtain ⟨session, chunks, log, hrun, hfollows, hrecords⟩ :=
      (Session.Follows.start originPid).steps h
    obtain ⟨session', log', happly, -, -, -, hcontent⟩ := hfollows.flush true
    refine ⟨session', chunks, ?_, hcontent rfl, hrecords⟩
    rw [Session.run_append, hrun]
    exact (Session.run_singleton ..).trans happly

/-- A short record stored and flushed. -/
theorem intact_store_flush :
    Intact 0 [.store ⟨0, [1, 2, 3], by decide, by decide⟩, .flush true] := by
  refine intact_of_hasRoom ⟨?_, fun _ _ => ⟨trivial, fun _ _ => trivial⟩⟩
  show (BufferStorage.started 0).unflushed + (BufferStorage.started 0).cost _ < bufferSize
  decide

/-! ## Lapping

Nothing compares a reservation with the tail.  Two records that do not fit
together end up in the same place. -/

namespace Session

/-- The first record of a session lies behind address zero. -/
theorem store_first (originPid : Int) {r : Record}
    (h : headerSize + r.payload.length + headerSize ≤ bufferSize) :
    (start originPid).storage.cost r = headerSize + r.payload.length ∧
    ∃ session, (start originPid).apply (.store r) = .ok session ∧
      session.storage.isRunning = true ∧ session.ofs = ⟨[], false⟩ ∧
      session.storage.head = headerSize + r.payload.length ∧ session.storage.tail = 0 := by
  have hroom := (BufferStorage.Follows.started originPid).room
  have hstay : (BufferStorage.started originPid).wraps (BufferStorage.bytesToReserve r) = false := by
    rw [Bool.eq_false_iff, ne_eq, BufferStorage.wraps_iff hroom (by omega)]
    show ¬ bufferSize < 0 + (headerSize + r.payload.length) + headerSize
    omega
  have hstore := BufferStorage.store_stay (s := .started originPid) rfl (by omega)
    (Nat.zero_le _) hstay
  refine ⟨?_, _, apply_store_ok hstore, rfl, rfl, Nat.zero_add _, rfl⟩
  simp only [start, BufferStorage.cost, hstay, Bool.false_eq_true, if_false, Nat.zero_add]

end Session

/-- The second of two unflushed records that do not fit together wraps onto the
first. -/
theorem not_intact_of_lap {originPid : Int} {r r' : Record}
    (hfirst : headerSize + r.payload.length + headerSize ≤ bufferSize)
    (hsecond : headerSize + r'.payload.length ≤ bufferSize)
    (hlap : bufferSize < headerSize + r.payload.length + (headerSize + r'.payload.length)) :
    ¬ Intact originPid [.store r, .store r'] := by
  intro h
  have hheader : 0 < headerSize := by decide
  obtain ⟨-, session, happly, -, -, hhead, htail⟩ := Session.store_first originPid hfirst
  have hwraps : session.storage.wraps (BufferStorage.bytesToReserve r') = true := by
    rw [BufferStorage.wraps_iff (by omega) hsecond]
    omega
  have hspares := (h.spares [.store r] r' [] session rfl
    ((Session.run_singleton ..).trans happly)).reserved
  have hreserved : 0 ∈ session.storage.reservedRange r' := by
    rw [BufferStorage.reservedRange, BufferStorage.reserveMemorySpace_fst, BufferStorage.prepared,
      if_pos hwraps]
    exact ⟨Nat.le_refl 0, by rw [BufferStorage.bytesToReserve_eq hsecond]; omega⟩
  have hunflushed : 0 ∈ session.storage.unflushedRange := by
    rw [BufferStorage.unflushedRange, hhead, htail, cyclicRange, Set.mem_ofPred_eq,
      if_pos (Nat.zero_le _)]
    omega
  exact Set.disjoint_left.mp hspares hreserved hunflushed

theorem zero_ne_fragmented : 0 ≠ TypeIdentifier.fragmentedSpace.value := by decide

/-- A record of sixty megabytes. -/
def bulkRecord : Record where
  typeIdentifier := 0
  payload := List.replicate (60 * mByte) 0
  typeIdentifier_lt := Nat.pow_pos (by decide)
  ne_fragmented := zero_ne_fragmented

theorem length_bulkRecord : bulkRecord.payload.length = 60 * mByte := List.length_replicate

theorem not_intact_bulkRecords : ¬ Intact 0 [.store bulkRecord, .store bulkRecord] := by
  refine not_intact_of_lap ?_ ?_ ?_ <;> rw [length_bulkRecord] <;> decide

end TraceCache
end Rocprofsys
