import Rocprofsys.TraceCache.StorageLog

namespace Rocprofsys
namespace TraceCache

open Base

/-! ## Many writers and a flusher

Each writer's `store` is two steps, the reservation under the lock and the
serialization behind it.  The flusher's `flush` is two as well, the snapshot
under the lock and the write behind it.  Reserved chunks carry serial numbers,
so that what a flush writes can be traced to the stores behind it. -/

/-- What a writer knows between its two steps. -/
structure Ticket where
  serial : Nat
  address : Nat
  record : Record

/-- What the flusher knows between its two steps.  `spanned` are the chunks of
its range and `completed` the chunks serialized by then. -/
structure Snapshot where
  tail : Nat
  head : Nat
  spanned : List (Chunk × Nat)
  completed : List Nat

/-- One range written to the file. -/
structure Output where
  bytes : Bytes
  spanned : List (Chunk × Nat)
  completed : List Nat

/-- The bytes are those of the range's chunks, and every chunk was serialized
before the snapshot. -/
structure Output.Published (out : Output) : Prop where
  bytes_eq : out.bytes = chunksBytes (out.spanned.map Prod.fst)
  completed : ∀ entry ∈ out.spanned, entry.2 ∈ out.completed

/-- The storage with its callers.  The fields from `serial` on record the
history and steer nothing. -/
structure System where
  storage : BufferStorage
  tickets : Nat → Option Ticket
  flushing : Option Snapshot
  serial : Nat
  reserved : List (Chunk × Nat)
  completed : List Nat
  outputs : List Output

inductive Action where
  | reserve (writer : Nat) (r : Record)
  | serialize (writer : Nat)
  | snapshot (force : Bool)
  | write

namespace System

def start (originPid : Int) : System where
  storage := .started originPid
  tickets := fun _ => none
  flushing := none
  serial := 0
  reserved := []
  completed := []
  outputs := []

def reserve (s : System) (writer : Nat) (r : Record) : System :=
  let fillers := s.storage.fillers r
  let (address, storage) := s.storage.reserveMemorySpace (BufferStorage.bytesToReserve r)
  { s with
    storage := storage
    tickets := Function.update s.tickets writer (some ⟨s.serial + fillers.length, address, r⟩)
    serial := s.serial + fillers.length + 1
    reserved := s.reserved ++ (fillers ++ [Chunk.record r]).zipIdx s.serial
    completed := s.completed ++ (fillers.zipIdx s.serial).map Prod.snd }

def serialize (s : System) (writer : Nat) (t : Ticket) : System :=
  { s with
    storage := s.storage.serializeAt t.address t.record.typeIdentifier t.record.payload.length
      t.record.payload
    tickets := Function.update s.tickets writer none
    completed := s.completed ++ [t.serial] }

def snapshot (s : System) (force : Bool) : System :=
  match s.storage.snapshot force with
  | (none, _) => s
  | (some (tail, head), storage) =>
    { s with
      storage := storage
      flushing := some ⟨tail, head, s.reserved, s.completed⟩
      reserved := [] }

def write (s : System) (snap : Snapshot) : System :=
  let ofs := s.storage.writeRange snap.tail snap.head ⟨[], false⟩
  { s with
    flushing := none
    outputs := s.outputs ++ [⟨ofs.content, snap.spanned, snap.completed⟩] }

/-- One step of one of the threads, when that thread is at it. -/
def step (s : System) : Action → Option System
  | .reserve writer r =>
    if s.storage.isRunning && (s.tickets writer).isNone then some (s.reserve writer r) else none
  | .serialize writer => (s.tickets writer).map (s.serialize writer)
  | .snapshot force => if s.flushing.isNone then some (s.snapshot force) else none
  | .write => s.flushing.map s.write

def run (s : System) (actions : List Action) : Option System := actions.foldlM step s

/-- The bytes of a snapshot that is not written yet. -/
def inflight (s : System) : Nat :=
  match s.flushing with
  | none => 0
  | some snap => cyclicDistance bufferSize snap.tail snap.head

/-- Reservations stay clear of everything that is not in the file, and a
snapshot that moves the tail finds no writer between its two steps. -/
def Safe (s : System) : Action → Prop
  | .reserve _ r =>
    s.storage.Fits r ∧ s.inflight + s.storage.unflushed + s.storage.cost r ≤ bufferSize
  | .serialize _ => True
  | .snapshot force => s.storage.flushes force = true → ∀ writer, s.tickets writer = none
  | .write => True

/-- Every step of the run is safe. -/
def RunSafe (s : System) : List Action → Prop
  | [] => True
  | a :: actions => s.Safe a ∧ ∀ s', s.step a = some s' → s'.RunSafe actions

/-- A ticket and the span of the log it stands for. -/
def TicketFollows : Option Ticket → Option (Nat × List UInt8) → Prop
  | none, span => span = none
  | some t, span => ∃ u, span = some (u, (Chunk.record t.record).bytes) ∧ t.address = u % bufferSize

/-- A flush in progress and the part of the log it is about to write. -/
def FlushFollows (log : RingLog) : Option Snapshot → Prop
  | none => log.copied = log.written
  | some snap =>
    log.copied < log.written ∧ snap.tail = log.copied % bufferSize ∧
    snap.head = log.written % bufferSize ∧
    (log.bytes.drop log.copied).take (log.written - log.copied)
      = chunksBytes (snap.spanned.map Prod.fst) ∧
    ∀ entry ∈ snap.spanned, entry.2 ∈ snap.completed

/-- The system follows a log: tickets are its open spans, and what is reserved
behind the snapshot is serialized or has a ticket. -/
structure Follows (s : System) (log : RingLog) : Prop where
  storage : s.storage.Follows log
  tickets : ∀ writer, TicketFollows (s.tickets writer) (log.spans writer)
  flushing : FlushFollows log s.flushing
  reserved_eq : log.bytes.drop log.written = chunksBytes (s.reserved.map Prod.fst)
  completed : ∀ entry ∈ s.reserved,
    entry.2 ∈ s.completed ∨ ∃ writer t, s.tickets writer = some t ∧ t.serial = entry.2
  published : ∀ out ∈ s.outputs, out.Published

variable {s : System} {log : RingLog}

theorem Follows.start (originPid : Int) :
    (start originPid).Follows ⟨[], 0, 0, fun _ => none⟩ where
  storage := .started originPid
  tickets _ := rfl
  flushing := rfl
  reserved_eq := rfl
  completed _ h := absurd h (by simp [System.start])
  published _ h := absurd h (by simp [System.start])

/-- The snapshot in progress is the part of the log between copy and snapshot. -/
theorem Follows.inflight_eq (h : s.Follows log) : s.inflight = log.written - log.copied := by
  have hflushing := h.flushing
  unfold inflight
  cases hs : s.flushing with
  | none =>
    rw [hs] at hflushing
    have hidle : log.copied = log.written := hflushing
    simp [hidle]
  | some snap =>
    rw [hs] at hflushing
    obtain ⟨-, htail, hhead, -, -⟩ := hflushing
    simp only [htail, hhead]
    exact cyclicDistance_mod h.storage.tracks.cap_pos h.storage.tracks.copied_le
      h.storage.tracks.inflight_lt

/-- Growing the log leaves the flush in progress as it is. -/
theorem FlushFollows.append {flushing : Option Snapshot} (h : FlushFollows log flushing)
    (hlog : log.written ≤ log.bytes.length) (bs : Bytes) :
    FlushFollows (log.append bs) flushing := by
  cases flushing with
  | none => exact h
  | some snap =>
    obtain ⟨hlt, htail, hhead, hbytes, hcompleted⟩ := h
    refine ⟨hlt, htail, hhead, ?_, hcompleted⟩
    simp only [RingLog.append]
    rw [List.drop_append_of_le_length (by omega), List.take_append_of_le_length (by simp; omega)]
    exact hbytes

/-- Reserving clear of what is not in the file opens a span. -/
theorem Follows.reserve (h : s.Follows log) {writer : Nat} (hw : s.tickets writer = none)
    {r : Record} (hsafe : s.Safe (.reserve writer r)) :
    ∃ log', (s.reserve writer r).Follows log' := by
  obtain ⟨hfits, hclear⟩ := hsafe
  have hinflight := h.inflight_eq
  have hunflushed := h.storage.unflushed_eq
  have hcopied := h.storage.tracks.copied_le
  have hwritten := h.storage.tracks.written_le
  have hspan : log.spans writer = none := by
    have := h.tickets writer
    rwa [hw] at this
  unfold BufferStorage.Fits at hfits
  obtain ⟨haddr, hstorage⟩ := h.storage.reserve hspan hfits (by omega)
  refine ⟨_, hstorage, ?_, ?_, ?_, ?_, h.published⟩
  · intro writer'
    simp only [System.reserve, RingLog.spans_reserve, Function.update_apply]
    split
    · exact ⟨_, rfl, haddr⟩
    · exact h.tickets writer'
  · exact (h.flushing.append hwritten _).append (by simp [RingLog.append]; omega) _
  · simp only [System.reserve, RingLog.reserve, RingLog.append, List.append_assoc]
    rw [List.drop_append_of_le_length hwritten, h.reserved_eq, List.map_append, List.zipIdx_map_fst]
    simp [chunksBytes]
  · intro entry hentry
    simp only [System.reserve, List.zipIdx_append, List.mem_append] at hentry ⊢
    rcases hentry with hold | hfiller | hrecord
    · rcases h.completed entry hold with hdone | ⟨writer', t, ht, hserial⟩
      · exact Or.inl (Or.inl hdone)
      · refine Or.inr ⟨writer', t, ?_, hserial⟩
        rw [Function.update_of_ne, ht]
        intro heq
        subst heq
        rw [hw] at ht
        exact absurd ht (by simp)
    · exact Or.inl (Or.inr (List.mem_map_of_mem hfiller))
    · refine Or.inr ⟨writer, _, Function.update_self .., ?_⟩
      simp only [List.zipIdx_singleton, List.mem_singleton] at hrecord
      rw [hrecord]

/-- Serializing closes the span of the writer's ticket. -/
theorem Follows.serialize (h : s.Follows log) {writer : Nat} {t : Ticket}
    (ht : s.tickets writer = some t) : (s.serialize writer t).Follows (log.publish writer) := by
  obtain ⟨u, hspan, haddr⟩ : TicketFollows (some t) (log.spans writer) := ht ▸ h.tickets writer
  have hstorage := h.storage.serialize hspan
  rw [← haddr] at hstorage
  refine ⟨hstorage, ?_, h.flushing, h.reserved_eq, ?_, h.published⟩
  · intro writer'
    simp only [System.serialize, RingLog.spans_publish, Function.update_apply]
    split
    · rfl
    · exact h.tickets writer'
  · intro entry hentry
    simp only [System.serialize, List.mem_append, List.mem_singleton]
    rcases h.completed entry hentry with hdone | ⟨writer', t', ht', hserial⟩
    · exact Or.inl (Or.inl hdone)
    · by_cases hne : writer' = writer
      · subst hne
        obtain rfl := Option.some.inj (ht.symm.trans ht')
        exact Or.inl (Or.inr hserial.symm)
      · exact Or.inr ⟨writer', t', by rw [Function.update_of_ne hne, ht'], hserial⟩

/-- A snapshot without outstanding tickets spans only serialized chunks. -/
theorem Follows.snapshot (h : s.Follows log) {force : Bool} (hidle : s.flushing = none)
    (hsafe : s.Safe (.snapshot force)) : ∃ log', (s.snapshot force).Follows log' := by
  have hcopied : log.copied = log.written := by
    have := h.flushing
    rwa [hidle] at this
  unfold System.snapshot BufferStorage.snapshot
  cases hflushes : s.storage.flushes force with
  | false => exact ⟨log, by simpa using h⟩
  | true =>
    have hnone := hsafe hflushes
    have hspans : ∀ writer, log.spans writer = none := by
      intro writer
      have := h.tickets writer
      rwa [hnone writer] at this
    have hlt : log.written < log.bytes.length := by
      have hwritten := h.storage.tracks.written_le
      have hne : s.storage.head ≠ s.storage.tail := by
        intro heq
        simp [BufferStorage.flushes, heq] at hflushes
      have := mt h.storage.tracks.head_eq_tail_iff.mpr hne
      omega
    refine ⟨log.snapshot, h.storage.snapshot hspans hcopied, h.tickets, ?_, ?_, ?_, h.published⟩
    · refine ⟨by simpa [RingLog.snapshot, hcopied] using hlt, ?_, ?_, ?_, ?_⟩
      · simp only [RingLog.snapshot, hcopied]
        exact h.storage.tracks.tail_eq
      · exact h.storage.tracks.head_eq
      · simp only [RingLog.snapshot, hcopied]
        rw [List.take_of_length_le (by simp), h.reserved_eq]
      · intro entry hentry
        rcases h.completed entry hentry with hdone | ⟨writer, t, ht, -⟩
        · exact hdone
        · rw [hnone writer] at ht
          exact absurd ht (by simp)
    · simp [RingLog.snapshot, chunksBytes]
    · intro entry hentry
      exact absurd hentry (by simp)

/-- The write puts the chunks of the snapshot into the file. -/
theorem Follows.write (h : s.Follows log) {snap : Snapshot} (hsnap : s.flushing = some snap) :
    (s.write snap).Follows log.copy := by
  obtain ⟨hlt, htail, hhead, hbytes, hcompleted⟩ : FlushFollows log (some snap) :=
    hsnap ▸ h.flushing
  have hwrite := h.storage.writeRange (rfl : (⟨[], false⟩ : Ofs).failed = false) hlt
  refine ⟨h.storage.copy, h.tickets, rfl, h.reserved_eq, h.completed, ?_⟩
  intro out hout
  simp only [System.write, List.mem_append, List.mem_singleton] at hout
  rcases hout with hold | rfl
  · exact h.published out hold
  · refine ⟨?_, hcompleted⟩
    simp only [htail, hhead, hwrite, List.nil_append]
    exact hbytes

/-- Every safe step keeps the system following a log. -/
theorem Follows.step (h : s.Follows log) {a : Action} (hsafe : s.Safe a) {s' : System}
    (hstep : s.step a = some s') : ∃ log', s'.Follows log' := by
  cases a with
  | reserve writer r =>
    simp only [System.step, Option.ite_none_right_eq_some, Bool.and_eq_true, Option.isNone_iff_eq_none,
      Option.some.injEq] at hstep
    obtain ⟨⟨-, hw⟩, rfl⟩ := hstep
    exact h.reserve hw hsafe
  | serialize writer =>
    obtain ⟨t, ht, rfl⟩ := Option.map_eq_some_iff.mp hstep
    exact ⟨_, h.serialize ht⟩
  | snapshot force =>
    simp only [System.step, Option.ite_none_right_eq_some, Option.isNone_iff_eq_none,
      Option.some.injEq] at hstep
    obtain ⟨hidle, rfl⟩ := hstep
    exact h.snapshot hidle hsafe
  | write =>
    obtain ⟨snap, hsnap, rfl⟩ := Option.map_eq_some_iff.mp hstep
    exact ⟨_, h.write hsnap⟩

theorem Follows.steps (h : s.Follows log) {actions : List Action} (hsafe : s.RunSafe actions)
    {s' : System} (hrun : s.run actions = some s') : ∃ log', s'.Follows log' := by
  induction actions generalizing s log with
  | nil =>
    obtain rfl := Option.some.inj hrun
    exact ⟨log, h⟩
  | cons a actions ih =>
    obtain ⟨s₁, hstep, hrun⟩ := Option.bind_eq_some_iff.mp hrun
    obtain ⟨log₁, hfollows⟩ := h.step hsafe.1 hstep
    exact ih hfollows (hsafe.2 s₁ hstep) hrun

end System

/-- In a safe run every range in the file consists of records that were
serialized before the snapshot of the flush that wrote it. -/
theorem published_of_runSafe {originPid : Int} {actions : List Action}
    (h : (System.start originPid).RunSafe actions) {s : System}
    (hrun : (System.start originPid).run actions = some s) :
    ∀ out ∈ s.outputs, out.Published := by
  obtain ⟨log, hfollows⟩ := (System.Follows.start originPid).steps h hrun
  exact hfollows.published

/-- Two writers whose stores overlap, and a flush once both are done. -/
def overlappingStores : List Action :=
  [.reserve 0 ⟨0, [1, 2, 3], by decide, by decide⟩, .reserve 1 ⟨1, [4], by decide, by decide⟩,
    .serialize 1, .serialize 0, .snapshot true, .write]

theorem runSafe_overlappingStores : (System.start 0).RunSafe overlappingStores := by
  refine ⟨⟨?_, ?_⟩, fun s hs => ?_⟩
  · show BufferStorage.unflushed _ + BufferStorage.cost _ _ < _
    decide
  · decide
  obtain rfl := Option.some.inj hs
  refine ⟨⟨?_, ?_⟩, fun s hs => ?_⟩
  · show BufferStorage.unflushed _ + BufferStorage.cost _ _ < _
    decide
  · decide
  obtain rfl := Option.some.inj hs
  refine ⟨trivial, fun s hs => ?_⟩
  obtain rfl := Option.some.inj hs
  refine ⟨trivial, fun s hs => ?_⟩
  obtain rfl := Option.some.inj hs
  refine ⟨fun _ writer => ?_, fun s hs => ?_⟩
  · show Function.update (Function.update (Function.update (Function.update (fun _ => none) 0 _)
      1 _) 1 none) 0 none writer = none
    rw [Function.update_idem, Function.update_comm (by decide), Function.update_idem]
    simp [Function.update_apply]
  · exact ⟨trivial, fun _ _ => trivial⟩

theorem published_overlappingStores :
    ∃ s, (System.start 0).run overlappingStores = some s ∧ ∀ out ∈ s.outputs, out.Published :=
  ⟨_, rfl, published_of_runSafe runSafe_overlappingStores rfl⟩

/-! ## Flushing a reservation

The head moves when a span is reserved, so a snapshot takes in spans whose
writer is still at work. -/

/-- A flush between the two steps of a store. -/
def flushedReservation : List Action :=
  [.reserve 0 ⟨0, [1, 2, 3], by decide, by decide⟩, .snapshot true, .write]

theorem not_published_flushedReservation :
    ∃ s, (System.start 0).run flushedReservation = some s ∧
      ¬ ∀ out ∈ s.outputs, out.Published := by
  refine ⟨_, rfl, fun h => ?_⟩
  have hout := (h _ (List.mem_singleton.mpr rfl)).completed _ (List.mem_singleton.mpr rfl)
  exact absurd hout (by decide)

end TraceCache
end Rocprofsys
