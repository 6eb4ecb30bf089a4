import Rocprofsys.Base.LittleEndian
import Rocprofsys.Base.Ring

namespace Rocprofsys
namespace Perf

open Base

/-! ## The ring buffer of an event -/

/-- `perf_event_mmap_page` and the data pages behind it. -/
structure Mapping where
  data : Memory
  dataHead : UInt64
  dataTail : UInt64

/-- `_buf`, of 4096 bytes. -/
structure Buffer where
  bytes : List UInt8
  length_bytes : bytes.length = 4096

/-- `memcpy` to the beginning of the buffer, or nothing where it would write behind its end. -/
def Buffer.write (buf : Buffer) (bytes : List UInt8) : Option Buffer :=
  if h : bytes.length ≤ 4096 then
    some ⟨bytes ++ buf.bytes.drop bytes.length, by
      rw [List.length_append, List.length_drop, buf.length_bytes]
      omega⟩
  else none

/-- `perf_event::iterator`. -/
structure Iterator where
  index : UInt64
  head : UInt64
  mapping : Option Mapping
  buf : Buffer

/-- `sizeof(struct perf_event_header)`: the type, the flags and the size of the record. -/
def headerSize : Nat := 8

/-- The field `size` of the header in front. -/
def recordSize (header : List UInt8) : Nat := leNat ((header.drop 6).take 2)

def Iterator.ofMapping (mapping : Option Mapping) (buf : Buffer) : Iterator :=
  match mapping with
  | some m => ⟨m.dataTail, m.dataHead, some m, buf⟩
  | none => ⟨0, 0, none, buf⟩

/-- The destructor. -/
def Iterator.destroy (it : Iterator) : Option Mapping :=
  it.mapping.map fun m => { m with dataTail := it.index }

section Ring

/- `sizes.data`. -/
variable (dataSize : Nat)

/-- What `copy_from_ring_buffer` copies. -/
def copyFromRingBuffer (m : Mapping) (index : UInt64) (nbytes : Nat) : List UInt8 :=
  let begIdx := index.toNat % dataSize
  let endIdx := begIdx + nbytes
  if endIdx ≤ dataSize then m.data.read begIdx nbytes
  else
    let chunkSize2 := endIdx - dataSize
    let chunkSize1 := nbytes - chunkSize2
    m.data.read begIdx chunkSize1 ++ m.data.read 0 chunkSize2

namespace Iterator

def hasData (it : Iterator) : Bool :=
  match it.mapping with
  | none => false
  | some m =>
    if it.index + UInt64.ofNat headerSize ≥ it.head then false
    else
      let hdr := copyFromRingBuffer dataSize m it.index headerSize
      if it.index + UInt64.ofNat (recordSize hdr) > it.head then false else true

/-- The record, which is what its header says of the buffer. -/
def get (it : Iterator) : Option (List UInt8 × Iterator) :=
  it.mapping.bind fun m =>
    (it.buf.write (copyFromRingBuffer dataSize m it.index headerSize)).bind fun buf =>
      (buf.write (copyFromRingBuffer dataSize m it.index (recordSize buf.bytes))).map fun buf' =>
        (buf'.bytes.take (recordSize buf'.bytes), { it with buf := buf' })

def next (it : Iterator) : Option Iterator :=
  it.mapping.map fun m =>
    let hdr := copyFromRingBuffer dataSize m it.index headerSize
    { it with index := it.index + UInt64.ofNat (recordSize hdr) }

/-- `operator!=`. -/
def ne (it other : Iterator) : Bool := it.hasData dataSize != other.hasData dataSize

end Iterator

/-- The passes of a loop over the records up to `last`. A loop that outlasts its fuel or writes
outside the buffer has no result. -/
def iterate (last : Iterator) : Nat → Iterator → Option (List (List UInt8) × Iterator)
  | 0, _ => none
  | fuel + 1, it =>
    if it.ne dataSize last then
      (it.get dataSize).bind fun (record, it) =>
        (it.next dataSize).bind fun it =>
          (iterate last fuel it).map fun (records, it) => (record :: records, it)
    else some ([], it)

/-- `for(auto itr : event)`, with the records that it goes through and what is left of the
mapping. -/
def forEach (buf buf' : Buffer) (mapping : Mapping) (fuel : Nat) :
    Option (List (List UInt8) × Option Mapping) :=
  (iterate dataSize (.ofMapping none buf') fuel (.ofMapping (some mapping) buf)).map
    fun (records, it) => (records, it.destroy)

/-! ## Contents -/

/-- A record whose header says how long it is. -/
structure IsRecord (r : List UInt8) : Prop where
  header_le : headerSize ≤ r.length
  le_dataSize : r.length ≤ dataSize
  size_eq : recordSize r = r.length

/-- The beginning of a record that the kernel has not written to its end. -/
def IsIncomplete (rest : List UInt8) : Prop :=
  ∃ r, IsRecord dataSize r ∧ rest <+: r ∧ rest ≠ r

/-- The bytes from the tail to the head are these records, and the beginning of one more. -/
structure Contains (data : Memory) (head tail : UInt64) (records : List (List UInt8))
    (rest : List UInt8) : Prop where
  tail_le_head : tail.toNat ≤ head.toNat
  within : head.toNat - tail.toNat ≤ dataSize
  bytes_eq : stretch dataSize data tail.toNat (head.toNat - tail.toNat) =
    records.flatten ++ rest
  areRecords : ∀ r ∈ records, IsRecord dataSize r
  incomplete : IsIncomplete dataSize rest

/-- Each complete record is delivered once, in order, and `data_tail` is left behind the last
one. -/
def Delivers (buf buf' : Buffer) (m : Mapping) (records : List (List UInt8))
    (rest : List UInt8) : Prop :=
  ∃ fuel dataTail, forEach dataSize buf buf' m fuel =
      some (records, some { m with dataTail := dataTail }) ∧
    dataTail.toNat = m.dataTail.toNat + records.flatten.length ∧
    (rest = [] → dataTail = m.dataHead)

/-- There is no record at this position: the sums are those of 64 bits, and wrap around. -/
def StopsAt (m : Mapping) (index : UInt64) : Prop :=
  m.dataHead ≤ index + UInt64.ofNat headerSize ∨
    m.dataHead <
      index + UInt64.ofNat (recordSize (copyFromRingBuffer dataSize m index headerSize))

end Ring

/-! ## One record -/

section Record

variable {dataSize nbytes n : Nat} {m : Mapping} {index head tail : UInt64} {it : Iterator}
  {buf buf' : Buffer} {data : Memory} {r header rest bytes back : List UInt8}
  {records : List (List UInt8)}

theorem copyFromRingBuffer_eq (hpos : 0 < dataSize) (hle : nbytes ≤ dataSize) :
    copyFromRingBuffer dataSize m index nbytes =
      stretch dataSize m.data index.toNat nbytes := by
  have hlt := Nat.mod_lt index.toNat hpos
  unfold copyFromRingBuffer
  simp only
  split
  · rename_i h
    rw [stretch_of_fits h]
  · rename_i h
    have hchunk : nbytes - (index.toNat % dataSize + nbytes - dataSize) =
        dataSize - index.toNat % dataSize := by omega
    rw [stretch_of_wraps hpos (by omega) hle, hchunk]

theorem recordSize_append (h : headerSize ≤ header.length) :
    recordSize (header ++ back) = recordSize header := by
  have hlength : 8 ≤ header.length := h
  rw [recordSize, recordSize, List.drop_append_of_le_length (by omega),
    List.take_append_of_le_length (by rw [List.length_drop]; omega)]

theorem recordSize_take (h : headerSize ≤ r.length) :
    recordSize (r.take headerSize) = recordSize r := by
  have hlength : (r.take headerSize).length = headerSize := List.length_take_of_le h
  rw [← @recordSize_append _ (r.drop headerSize) hlength.ge, List.take_append_drop]

theorem hasData_eq_true_iff (hmapping : it.mapping = some m) :
    it.hasData dataSize = true ↔ it.index + UInt64.ofNat headerSize < it.head ∧
      it.index + UInt64.ofNat (recordSize (copyFromRingBuffer dataSize m it.index headerSize)) ≤
        it.head := by
  rw [Iterator.hasData, hmapping]
  simp only
  split
  · rename_i h
    exact iff_of_false Bool.false_ne_true fun h' => absurd h'.1 (UInt64.not_lt.mpr h)
  · rename_i h
    rw [and_iff_right (UInt64.not_le.mp h)]
    split
    · rename_i h'
      exact iff_of_false Bool.false_ne_true (UInt64.not_le.mpr h')
    · rename_i h'
      exact iff_of_true rfl (UInt64.not_lt.mp h')

theorem Contains.pos (h : Contains dataSize data head tail records rest) : 0 < dataSize := by
  obtain ⟨r, hr, -⟩ := h.incomplete
  have hheader : 8 ≤ r.length := hr.header_le
  have hle := hr.le_dataSize
  omega

/-- What stands at the tail, and what behind the first record. -/
theorem Contains.cons (h : Contains dataSize data head tail (r :: records) rest) :
    (tail + UInt64.ofNat r.length).toNat = tail.toNat + r.length ∧
      head.toNat = tail.toNat + r.length + (records.flatten ++ rest).length ∧
      stretch dataSize data tail.toNat r.length = r ∧
      Contains dataSize data head (tail + UInt64.ofNat r.length) records rest := by
  have hle := h.tail_le_head
  have hwithin := h.within
  have hhead := head.toNat_lt
  have hbytes := h.bytes_eq
  rw [List.flatten_cons, List.append_assoc] at hbytes
  obtain ⟨hlength, hfirst, hback⟩ := stretch_of_append hbytes
  have hnext : (tail + UInt64.ofNat r.length).toNat = tail.toNat + r.length := by
    rw [UInt64.toNat_add, UInt64.toNat_ofNat_of_lt' (show r.length < 2 ^ 64 by omega)]
    exact Nat.mod_eq_of_lt (show tail.toNat + r.length < 2 ^ 64 by omega)
  have hleft : head.toNat - (tail.toNat + r.length) = (records.flatten ++ rest).length := by
    omega
  refine ⟨hnext, by omega, hfirst, ?_, ?_, ?_, ?_, h.incomplete⟩
  · omega
  · omega
  · rw [hnext, hleft, hback]
  · exact fun r' hr' => h.areRecords r' (List.mem_cons_of_mem r hr')

/-- The header of the first record. -/
theorem Contains.copy_header (h : Contains dataSize m.data head index (r :: records) rest) :
    copyFromRingBuffer dataSize m index headerSize = r.take headerSize := by
  obtain ⟨-, -, hfirst, -⟩ := h.cons
  have hr := h.areRecords r List.mem_cons_self
  rw [copyFromRingBuffer_eq h.pos (hr.header_le.trans hr.le_dataSize), ← take_stretch hr.header_le,
    hfirst]

theorem Contains.flatten_eq_nil_iff (h : Contains dataSize data head tail records rest) :
    (records.flatten ++ rest).length = 0 ↔ records = [] ∧ rest = [] := by
  rw [List.length_eq_zero_iff, List.append_eq_nil_iff]
  refine and_congr_left fun _ => ?_
  constructor
  · intro hnil
    rw [List.flatten_eq_nil_iff] at hnil
    refine List.eq_nil_iff_forall_not_mem.mpr fun r hr => ?_
    have hheader := (h.areRecords r hr).header_le
    rw [hnil r hr] at hheader
    exact absurd hheader (by decide)
  · intro hnil
    rw [hnil]
    rfl

/-- A record that is only a header is not seen at the end. -/
theorem Contains.hasData_iff (h : Contains dataSize m.data it.head it.index (r :: records) rest)
    (hmapping : it.mapping = some m) :
    it.hasData dataSize = true ↔ ¬ (r.length = headerSize ∧ records = [] ∧ rest = []) := by
  obtain ⟨hnext, hhead, hfirst, hcontains⟩ := h.cons
  have hr := h.areRecords r List.mem_cons_self
  have hheader : 8 ≤ r.length := hr.header_le
  have hlt := it.head.toNat_lt
  have hsum : (it.index + UInt64.ofNat headerSize).toNat = it.index.toNat + 8 := by
    rw [UInt64.toNat_add]
    exact Nat.mod_eq_of_lt (show it.index.toNat + 8 < 2 ^ 64 by omega)
  rw [hasData_eq_true_iff hmapping, h.copy_header, recordSize_take hr.header_le, hr.size_eq,
    UInt64.lt_iff_toNat_lt, UInt64.le_iff_toNat_le, hnext, hsum, ← hcontains.flatten_eq_nil_iff]
  show _ ↔ ¬ (r.length = 8 ∧ _)
  omega

theorem Buffer.write_eq_some (h : bytes.length ≤ 4096) :
    ∃ buf' back, buf.write bytes = some buf' ∧ buf'.bytes = bytes ++ back := by
  rw [Buffer.write, dif_pos h]
  exact ⟨_, _, rfl, rfl⟩

theorem Buffer.write_eq_none (h : ¬ bytes.length ≤ 4096) : buf.write bytes = none := by
  rw [Buffer.write, dif_neg h]

theorem Contains.get_eq (h : Contains dataSize m.data it.head it.index (r :: records) rest)
    (hmapping : it.mapping = some m) :
    (r.length ≤ 4096 → ∃ buf', it.get dataSize = some (r, { it with buf := buf' })) ∧
      (¬ r.length ≤ 4096 → it.get dataSize = none) := by
  obtain ⟨-, -, hfirst, -⟩ := h.cons
  have hr := h.areRecords r List.mem_cons_self
  have hlength : (r.take headerSize).length = headerSize := List.length_take_of_le hr.header_le
  have hfits : (r.take headerSize).length ≤ 4096 := by
    rw [hlength]
    decide
  obtain ⟨buf', back, hwrite, hbytes⟩ := @Buffer.write_eq_some it.buf _ hfits
  have hsize : recordSize buf'.bytes = r.length := by
    rw [hbytes, recordSize_append hlength.ge, recordSize_take hr.header_le, hr.size_eq]
  have hcopy : copyFromRingBuffer dataSize m it.index r.length = r := by
    rw [copyFromRingBuffer_eq h.pos hr.le_dataSize, hfirst]
  constructor
  · intro hle
    obtain ⟨buf'', back', hwrite', hbytes'⟩ := @Buffer.write_eq_some buf' _ hle
    refine ⟨buf'', ?_⟩
    have hsize' : recordSize buf''.bytes = r.length := by
      rw [hbytes', recordSize_append hr.header_le, hr.size_eq]
    rw [Iterator.get, hmapping, Option.bind_some, h.copy_header, hwrite, Option.bind_some, hsize,
      hcopy, hwrite', Option.map_some, hsize', hbytes', List.take_left]
  · intro hgt
    rw [Iterator.get, hmapping, Option.bind_some, h.copy_header, hwrite, Option.bind_some, hsize,
      hcopy, Buffer.write_eq_none hgt, Option.map_none]

theorem Contains.next_eq (h : Contains dataSize m.data it.head it.index (r :: records) rest)
    (hmapping : it.mapping = some m) :
    it.next dataSize = some { it with index := it.index + UInt64.ofNat r.length } := by
  have hr := h.areRecords r List.mem_cons_self
  simp only [Iterator.next, hmapping, Option.map_some, h.copy_header,
    recordSize_take hr.header_le, hr.size_eq]

end Record

/-! ## A whole iteration -/

/-- Every record fits the buffer, the last byte is not that of a header, and the test of the loop
fails behind the last record. -/
structure Deliverable (dataSize : Nat) (m : Mapping) (index : UInt64)
    (records : List (List UInt8)) (rest : List UInt8) : Prop where
  fits : ∀ r ∈ records, r.length ≤ 4096
  not_header : rest = [] → ∀ r, records.getLast? = some r → r.length ≠ headerSize
  stops : StopsAt dataSize m (index + UInt64.ofNat records.flatten.length)

section Iteration

variable {dataSize fuel : Nat} {m : Mapping} {index : UInt64} {it it' last : Iterator}
  {buf buf' : Buffer} {r rest : List UInt8} {records : List (List UInt8)}

theorem deliverable_cons_iff :
    Deliverable dataSize m index (r :: records) rest ↔
      r.length ≤ 4096 ∧ ¬ (r.length = headerSize ∧ records = [] ∧ rest = []) ∧
        Deliverable dataSize m (index + UInt64.ofNat r.length) records rest := by
  have hend : index + UInt64.ofNat r.length + UInt64.ofNat records.flatten.length =
      index + UInt64.ofNat (r :: records).flatten.length := by
    rw [List.flatten_cons, List.length_append, UInt64.ofNat_add, UInt64.add_assoc]
  constructor
  · intro h
    obtain ⟨hfit, hfits⟩ := List.forall_mem_cons.mp h.fits
    refine ⟨hfit, fun hheader => ?_, hfits, fun hrest r' hr' => ?_, hend ▸ h.stops⟩
    · obtain ⟨hlength, rfl, hrest⟩ := hheader
      exact h.not_header hrest r rfl hlength
    · refine h.not_header hrest r' ?_
      rw [List.getLast?_cons, hr']
      rfl
  · intro h
    obtain ⟨hfit, hheader, h⟩ := h
    refine ⟨List.forall_mem_cons.mpr ⟨hfit, h.fits⟩, fun hrest r' hr' => ?_, hend ▸ h.stops⟩
    cases records with
    | nil =>
      cases hr'
      exact fun hlength => hheader ⟨hlength, rfl, hrest⟩
    | cons r'' records =>
      rw [List.getLast?_cons_cons] at hr'
      exact h.not_header hrest r' hr'

theorem ne_eq_hasData (hlast : last.mapping = none) :
    it.ne dataSize last = it.hasData dataSize := by
  have hfalse : last.hasData dataSize = false := by
    rw [Iterator.hasData, hlast]
  rw [Iterator.ne, hfalse, Bool.bne_false]

theorem stopsAt_iff (hmapping : it.mapping = some m) (hhead : it.head = m.dataHead) :
    StopsAt dataSize m it.index ↔ it.hasData dataSize = false := by
  rw [← Bool.not_eq_true, hasData_eq_true_iff hmapping, StopsAt, hhead, not_and_or,
    UInt64.not_lt, UInt64.not_le]

/-- The passes over one record. -/
theorem Contains.iterate_cons (hlast : last.mapping = none)
    (h : Contains dataSize m.data it.head it.index (r :: records) rest)
    (hmapping : it.mapping = some m) :
    ∃ buf', iterate dataSize last (fuel + 1) it =
      if r.length = headerSize ∧ records = [] ∧ rest = [] then some ([], it)
      else if r.length ≤ 4096 then
        (iterate dataSize last fuel
          { it with index := it.index + UInt64.ofNat r.length, buf := buf' }).map
            fun (records, it) => (r :: records, it)
      else none := by
  obtain ⟨hfits, hlong⟩ := h.get_eq hmapping
  have htest := h.hasData_iff hmapping
  by_cases hheader : r.length = headerSize ∧ records = [] ∧ rest = []
  · refine ⟨it.buf, ?_⟩
    have hstop : ¬ it.hasData dataSize = true := fun h => htest.mp h hheader
    rw [iterate, ne_eq_hasData hlast, if_neg hstop, if_pos hheader]
  · by_cases hle : r.length ≤ 4096
    · obtain ⟨buf', hget⟩ := hfits hle
      have hnext := @Contains.next_eq dataSize m { it with buf := buf' } r rest records h hmapping
      refine ⟨buf', ?_⟩
      rw [iterate, ne_eq_hasData hlast, if_pos (htest.mpr hheader), if_neg hheader, if_pos hle,
        hget, Option.bind_some]
      simp only [hnext, Option.bind_some]
    · refine ⟨it.buf, ?_⟩
      rw [iterate, ne_eq_hasData hlast, if_pos (htest.mpr hheader), if_neg hheader, if_neg hle,
        hlong hle, Option.bind_none]

/-- An iteration that goes through all the records. -/
theorem of_iterate (hlast : last.mapping = none)
    (h : Contains dataSize m.data it.head it.index records rest)
    (hmapping : it.mapping = some m) (hhead : it.head = m.dataHead)
    (hiterate : iterate dataSize last fuel it = some (records, it')) :
    Deliverable dataSize m it.index records rest ∧ it'.mapping = some m ∧
      it'.index = it.index + UInt64.ofNat records.flatten.length := by
  induction records generalizing fuel it with
  | nil =>
    cases fuel with
    | zero => cases hiterate
    | succ fuel =>
      rw [iterate, ne_eq_hasData hlast] at hiterate
      split at hiterate
      · obtain ⟨⟨record, it₁⟩, -, hrest⟩ := Option.bind_eq_some_iff.mp hiterate
        obtain ⟨it₂, -, hrest⟩ := Option.bind_eq_some_iff.mp hrest
        obtain ⟨rest, -, heq⟩ := Option.map_eq_some_iff.mp hrest
        cases heq
      · rename_i hstop
        obtain ⟨-, heq⟩ := Prod.mk.inj (Option.some.inj hiterate)
        have hzero : it.index + UInt64.ofNat ([] : List (List UInt8)).flatten.length = it.index :=
          UInt64.add_zero it.index
        have hstops := (@stopsAt_iff dataSize m it hmapping hhead).mpr
          (Bool.eq_false_iff.mpr hstop)
        rw [← heq]
        refine ⟨⟨fun r hr => absurd hr List.not_mem_nil, fun _ r hr => ?_, ?_⟩, hmapping,
          hzero.symm⟩
        · cases hr
        · rw [hzero]
          exact hstops
  | cons r records ih =>
    cases fuel with
    | zero => cases hiterate
    | succ fuel =>
      obtain ⟨buf', hpass⟩ := @Contains.iterate_cons dataSize fuel m it last r rest records hlast h
        hmapping
      rw [hpass] at hiterate
      split at hiterate
      · cases hiterate
      · rename_i hheader
        split at hiterate
        · rename_i hle
          obtain ⟨⟨records', it₁⟩, hrest, heq⟩ := Option.map_eq_some_iff.mp hiterate
          cases heq
          obtain ⟨-, -, -, hcontains⟩ := h.cons
          obtain ⟨hdeliverable, hmapping', hindex⟩ := @ih fuel
            { it with index := it.index + UInt64.ofNat r.length, buf := buf' } hcontains hmapping
            hhead hrest
          refine ⟨deliverable_cons_iff.mpr ⟨hle, hheader, hdeliverable⟩, hmapping', ?_⟩
          rw [hindex, List.flatten_cons, List.length_append, UInt64.ofNat_add, UInt64.add_assoc]
        · cases hiterate

theorem exists_iterate (hlast : last.mapping = none)
    (h : Contains dataSize m.data it.head it.index records rest)
    (hmapping : it.mapping = some m) (hhead : it.head = m.dataHead)
    (hdeliverable : Deliverable dataSize m it.index records rest) :
    ∃ it', iterate dataSize last (records.length + 1) it = some (records, it') := by
  induction records generalizing it with
  | nil =>
    have hstops : StopsAt dataSize m it.index := by
      have hstops := hdeliverable.stops
      rwa [List.flatten_nil, List.length_nil, show UInt64.ofNat 0 = 0 from rfl,
        UInt64.add_zero] at hstops
    have hstop := (stopsAt_iff hmapping hhead).mp hstops
    exact ⟨it, by rw [iterate, ne_eq_hasData hlast, hstop, if_neg Bool.false_ne_true]⟩
  | cons r records ih =>
    obtain ⟨buf', hpass⟩ := @Contains.iterate_cons dataSize (records.length + 1) m it last r rest
      records hlast h hmapping
    obtain ⟨hle, hheader, hdeliverable⟩ := deliverable_cons_iff.mp hdeliverable
    obtain ⟨-, -, -, hcontains⟩ := h.cons
    obtain ⟨it', hrest⟩ := @ih
      { it with index := it.index + UInt64.ofNat r.length, buf := buf' } hcontains hmapping hhead
      hdeliverable
    refine ⟨it', ?_⟩
    rw [List.length_cons, hpass, if_neg hheader, if_pos hle, hrest]
    rfl

/-- Where the records end. -/
theorem Contains.toNat_end
    (h : Contains dataSize m.data m.dataHead m.dataTail records rest) :
    (m.dataTail + UInt64.ofNat records.flatten.length).toNat =
        m.dataTail.toNat + records.flatten.length ∧
      m.dataHead.toNat = m.dataTail.toNat + records.flatten.length + rest.length := by
  obtain ⟨hlength, -⟩ := stretch_of_append h.bytes_eq
  have hle := h.tail_le_head
  have hhead := m.dataHead.toNat_lt
  have hlt : records.flatten.length < 2 ^ 64 := by omega
  refine ⟨?_, by omega⟩
  rw [UInt64.toNat_add, UInt64.toNat_ofNat_of_lt' hlt]
  exact Nat.mod_eq_of_lt (show m.dataTail.toNat + records.flatten.length < 2 ^ 64 by omega)

theorem recordSize_lt (header : List UInt8) : recordSize header < 2 ^ 16 := by
  have hbytes (bytes : List UInt8) (h : bytes.length ≤ 2) : leNat bytes < 2 ^ 16 := by
    match bytes with
    | [] => decide
    | [b] =>
      have hb := b.toNat_lt
      show b.toNat + 256 * 0 < 2 ^ 16
      omega
    | [b, c] =>
      have hb := b.toNat_lt
      have hc := c.toNat_lt
      show b.toNat + 256 * (c.toNat + 256 * 0) < 2 ^ 16
      omega
    | _ :: _ :: _ :: _ =>
      simp only [List.length_cons] at h
      omega
  exact hbytes _ (List.length_take_le 2 _)

/-- Unless the head comes near the largest position the loop ends where the records do. -/
theorem Contains.stopsAt_end
    (h : Contains dataSize m.data m.dataHead m.dataTail records rest)
    (hhead : m.dataHead.toNat + 2 ^ 16 ≤ 2 ^ 64) :
    StopsAt dataSize m (m.dataTail + UInt64.ofNat records.flatten.length) := by
  obtain ⟨hend, hsum⟩ := h.toNat_end
  have hwithin := h.within
  obtain ⟨hlength, -, hback⟩ := stretch_of_append h.bytes_eq
  rw [← hend] at hback hsum
  obtain ⟨r, hr, ⟨missing, happend⟩, hne⟩ := h.incomplete
  generalize m.dataTail + UInt64.ofNat records.flatten.length = index at hend hback hsum ⊢
  have hmissing : 0 < missing.length := by
    rw [List.length_pos_iff]
    intro hnil
    rw [hnil, List.append_nil] at happend
    exact hne happend
  have hshort : rest.length + missing.length = r.length := by
    rw [← happend, List.length_append]
  by_cases hheader : rest.length ≤ headerSize
  · left
    have hle : rest.length ≤ 8 := hheader
    have hstep : (index + UInt64.ofNat headerSize).toNat = index.toNat + 8 := by
      rw [UInt64.toNat_add]
      exact Nat.mod_eq_of_lt (show index.toNat + 8 < 2 ^ 64 by omega)
    rw [UInt64.le_iff_toNat_le, hstep]
    omega
  · right
    have hcopied : copyFromRingBuffer dataSize m index headerSize = rest.take headerSize := by
      have hle : headerSize ≤ rest.length := Nat.le_of_not_le hheader
      rw [copyFromRingBuffer_eq h.pos (by omega), ← take_stretch hle, hback]
    have hsize : recordSize (copyFromRingBuffer dataSize m index headerSize) = r.length := by
      rw [hcopied, recordSize_take (Nat.le_of_not_le hheader), ← hr.size_eq, ← happend,
        recordSize_append (Nat.le_of_not_le hheader)]
    have hlt := recordSize_lt (copyFromRingBuffer dataSize m index headerSize)
    rw [hsize] at hlt ⊢
    have hstep : (index + UInt64.ofNat r.length).toNat = index.toNat + r.length := by
      rw [UInt64.toNat_add, UInt64.toNat_ofNat_of_lt' (show r.length < 2 ^ 64 by omega)]
      exact Nat.mod_eq_of_lt (show index.toNat + r.length < 2 ^ 64 by omega)
    rw [UInt64.lt_iff_toNat_lt, hstep]
    omega

end Iteration

/-! ## What is delivered -/

section Delivery

variable {dataSize : Nat} {m : Mapping} {buf buf' : Buffer} {rest : List UInt8}
  {records : List (List UInt8)}

theorem deliverable_of_delivers
    (h : Contains dataSize m.data m.dataHead m.dataTail records rest)
    (hdelivers : Delivers dataSize buf buf' m records rest) :
    Deliverable dataSize m m.dataTail records rest := by
  obtain ⟨fuel, dataTail, hforEach, -⟩ := hdelivers
  obtain ⟨⟨records', it⟩, hiterate, heq⟩ := Option.map_eq_some_iff.mp hforEach
  obtain ⟨rfl, -⟩ := Prod.mk.inj heq
  exact (@of_iterate dataSize fuel m (.ofMapping (some m) buf) it (.ofMapping none buf') rest _
    rfl h rfl rfl hiterate).1

theorem delivers_of_deliverable
    (h : Contains dataSize m.data m.dataHead m.dataTail records rest)
    (hdeliverable : Deliverable dataSize m m.dataTail records rest) :
    Delivers dataSize buf buf' m records rest := by
  obtain ⟨it, hiterate⟩ := @exists_iterate dataSize m (.ofMapping (some m) buf)
    (.ofMapping none buf') rest records rfl h rfl rfl hdeliverable
  obtain ⟨-, hmapping, hindex⟩ := @of_iterate dataSize _ m (.ofMapping (some m) buf) it
    (.ofMapping none buf') rest records rfl h rfl rfl hiterate
  obtain ⟨hend, hhead⟩ := h.toNat_end
  refine ⟨records.length + 1, m.dataTail + UInt64.ofNat records.flatten.length, ?_, hend,
    fun hrest => ?_⟩
  · rw [forEach, hiterate, Option.map_some]
    simp only [Iterator.destroy, hmapping, Option.map_some, hindex]
    rfl
  · rw [hrest] at hhead
    rw [← UInt64.toNat_inj, hend, hhead]
    rfl

end Delivery

/-- The records between the tail and the head are delivered exactly if each of them fits the
buffer, the last byte before the head is not that of a header, and the loop stops behind the
last record, which it does unless the head comes near the largest position. -/
theorem delivers_iff_deliverable (dataSize : Nat) (buf buf' : Buffer) (m : Mapping)
    (records : List (List UInt8)) (rest : List UInt8)
    (h : Contains dataSize m.data m.dataHead m.dataTail records rest) :
    Delivers dataSize buf buf' m records rest ↔
      Deliverable dataSize m m.dataTail records rest :=
  ⟨deliverable_of_delivers h, delivers_of_deliverable h⟩

/-- One record of this size at the beginning of the ring. -/
def oneRecord (size : Nat) : Mapping where
  data := Memory.write (fun _ => 0) 6 (leBytes 2 size)
  dataHead := UInt64.ofNat size
  dataTail := 0

theorem contains_oneRecord {size : Nat} (hheader : headerSize ≤ size) (hsize : size ≤ 8192) :
    Contains 8192 (oneRecord size).data (oneRecord size).dataHead (oneRecord size).dataTail
      [stretch 8192 (oneRecord size).data 0 size] [] := by
  have hnat : (UInt64.ofNat size).toNat = size :=
    UInt64.toNat_ofNat_of_lt' (show size < 2 ^ 64 by omega)
  have hrecord : IsRecord 8192 (stretch 8192 (oneRecord size).data 0 size) := by
    have hread : stretch 8192 (oneRecord size).data 0 headerSize =
        (oneRecord size).data.read 0 headerSize := stretch_of_fits (by decide)
    refine ⟨by rw [length_stretch]; exact hheader, by rw [length_stretch]; exact hsize, ?_⟩
    rw [length_stretch, ← recordSize_take (by rw [length_stretch]; exact hheader),
      take_stretch hheader, hread]
    show leNat ((oneRecord size).data.read 6 2) = size
    have hbytes := Memory.read_write (fun _ => 0) 6 (leBytes 2 size)
    rw [length_leBytes] at hbytes
    rw [oneRecord, hbytes, leNat_leBytes (by omega)]
  refine ⟨Nat.zero_le _, ?_, ?_, ?_, ?_⟩
  · show (UInt64.ofNat size).toNat - 0 ≤ 8192
    omega
  · show stretch 8192 _ 0 ((UInt64.ofNat size).toNat - 0) = _
    rw [hnat, List.flatten_singleton, List.append_nil, Nat.sub_zero]
  · exact List.forall_mem_singleton.mpr hrecord
  · refine ⟨_, hrecord, List.nil_prefix, fun hnil => ?_⟩
    have hlength := congrArg List.length hnil
    rw [length_stretch] at hlength
    have hpos : 8 ≤ size := hheader
    exact absurd hlength (by simp only [List.length_nil]; omega)

def zeroes : Buffer := ⟨List.replicate 4096 0, List.length_replicate⟩

theorem delivers_iff_deliverable_oneRecord :
    Delivers 8192 zeroes zeroes (oneRecord 16) [stretch 8192 (oneRecord 16).data 0 16] [] ↔
      Deliverable 8192 (oneRecord 16) 0 [stretch 8192 (oneRecord 16).data 0 16] [] :=
  delivers_iff_deliverable 8192 zeroes zeroes (oneRecord 16) _ []
    (contains_oneRecord (by decide) (by decide))

/-- A record that is only a header is not delivered in front of the head, and one of 4104 bytes
does not fit the buffer. -/
theorem not_delivers_oneRecord :
    ¬ Delivers 8192 zeroes zeroes (oneRecord 8) [stretch 8192 (oneRecord 8).data 0 8] [] ∧
      ¬ Delivers 8192 zeroes zeroes (oneRecord 4104)
        [stretch 8192 (oneRecord 4104).data 0 4104] [] := by
  constructor
  · intro h
    have hdeliverable := deliverable_of_delivers (contains_oneRecord (by decide) (by decide)) h
    exact hdeliverable.not_header rfl _ rfl length_stretch
  · intro h
    have hdeliverable := deliverable_of_delivers (contains_oneRecord (by decide) (by decide)) h
    have hfits := hdeliverable.fits _ (List.mem_singleton_self _)
    rw [length_stretch] at hfits
    omega

end Perf
end Rocprofsys
