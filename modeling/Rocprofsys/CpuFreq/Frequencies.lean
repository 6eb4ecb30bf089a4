import Rocprofsys.Base.Emission
import Rocprofsys.Base.Positions
import Rocprofsys.TraceCache.Cacheable

namespace Rocprofsys
namespace CpuFreq

open Base
open TraceCache

/-! ## Recorded frequencies -/

/-- A `float`, kept as its bit pattern. -/
structure Single where
  bits : UInt32
  deriving DecidableEq, Repr

/-- `cpu_id_set_t`, in the order of its iteration. -/
structure CpuIdSet where
  ids : List UInt64
  sorted : ids.Pairwise (· < ·)

/-- `cpu_freq::record`: one value for each enabled CPU.  `frequency` is what the backend reads for
a CPU, in the unit of the recorded values. -/
def record (frequency : UInt64 → UInt64) (enabledCpus : CpuIdSet) : List UInt64 :=
  enabledCpus.ids.map frequency

/-- `_v / static_cast<float>(_unit)`. -/
def inUnit (unit : Int64) (v : UInt64) : Single := ⟨(v.toFloat32 / unit.toFloat32).toBits⟩

/-- `cpu_freq::at`, or nothing where `vector::at` throws `std::out_of_range`. -/
def valueAt (unit : Int64) (value : List UInt64) (idx : UInt64) : Option Single :=
  value[idx.toNat]?.map (inUnit unit)

/-! ## serialize_freqs -/

/-- `std::memcpy` to `result.data() + offset`. -/
def memcpy (result : Bytes) (offset : Nat) (source : Bytes) : Bytes :=
  result.take offset ++ source ++ result.drop (offset + source.length)

/-- The loop body. -/
def serializeCore (unit : Int64) (freq : List UInt64) (state : Bytes × Nat) (idx : UInt64) :
    Option (Bytes × Nat) :=
  (valueAt unit freq idx).map fun value =>
    let (result, offset) := state
    let result := memcpy result offset (leBytes 8 idx.toNat)
    let offset := offset + 8
    (memcpy result offset (leBytes 4 value.bits.toNat), offset + 4)

def serializeFreqs (unit : Int64) (enabledCpus : CpuIdSet) (freq : List UInt64) : Option Bytes :=
  let resultSize := enabledCpus.ids.length * (8 + 4)
  (enabledCpus.ids.foldlM (serializeCore unit freq) (List.replicate resultSize 0, 0)).map Prod.fst

/-! ## deserialize_freqs -/

structure CoreFreqSample where
  id : UInt64
  value : Single
  deriving DecidableEq, Repr

/-- The loop of both readers from this offset on. -/
def deserializeFrom (buffer : Bytes) (offset : Nat) : List CoreFreqSample :=
  if offset + 4 + 8 ≤ buffer.length then
    let id := UInt64.ofNat (leNat ((buffer.drop offset).take 8))
    let value := UInt32.ofNat (leNat ((buffer.drop (offset + 8)).take 4))
    ⟨id, ⟨value⟩⟩ :: deserializeFrom buffer (offset + 8 + 4)
  else []
termination_by buffer.length - offset

def deserializeFreqs (buffer : Bytes) : List CoreFreqSample := deserializeFrom buffer 0

/-! ## What the bytes say -/

/-- What a core takes in the buffer. -/
def CoreFreqSample.bytes (core : CoreFreqSample) : Bytes :=
  leBytes 8 core.id.toNat ++ leBytes 4 core.value.bits.toNat

/-- The enabled CPUs with the frequency recorded for each. -/
def frequencies (unit : Int64) (frequency : UInt64 → UInt64) (enabledCpus : CpuIdSet) :
    List CoreFreqSample :=
  enabledCpus.ids.map fun id => ⟨id, inUnit unit (frequency id)⟩

/-- What is recorded is written without fail and read back. -/
def RoundTrips (unit : Int64) (frequency : UInt64 → UInt64) (enabledCpus : CpuIdSet) : Prop :=
  ∃ buffer, serializeFreqs unit enabledCpus (record frequency enabledCpus) = some buffer ∧
    deserializeFreqs buffer = frequencies unit frequency enabledCpus

variable {unit : Int64} {enabledCpus : CpuIdSet} {frequency : UInt64 → UInt64}

@[simp] theorem CoreFreqSample.length_bytes (core : CoreFreqSample) : core.bytes.length = 12 := by
  rw [bytes, List.length_append, length_leBytes, length_leBytes]

theorem leNat_bytes_id (id : UInt64) : UInt64.ofNat (leNat (leBytes 8 id.toNat)) = id := by
  rw [leNat_leBytes id.toNat_lt, UInt64.ofNat_toNat]

theorem leNat_bytes_value (value : UInt32) :
    UInt32.ofNat (leNat (leBytes 4 value.toNat)) = value := by
  rw [leNat_leBytes value.toNat_lt, UInt32.ofNat_toNat]

/-- The readers give back the cores whose bytes stand in the buffer. -/
theorem deserializeFrom_flatMap (front : Bytes) (cores : List CoreFreqSample) :
    deserializeFrom (front ++ cores.flatMap CoreFreqSample.bytes) front.length = cores := by
  induction cores generalizing front with
  | nil =>
    rw [deserializeFrom, List.flatMap_nil, List.append_nil, if_neg (by omega)]
  | cons core cores ih =>
    have hlength := core.length_bytes
    have hdrop :
        ((front ++ (core :: cores).flatMap CoreFreqSample.bytes).drop front.length).take 8 =
          leBytes 8 core.id.toNat := by
      rw [List.drop_left, List.flatMap_cons, CoreFreqSample.bytes, List.append_assoc,
        List.take_left' (length_leBytes 8 _)]
    have hdrop' :
        ((front ++ (core :: cores).flatMap CoreFreqSample.bytes).drop (front.length + 8)).take 4 =
          leBytes 4 core.value.bits.toNat := by
      rw [← List.drop_drop, List.drop_left, List.flatMap_cons, CoreFreqSample.bytes,
        List.append_assoc, List.drop_left' (length_leBytes 8 _),
        List.take_left' (length_leBytes 4 _)]
    have hnext : front.length + 8 + 4 = (front ++ core.bytes).length := by
      rw [List.length_append, hlength]
    have hfits : front.length + 4 + 8 ≤
        (front ++ (core :: cores).flatMap CoreFreqSample.bytes).length := by
      rw [List.length_append, List.flatMap_cons, List.length_append, hlength]
      omega
    rw [deserializeFrom, if_pos hfits, hdrop, hdrop', leNat_bytes_id, leNat_bytes_value, hnext,
      List.flatMap_cons, ← List.append_assoc, ih]

/-- Writing behind what is written. -/
theorem memcpy_append (front source rest : Bytes) (old : Bytes)
    (hold : old.length = source.length) :
    memcpy (front ++ (old ++ rest)) front.length source = front ++ (source ++ rest) := by
  rw [memcpy, List.take_left, ← List.drop_drop, List.drop_left, ← hold, List.drop_left,
    List.append_assoc]

/-- A core is written over twelve bytes. -/
theorem serializeCore_eq (freq : List UInt64) (front old rest : Bytes) (hold : old.length = 12)
    (idx : UInt64) :
    serializeCore unit freq (front ++ (old ++ rest), front.length) idx =
      (valueAt unit freq idx).map fun value =>
        (front ++ CoreFreqSample.bytes ⟨idx, value⟩ ++ rest,
          (front ++ CoreFreqSample.bytes ⟨idx, value⟩).length) := by
  have hid : (old.take 8).length = (leBytes 8 idx.toNat).length := by
    rw [List.length_take, length_leBytes, hold]
    rfl
  have hsplit : old ++ rest = old.take 8 ++ (old.drop 8 ++ rest) := by
    rw [← List.append_assoc, List.take_append_drop]
  have hoffset : front.length + 8 = (front ++ leBytes 8 idx.toNat).length := by
    rw [List.length_append, length_leBytes]
  unfold serializeCore
  congr 1
  funext value
  have hvalue : (old.drop 8).length = (leBytes 4 value.bits.toNat).length := by
    rw [List.length_drop, length_leBytes, hold]
  dsimp only
  rw [hsplit, memcpy_append front _ _ _ hid, hoffset, ← List.append_assoc front,
    memcpy_append _ _ _ _ hvalue, CoreFreqSample.bytes, ← List.append_assoc, ← List.append_assoc]
  simp only [List.length_append, length_leBytes]

/-- The cores that the loop writes, or nothing where one of them has no value. -/
def coresOf (unit : Int64) (freq : List UInt64) (ids : List UInt64) :
    Option (List CoreFreqSample) :=
  ids.mapM fun id => (valueAt unit freq id).map (CoreFreqSample.mk id)

/-- The loop writes core behind core. -/
theorem foldlM_serializeCore (freq : List UInt64) (ids : List UInt64) (front : Bytes) :
    (ids.foldlM (serializeCore unit freq)
        (front ++ List.replicate (ids.length * (8 + 4)) 0, front.length)).map Prod.fst =
      (coresOf unit freq ids).map fun cores => front ++ cores.flatMap CoreFreqSample.bytes := by
  induction ids generalizing front with
  | nil => rfl
  | cons id ids ih =>
    have hroom : List.replicate ((id :: ids).length * (8 + 4)) (0 : UInt8) =
        List.replicate 12 0 ++ List.replicate (ids.length * (8 + 4)) 0 := by
      rw [List.replicate_append_replicate, List.length_cons]
      congr 1
      omega
    rw [List.foldlM_cons, hroom, serializeCore_eq freq front _ _ List.length_replicate, coresOf,
      List.mapM_cons]
    cases valueAt unit freq id with
    | none => rfl
    | some value =>
      have hrest := ih (front ++ CoreFreqSample.bytes ⟨id, value⟩)
      simp only [Option.map_some, Option.bind_eq_bind, Option.bind_some, hrest, coresOf]
      cases ids.mapM fun id => (valueAt unit freq id).map (CoreFreqSample.mk id) with
      | none => rfl
      | some cores => simp [List.append_assoc]

/-! ## Which sets -/

/-- The enabled CPUs are the first ones. -/
def FirstCpus (enabledCpus : CpuIdSet) : Prop :=
  ∀ id ∈ enabledCpus.ids, id.toNat < enabledCpus.ids.length

theorem getElem?_record (h : FirstCpus enabledCpus) (frequency : UInt64 → UInt64) {id : UInt64}
    (hid : id ∈ enabledCpus.ids) :
    (record frequency enabledCpus)[id.toNat]? = some (frequency id) := by
  have hsorted : (enabledCpus.ids.map UInt64.toNat).Pairwise (· < ·) := by
    rw [List.pairwise_map]
    exact enabledCpus.sorted.imp fun hlt => UInt64.lt_iff_toNat_lt.mp hlt
  have hbelow : ∀ n ∈ enabledCpus.ids.map UInt64.toNat,
      n < (enabledCpus.ids.map UInt64.toNat).length := by
    intro n hn
    obtain ⟨id', hid', rfl⟩ := List.mem_map.mp hn
    rw [List.length_map]
    exact h id' hid'
  have hlt := h id hid
  have hget := get_eq_of_pairwise_lt hsorted hbelow (i := id.toNat) (by rwa [List.length_map])
  rw [List.get_eq_getElem, List.getElem_map] at hget
  have hsame := UInt64.toNat_inj.mp hget
  rw [record, List.getElem?_map, List.getElem?_eq_getElem hlt, Option.map_some, hsame]

/-- A value that is written was there. -/
theorem lt_of_coresOf {freq ids : List UInt64} {cores : List CoreFreqSample}
    (h : coresOf unit freq ids = some cores) : ∀ id ∈ ids, id.toNat < freq.length := by
  induction ids generalizing cores with
  | nil => exact fun id hid => absurd hid List.not_mem_nil
  | cons id ids ih =>
    unfold coresOf at h
    rw [List.mapM_cons, Option.bind_eq_bind] at h
    obtain ⟨core, hcore, hrest⟩ := Option.bind_eq_some_iff.mp h
    obtain ⟨others, hothers, -⟩ := Option.bind_eq_some_iff.mp hrest
    obtain ⟨value, hvalue, -⟩ := Option.map_eq_some_iff.mp hcore
    obtain ⟨v, hv, -⟩ := Option.map_eq_some_iff.mp hvalue
    obtain ⟨hlt, -⟩ := List.getElem?_eq_some_iff.mp hv
    exact List.forall_mem_cons.mpr ⟨hlt, ih hothers⟩

theorem serializeFreqs_eq (unit : Int64) (enabledCpus : CpuIdSet) (freq : List UInt64) :
    serializeFreqs unit enabledCpus freq =
      (coresOf unit freq enabledCpus.ids).map (·.flatMap CoreFreqSample.bytes) :=
  foldlM_serializeCore freq enabledCpus.ids []

/-- `post_process` reads the value of a CPU at its offset among the enabled ones. -/
def directFrequencies (unit : Int64) (enabledCpus : CpuIdSet) (freq : List UInt64) :
    Option (List CoreFreqSample) :=
  enabledCpus.ids.zipIdx.mapM fun (id, offset) =>
    (freq[offset]?.map (inUnit unit)).map (CoreFreqSample.mk id)

/-- There every CPU gets what was recorded for it. -/
theorem directFrequencies_record (unit : Int64) (frequency : UInt64 → UInt64)
    (enabledCpus : CpuIdSet) :
    directFrequencies unit enabledCpus (record frequency enabledCpus) =
      some (frequencies unit frequency enabledCpus) := by
  have hvalues : ∀ entry ∈ enabledCpus.ids.zipIdx,
      ((record frequency enabledCpus)[entry.2]?.map (inUnit unit)).map
          (CoreFreqSample.mk entry.1) = some ⟨entry.1, inUnit unit (frequency entry.1)⟩ := by
    intro ⟨id, offset⟩ hentry
    have hid : enabledCpus.ids[offset]? = some id := List.mem_zipIdx_iff_getElem?.mp hentry
    rw [record, List.getElem?_map, hid]
    rfl
  have hfirsts := congrArg (List.map fun id => CoreFreqSample.mk id (inUnit unit (frequency id)))
    (List.zipIdx_map_fst 0 enabledCpus.ids)
  rw [List.map_map] at hfirsts
  rw [directFrequencies, mapM_eq_some_map hvalues, frequencies, ← hfirsts]
  rfl

/-- The bytes of `serialize_freqs` give back what was recorded exactly if the enabled CPUs are
the first ones, so that the id of a CPU is its position. -/
theorem roundTrips_iff_firstCpus (unit : Int64) (frequency : UInt64 → UInt64)
    (enabledCpus : CpuIdSet) :
    RoundTrips unit frequency enabledCpus ↔ FirstCpus enabledCpus := by
  unfold RoundTrips
  rw [serializeFreqs_eq]
  constructor
  · intro ⟨buffer, hbuffer, _⟩
    obtain ⟨cores, hcores, -⟩ := Option.map_eq_some_iff.mp hbuffer
    have hlt := lt_of_coresOf hcores
    rwa [record, List.length_map] at hlt
  · intro hfirst
    have hcores : coresOf unit (record frequency enabledCpus) enabledCpus.ids =
        some (frequencies unit frequency enabledCpus) := by
      refine mapM_eq_some_map fun id hid => ?_
      rw [valueAt, getElem?_record hfirst frequency hid, Option.map_some, Option.map_some]
    rw [hcores]
    exact ⟨_, rfl, deserializeFrom_flatMap [] _⟩

/-- CPU 3 alone. -/
def onlyThird : CpuIdSet := ⟨[3], List.pairwise_singleton _ 3⟩

theorem not_roundTrips_onlyThird : ¬ RoundTrips 1000000 (fun _ => 2400000000) onlyThird := by
  intro ⟨buffer, hbuffer, _⟩
  have hnone : serializeFreqs 1000000 onlyThird (record (fun _ => 2400000000) onlyThird) = none :=
    rfl
  rw [hnone] at hbuffer
  cases hbuffer

end CpuFreq
end Rocprofsys
