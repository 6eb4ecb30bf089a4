import Rocprofsys.TraceCache.SampleType

namespace Rocprofsys
namespace TraceCache

open Base

/-! ## The ten sample types

The field lists of one type agree when reading consumes what writing produced,
when the sizes add up to the bytes written, and when the cursor moves as the
layout says. -/

namespace KernelDispatchSample

theorem deserialize_serialize (item : KernelDispatchSample) (limit : Nat) (rest : Bytes) :
    deserialize.run limit (item.serialize ++ rest) = .ok (item, rest) := by
  rw [serialize, deserialize]
  simp only [storeValues_cons, storeValues_nil, List.append_assoc, run_parse_scalar]
  rfl

theorem getSize_eq_length (item : KernelDispatchSample) :
    item.getSize = item.serialize.length % sizeLimit := by
  refine getSizes_eq_length ?_
  simp [getSize_scalar]

theorem deserialize_follows : deserialize.Follows layout := by
  unfold deserialize layout
  repeat refine Reader.Follows.bind_cons Supported.follows fun _ => ?_
  exact Reader.follows_pure _

end KernelDispatchSample

namespace ScratchMemorySample

theorem deserialize_serialize (item : ScratchMemorySample) (limit : Nat) (rest : Bytes) :
    deserialize.run limit (item.serialize ++ rest) = .ok (item, rest) := by
  rw [serialize, deserialize]
  simp only [storeValues_cons, storeValues_nil, List.append_assoc, run_parse_scalar]
  rfl

theorem getSize_eq_length (item : ScratchMemorySample) :
    item.getSize = item.serialize.length % sizeLimit := by
  refine getSizes_eq_length ?_
  simp [getSize_scalar]

theorem deserialize_follows : deserialize.Follows layout := by
  unfold deserialize layout
  repeat refine Reader.Follows.bind_cons Supported.follows fun _ => ?_
  exact Reader.follows_pure _

end ScratchMemorySample

namespace MemoryCopySample

theorem deserialize_serialize (item : MemoryCopySample) (limit : Nat) (rest : Bytes) :
    deserialize.run limit (item.serialize ++ rest) = .ok (item, rest) := by
  rw [serialize, deserialize]
  simp only [storeValues_cons, storeValues_nil, List.append_assoc, run_parse_scalar]
  rfl

theorem getSize_eq_length (item : MemoryCopySample) :
    item.getSize = item.serialize.length % sizeLimit := by
  refine getSizes_eq_length ?_
  simp [getSize_scalar]

theorem deserialize_follows : deserialize.Follows layout := by
  unfold deserialize layout
  repeat refine Reader.Follows.bind_cons Supported.follows fun _ => ?_
  exact Reader.follows_pure _

end MemoryCopySample

namespace MemoryAllocateSample

theorem deserialize_serialize (item : MemoryAllocateSample) (limit : Nat) (rest : Bytes) :
    deserialize.run limit (item.serialize ++ rest) = .ok (item, rest) := by
  rw [serialize, deserialize]
  simp only [storeValues_cons, storeValues_nil, List.append_assoc, run_parse_scalar]
  rfl

theorem getSize_eq_length (item : MemoryAllocateSample) :
    item.getSize = item.serialize.length % sizeLimit := by
  refine getSizes_eq_length ?_
  simp [getSize_scalar]

theorem deserialize_follows : deserialize.Follows layout := by
  unfold deserialize layout
  repeat refine Reader.Follows.bind_cons Supported.follows fun _ => ?_
  exact Reader.follows_pure _

end MemoryAllocateSample

namespace RegionSample

theorem deserialize_serialize {item : RegionSample}
    (h : ∀ value ∈ item.containers, value.length < sizeLimit) (limit : Nat) (rest : Bytes) :
    deserialize.run limit (item.serialize ++ rest) = .ok (item, rest) := by
  simp only [containers, List.forall_mem_cons] at h
  rw [serialize, deserialize]
  simp only [storeValues_cons, storeValues_nil, List.append_assoc, run_parse_scalar,
    run_parse_string, h]
  rfl

theorem getSize_eq_length {item : RegionSample}
    (h : ∀ value ∈ item.containers, value.length < sizeLimit) :
    item.getSize = item.serialize.length % sizeLimit := by
  simp only [containers, List.forall_mem_cons] at h
  refine getSizes_eq_length ?_
  simp [getSize_scalar, getSize_string, h]

theorem deserialize_follows : deserialize.Follows layout := by
  unfold deserialize layout
  repeat refine Reader.Follows.bind_cons Supported.follows fun _ => ?_
  exact Reader.follows_pure _

end RegionSample

namespace InTimeSample

theorem deserialize_serialize {item : InTimeSample}
    (h : ∀ value ∈ item.containers, value.length < sizeLimit) (limit : Nat) (rest : Bytes) :
    deserialize.run limit (item.serialize ++ rest) = .ok (item, rest) := by
  simp only [containers, List.forall_mem_cons] at h
  rw [serialize, deserialize]
  simp only [storeValues_cons, storeValues_nil, List.append_assoc, run_parse_scalar,
    run_parse_string, h]
  rfl

theorem getSize_eq_length {item : InTimeSample}
    (h : ∀ value ∈ item.containers, value.length < sizeLimit) :
    item.getSize = item.serialize.length % sizeLimit := by
  simp only [containers, List.forall_mem_cons] at h
  refine getSizes_eq_length ?_
  simp [getSize_scalar, getSize_string, h]

theorem deserialize_follows : deserialize.Follows layout := by
  unfold deserialize layout
  repeat refine Reader.Follows.bind_cons Supported.follows fun _ => ?_
  exact Reader.follows_pure _

end InTimeSample

namespace PmcEventWithSample

theorem deserialize_serialize {item : PmcEventWithSample}
    (h : ∀ value ∈ item.containers, value.length < sizeLimit) (limit : Nat) (rest : Bytes) :
    deserialize.run limit (item.serialize ++ rest) = .ok (item, rest) := by
  simp only [containers, List.forall_mem_cons] at h
  rw [serialize, deserialize]
  simp only [storeValues_cons, storeValues_nil, List.append_assoc, run_parse_scalar,
    run_parse_string, h]
  rfl

theorem getSize_eq_length {item : PmcEventWithSample}
    (h : ∀ value ∈ item.containers, value.length < sizeLimit) :
    item.getSize = item.serialize.length % sizeLimit := by
  simp only [containers, List.forall_mem_cons] at h
  refine getSizes_eq_length ?_
  simp [getSize_scalar, getSize_string, h]

theorem deserialize_follows : deserialize.Follows layout := by
  unfold deserialize layout
  repeat refine Reader.Follows.bind_cons Supported.follows fun _ => ?_
  exact Reader.follows_pure _

end PmcEventWithSample

namespace AmdSmiSample

theorem deserialize_serialize {item : AmdSmiSample}
    (h : ∀ value ∈ item.containers, value.length < sizeLimit) {limit : Nat}
    (hlimit : item.gpuActivity.elements.length ≤ limit) (rest : Bytes) :
    deserialize.run limit (item.serialize ++ rest) = .ok (item, rest) := by
  simp only [containers, List.forall_mem_cons] at h
  rw [serialize, deserialize]
  simp only [storeValues_cons, storeValues_nil, List.append_assoc, run_parse_scalar,
    run_parse_vector, h, hlimit]
  rfl

theorem getSize_eq_length {item : AmdSmiSample}
    (h : ∀ value ∈ item.containers, value.length < sizeLimit) :
    item.getSize = item.serialize.length % sizeLimit := by
  simp only [containers, List.forall_mem_cons] at h
  refine getSizes_eq_length ?_
  simp [getSize_scalar, getSize_vector, h]

theorem deserialize_follows : deserialize.Follows layout := by
  unfold deserialize layout
  repeat refine Reader.Follows.bind_cons Supported.follows fun _ => ?_
  exact Reader.follows_pure _

end AmdSmiSample

namespace CpuFreqSample

theorem deserialize_serialize {item : CpuFreqSample}
    (h : ∀ value ∈ item.containers, value.length < sizeLimit) {limit : Nat}
    (hlimit : item.freqs.elements.length ≤ limit) (rest : Bytes) :
    deserialize.run limit (item.serialize ++ rest) = .ok (item, rest) := by
  simp only [containers, List.forall_mem_cons] at h
  rw [serialize, deserialize]
  simp only [storeValues_cons, storeValues_nil, List.append_assoc, run_parse_scalar,
    run_parse_vector, h, hlimit]
  rfl

theorem getSize_eq_length {item : CpuFreqSample}
    (h : ∀ value ∈ item.containers, value.length < sizeLimit) :
    item.getSize = item.serialize.length % sizeLimit := by
  simp only [containers, List.forall_mem_cons] at h
  refine getSizes_eq_length ?_
  simp [getSize_scalar, getSize_vector, h]

theorem deserialize_follows : deserialize.Follows layout := by
  unfold deserialize layout
  repeat refine Reader.Follows.bind_cons Supported.follows fun _ => ?_
  exact Reader.follows_pure _

end CpuFreqSample

namespace BacktraceRegionSample

theorem deserialize_serialize {item : BacktraceRegionSample}
    (h : ∀ value ∈ item.containers, value.length < sizeLimit) (limit : Nat) (rest : Bytes) :
    deserialize.run limit (item.serialize ++ rest) = .ok (item, rest) := by
  simp only [containers, List.forall_mem_cons] at h
  rw [serialize, deserialize]
  simp only [storeValues_cons, storeValues_nil, List.append_assoc, run_parse_scalar,
    run_parse_string, h]
  rfl

theorem getSize_eq_length {item : BacktraceRegionSample}
    (h : ∀ value ∈ item.containers, value.length < sizeLimit) :
    item.getSize = item.serialize.length % sizeLimit := by
  simp only [containers, List.forall_mem_cons] at h
  refine getSizes_eq_length ?_
  simp [getSize_scalar, getSize_string, h]

theorem deserialize_follows : deserialize.Follows layout := by
  unfold deserialize layout
  repeat refine Reader.Follows.bind_cons Supported.follows fun _ => ?_
  exact Reader.follows_pure _

end BacktraceRegionSample

/-! ## Any sample -/

namespace Sample

/-- Every string and vector of the sample has a length a `size_t` can hold. -/
def Bounded (v : Sample) : Prop := ∀ value ∈ v.containers, value.length < sizeLimit

theorem getSize_eq_mod {v : Sample} (h : v.Bounded) :
    v.getSize = v.serialize.length % sizeLimit := by
  cases v with
  | kernelDispatch item => exact item.getSize_eq_length
  | scratchMemory item => exact item.getSize_eq_length
  | memoryCopy item => exact item.getSize_eq_length
  | memoryAllocate item => exact item.getSize_eq_length
  | region item => exact item.getSize_eq_length h
  | inTime item => exact item.getSize_eq_length h
  | pmcEventWith item => exact item.getSize_eq_length h
  | amdSmi item => exact item.getSize_eq_length h
  | cpuFreq item => exact item.getSize_eq_length h
  | backtraceRegion item => exact item.getSize_eq_length h

theorem getSize_eq_length {v : Sample} (h : v.Bounded) (hlen : v.serialize.length < sizeLimit) :
    v.getSize = v.serialize.length := by
  rw [getSize_eq_mod h, Nat.mod_eq_of_lt hlen]

/-- The allocator grants the elements of the sample's vector, if it has one. -/
def Granted (limit : Nat) : Sample → Prop
  | amdSmi item => item.gpuActivity.elements.length ≤ limit
  | cpuFreq item => item.freqs.elements.length ≤ limit
  | _ => True

/-- The reader registered for a sample's type gives the sample back. -/
theorem deserialize_serialize {v : Sample} (h : v.Bounded) :
    ∃ p, deserialize v.typeIdentifier = some p ∧
      ∀ limit, v.Granted limit → ∀ rest, p.run limit (v.serialize ++ rest) = .ok (v, rest) := by
  cases v with
  | kernelDispatch item =>
    exact ⟨_, rfl, fun limit hlimit rest => by
      rw [Reader.run_map, serialize, item.deserialize_serialize]; rfl⟩
  | scratchMemory item =>
    exact ⟨_, rfl, fun limit hlimit rest => by
      rw [Reader.run_map, serialize, item.deserialize_serialize]; rfl⟩
  | memoryCopy item =>
    exact ⟨_, rfl, fun limit hlimit rest => by
      rw [Reader.run_map, serialize, item.deserialize_serialize]; rfl⟩
  | memoryAllocate item =>
    exact ⟨_, rfl, fun limit hlimit rest => by
      rw [Reader.run_map, serialize, item.deserialize_serialize]; rfl⟩
  | region item =>
    exact ⟨_, rfl, fun limit hlimit rest => by
      rw [Reader.run_map, serialize, item.deserialize_serialize h]; rfl⟩
  | inTime item =>
    exact ⟨_, rfl, fun limit hlimit rest => by
      rw [Reader.run_map, serialize, item.deserialize_serialize h]; rfl⟩
  | pmcEventWith item =>
    exact ⟨_, rfl, fun limit hlimit rest => by
      rw [Reader.run_map, serialize, item.deserialize_serialize h]; rfl⟩
  | amdSmi item =>
    exact ⟨_, rfl, fun limit hlimit rest => by
      rw [Reader.run_map, serialize, item.deserialize_serialize h hlimit]; rfl⟩
  | cpuFreq item =>
    exact ⟨_, rfl, fun limit hlimit rest => by
      rw [Reader.run_map, serialize, item.deserialize_serialize h hlimit]; rfl⟩
  | backtraceRegion item =>
    exact ⟨_, rfl, fun limit hlimit rest => by
      rw [Reader.run_map, serialize, item.deserialize_serialize h]; rfl⟩

end Sample

/-- The reader registered under a type moves as that type's layout says. -/
theorem deserialize_follows {t : TypeIdentifier} {p : Reader Sample}
    (h : deserialize t = some p) : p.Follows (layout t) := by
  cases t <;> cases h
  · exact InTimeSample.deserialize_follows.map _
  · exact PmcEventWithSample.deserialize_follows.map _
  · exact RegionSample.deserialize_follows.map _
  · exact KernelDispatchSample.deserialize_follows.map _
  · exact MemoryCopySample.deserialize_follows.map _
  · exact MemoryAllocateSample.deserialize_follows.map _
  · exact AmdSmiSample.deserialize_follows.map _
  · exact CpuFreqSample.deserialize_follows.map _
  · exact BacktraceRegionSample.deserialize_follows.map _
  · exact ScratchMemorySample.deserialize_follows.map _

/-- A region with the same text as its name and its call stack. -/
def doubledRegion (text : Bytes) : Sample := .region ⟨0, text, 0, 0, 0, 0, text, [], []⟩

theorem getSize_doubledRegion_ne {text : Bytes} (hlow : 2 ^ 63 ≤ text.length)
    (hhigh : text.length < sizeLimit) :
    (doubledRegion text).Bounded ∧
      (doubledRegion text).getSize ≠ (doubledRegion text).serialize.length := by
  have hbounded : (doubledRegion text).Bounded := by
    have hnil : ([] : Bytes).length < sizeLimit := by decide
    intro value hvalue
    simp only [doubledRegion, Sample.containers, RegionSample.containers, List.mem_cons,
      List.not_mem_nil, or_false] at hvalue
    rcases hvalue with rfl | rfl | rfl | rfl <;> assumption
  refine ⟨hbounded, fun heq => ?_⟩
  have hmod := Sample.getSize_eq_mod hbounded
  have hlen : 2 * text.length ≤ (doubledRegion text).serialize.length := by
    have hstore : (storeValue text).length = (storeContainer text).length := rfl
    rw [storeContainer_eq hhigh, List.length_append] at hstore
    simp only [doubledRegion, Sample.serialize, RegionSample.serialize, storeValues_cons,
      storeValues_nil, List.length_append]
    omega
  have hlt : (doubledRegion text).getSize < sizeLimit := by
    rw [hmod]
    exact Nat.mod_lt _ (by decide)
  have hlimit : sizeLimit = 2 * 2 ^ 63 := by decide
  omega

end TraceCache
end Rocprofsys
