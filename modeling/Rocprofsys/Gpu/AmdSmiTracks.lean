import Rocprofsys.Gpu.AmdSmiCounters

namespace Rocprofsys
namespace Gpu
namespace AmdSmi

open Base TraceCache

/-! ## Counter tracks -/

namespace CounterTracks

variable {κ : Type} {tracks : CounterTracks κ} {idx : κ}

theorem existsAt_iff : tracks.existsAt idx = true ↔ tracks idx ≠ [] := by
  rw [existsAt, Bool.not_eq_true', List.isEmpty_eq_false_iff]

variable [DecidableEq κ]

theorem emplace_self (track : Track) : tracks.emplace idx track idx = tracks idx ++ [track] :=
  Function.update_self idx _ tracks

theorem emplace_of_ne {idx' : κ} (h : idx' ≠ idx) (track : Track) :
    tracks.emplace idx track idx' = tracks idx' :=
  Function.update_of_ne h _ tracks

theorem emplace_ne_nil {idx' : κ} (h : tracks idx' ≠ []) (track : Track) :
    tracks.emplace idx track idx' ≠ [] := by
  by_cases heq : idx' = idx
  · subst heq
    rw [emplace_self]
    exact List.append_ne_nil_of_left_ne_nil h _
  · rwa [emplace_of_ne heq]

theorem mem_emplace {idx' : κ} {track track' : Track}
    (h : track' ∈ tracks.emplace idx track idx') :
    track' ∈ tracks idx' ∨ idx' = idx ∧ track' = track := by
  by_cases heq : idx' = idx
  · subst heq
    rw [emplace_self, List.mem_append, List.mem_singleton] at h
    exact h.imp id fun h => ⟨rfl, h⟩
  · rw [emplace_of_ne heq] at h
    exact .inl h

end CounterTracks

/-! ## Slots of the cached path -/

/-- The XCP and the index that a metric's category leaves it. -/
def Indexed (device : Device) (metric : Metric) : Prop :=
  match metric.category with
  | .vcnActivity => metric.xcp.isNone = device.vcnIsDeviceLevelOnly ∧
      metric.xcp.getD 0 < 256 ∧ metric.index < 256
  | .jpegActivity => metric.xcp.isNone = device.jpegIsDeviceLevelOnly ∧
      metric.xcp.getD 0 < 256 ∧ metric.index < 256
  | .xgmiReadData => metric.xcp = none ∧ metric.index < 256
  | .xgmiWriteData => metric.xcp = none ∧ metric.index < 256
  | _ => metric.xcp = none ∧ metric.index = 0

theorem shiftLeft_or {a b k : Nat} (h : b < 2 ^ k) : a <<< k ||| b = a * 2 ^ k + b := by
  rw [← Nat.shiftLeft_add_eq_or_of_lt h, Nat.shiftLeft_eq]

theorem engineKey_eq {device xcp index : Nat} (hxcp : xcp < 256) (hindex : index < 256) :
    device <<< 16 ||| xcp <<< 8 ||| index = device * 2 ^ 16 + (xcp * 2 ^ 8 + index) := by
  have hlow : xcp <<< 8 ||| index = xcp * 2 ^ 8 + index := shiftLeft_or hindex
  rw [Nat.or_assoc, hlow, shiftLeft_or (by omega)]

theorem xgmiKey_eq (deviceId : UInt32) {index : Nat} (h : index < 256) :
    (deviceId <<< 8).toNat ||| index = deviceId.toNat % 2 ^ 24 * 2 ^ 8 + index := by
  have hhigh : (deviceId <<< 8).toNat = (deviceId.toNat % 2 ^ 24) <<< 8 := by
    rw [UInt32.toNat_shiftLeft]
    show deviceId.toNat <<< 8 % 2 ^ 32 = _
    rw [Nat.shiftLeft_eq, Nat.shiftLeft_eq]
    omega
  rw [hhigh, shiftLeft_or h]

/-- Two metrics of a device share no slot. -/
theorem slot_injective {device : Device} {m m' : Metric} (hm : Indexed device m)
    (hm' : Indexed device m') (h : slot device.id m = slot device.id m') : m = m' := by
  obtain ⟨category, xcp, index⟩ := m
  obtain ⟨category', xcp', index'⟩ := m'
  obtain ⟨hcategory, hkey⟩ := Prod.mk.inj h
  have hcat : category = category' := hcategory
  subst hcat
  have hengine {level : Bool} (hx : xcp.isNone = level ∧ xcp.getD 0 < 256 ∧ index < 256)
      (hx' : xcp'.isNone = level ∧ xcp'.getD 0 < 256 ∧ index' < 256)
      (hkey : device.id.toNat <<< 16 ||| xcp.getD 0 <<< 8 ||| index =
        device.id.toNat <<< 16 ||| xcp'.getD 0 <<< 8 ||| index') :
      (⟨category, xcp, index⟩ : Metric) = ⟨category, xcp', index'⟩ := by
    rw [engineKey_eq hx.2.1 hx.2.2, engineKey_eq hx'.2.1 hx'.2.2] at hkey
    have hindex : index = index' := by omega
    have hgetD : xcp.getD 0 = xcp'.getD 0 := by omega
    have hxcp : xcp = xcp' := by
      have hnone := hx.1.trans hx'.1.symm
      cases xcp with
      | none =>
        cases xcp' with
        | none => rfl
        | some x' => cases hnone
      | some x =>
        cases xcp' with
        | none => cases hnone
        | some x' => exact congrArg some hgetD
    rw [hxcp, hindex]
  have hxgmi (hx : xcp = none ∧ index < 256) (hx' : xcp' = none ∧ index' < 256)
      (hkey : (device.id <<< 8).toNat ||| index = (device.id <<< 8).toNat ||| index') :
      (⟨category, xcp, index⟩ : Metric) = ⟨category, xcp', index'⟩ := by
    rw [xgmiKey_eq _ hx.2, xgmiKey_eq _ hx'.2] at hkey
    have hindex : index = index' := by omega
    rw [hx.1, hx'.1, hindex]
  have hsingle (hx : xcp = none ∧ index = 0) (hx' : xcp' = none ∧ index' = 0) :
      (⟨category, xcp, index⟩ : Metric) = ⟨category, xcp', index'⟩ := by
    rw [hx.1, hx'.1, hx.2, hx'.2]
  cases category with
  | vcnActivity => exact hengine hm hm' hkey
  | jpegActivity => exact hengine hm hm' hkey
  | xgmiReadData => exact hxgmi hm hm' hkey
  | xgmiWriteData => exact hxgmi hm hm' hkey
  | _ => exact hsingle hm hm'

/-- Each track is one of its slot's metric, with the metric's unit. -/
def Named (device : Device) (tracks : CachedTracks) : Prop :=
  ∀ idx, ∀ track ∈ tracks idx, idx = slot device.id track.metric ∧
    track.unit = cachedUnit track.metric.category ∧ Indexed device track.metric

/-- The counter of the cached path for a metric's value. -/
def cachedCounter (timestamp : UInt64) (value : Metric × ℚ) : Counter :=
  ⟨⟨value.1, cachedUnit value.1.category⟩, timestamp, value.2⟩

section Named

variable {device : Device} {tracks : CachedTracks}

theorem named_empty : Named device CounterTracks.empty :=
  fun _ _ h => absurd h List.not_mem_nil

theorem Named.emplaceMetric (hnamed : Named device tracks) {metric : Metric}
    (hmetric : Indexed device metric) : Named device (emplaceMetric device.id tracks metric) := by
  intro idx track htrack
  rcases CounterTracks.mem_emplace htrack with hold | ⟨rfl, rfl⟩
  · exact hnamed idx track hold
  · exact ⟨rfl, rfl, hmetric⟩

theorem emplaceMetric_ne_nil (tracks : CachedTracks) (metric : Metric) :
    emplaceMetric device.id tracks metric (slot device.id metric) ≠ [] := by
  rw [emplaceMetric, CounterTracks.emplace_self]
  exact List.append_ne_nil_of_right_ne_nil _ (List.cons_ne_nil _ _)

/-- On a slot with a track, the counter is one of the slot's metric. -/
theorem Named.traceCounter_eq (hnamed : Named device tracks) {value : Metric × ℚ}
    (hvalue : Indexed device value.1) (hne : tracks (slot device.id value.1) ≠ [])
    (timestamp : UInt64) :
    traceCounter device.id timestamp tracks value = some (cachedCounter timestamp value) := by
  rw [traceCounter, CounterTracks.trackAt]
  cases htracks : tracks (slot device.id value.1) with
  | nil => exact absurd htracks hne
  | cons track rest =>
    obtain ⟨hslot, hunit, htrack⟩ := hnamed _ track (htracks ▸ List.mem_cons_self)
    have htrackEq : track = ⟨value.1, cachedUnit value.1.category⟩ := by
      rw [slot_injective hvalue htrack hslot, ← hunit]
    rw [htrackEq]
    rfl

theorem Named.insertValues_eq (timestamp : UInt64) {values : List (Metric × ℚ)} :
    ∀ {tracks : CachedTracks}, Named device tracks → (∀ value ∈ values, Indexed device value.1) →
      ∃ tracks', Named device tracks' ∧ (∀ idx, tracks idx ≠ [] → tracks' idx ≠ []) ∧
        insertValues device.id timestamp tracks values =
          some (tracks', values.map (cachedCounter timestamp)) := by
  induction values with
  | nil => exact fun {tracks} hnamed _ => ⟨tracks, hnamed, fun _ h => h, rfl⟩
  | cons value values ih =>
    intro tracks hnamed hvalues
    rw [List.forall_mem_cons] at hvalues
    obtain ⟨hvalue, hvalues⟩ := hvalues
    have hinsert : ∃ tracks', Named device tracks' ∧ (∀ idx, tracks idx ≠ [] → tracks' idx ≠ []) ∧
        insertValue device.id timestamp tracks value =
          some (tracks', cachedCounter timestamp value) := by
      rw [insertValue]
      by_cases hexists : tracks.existsAt (slot device.id value.1) = true
      · refine ⟨tracks, hnamed, fun _ h => h, ?_⟩
        rw [if_pos hexists, hnamed.traceCounter_eq hvalue (CounterTracks.existsAt_iff.mp hexists)]
        rfl
      · refine ⟨_, hnamed.emplaceMetric hvalue,
          fun idx h => CounterTracks.emplace_ne_nil h _, ?_⟩
        rw [if_neg hexists, (hnamed.emplaceMetric hvalue).traceCounter_eq hvalue
          (emplaceMetric_ne_nil tracks value.1)]
        rfl
    obtain ⟨tracks', hnamed', hkeeps, heq⟩ := hinsert
    obtain ⟨tracks'', hnamed'', hkeeps', heq'⟩ := ih hnamed' hvalues
    refine ⟨tracks'', hnamed'', fun idx h => hkeeps' idx (hkeeps idx h), ?_⟩
    rw [insertValues, heq, Option.bind_some, heq']
    rfl

end Named

end AmdSmi
end Gpu
end Rocprofsys
