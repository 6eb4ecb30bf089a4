import Rocprofsys.Gpu.GpuMetricsRoundTrip

namespace Rocprofsys
namespace Gpu

open Base Decoder

/-! ## Engines with more values than their count holds -/

/-- An engine of arrays that fit a byte each, with no XCP that is empty. -/
structure EngineFilled (activity : List UInt16) (busy : List (List UInt16)) : Prop where
  activity : activity.length < 256
  xcps : busy.length < 256
  sizes : ∀ xcp ∈ busy, xcp.length < 256
  nonempty : ∀ xcp ∈ busy, xcp ≠ []

/-- What comes back of an engine.  The count is taken modulo 256: as zero it hides the
engine, and otherwise it leaves the sizes more to read than there is. -/
def restoredEngine (isDeviceLevelOnly : Bool) (activity : List UInt16)
    (busy : List (List UInt16)) : Except Failure (List UInt16 × List (List UInt16)) :=
  if (dataFlat isDeviceLevelOnly activity busy).length < 256 then .ok (activity, busy)
  else if (dataFlat isDeviceLevelOnly activity busy).length % 256 = 0 then .ok ([], [])
  else .error .outOfRange

theorem splitXcps_of_lt {sizes : List UInt8} {flatData : List UInt16}
    (h : flatData.length < (sizes.map UInt8.toNat).sum) :
    splitXcps flatData sizes = .error .outOfRange := by
  induction sizes generalizing flatData with
  | nil => exact absurd h (Nat.not_lt_zero _)
  | cons size sizes ih =>
    rw [List.map_cons, List.sum_cons] at h
    rw [splitXcps]
    by_cases hle : size.toNat ≤ flatData.length
    · have hrest : (flatData.drop size.toNat).length < (sizes.map UInt8.toNat).sum := by
        rw [List.length_drop]
        omega
      rw [if_pos hle, ih hrest]
      rfl
    · rw [if_neg hle]

theorem sum_sizeByte {busy : List (List UInt16)} (h : ∀ xcp ∈ busy, xcp.length < 256) :
    ((busy.map sizeByte).map UInt8.toNat).sum = busy.flatten.length := by
  rw [List.map_map, List.length_flatten]
  congr 1
  exact List.map_congr_left fun xcp hxcp => toNat_sizeByte_of_lt (h xcp hxcp)

section Engine

variable {isEnabled isDeviceLevelOnly : Bool} {activity : List UInt16} {busy : List (List UInt16)}

theorem EngineFilled.fits (hfilled : EngineFilled activity busy)
    (hvalues : busy.flatten.length < 256) : EngineFits activity busy := by
  refine ⟨hfilled.activity, hfilled.xcps, hvalues, fun hflat => ?_⟩
  cases busy with
  | nil => rfl
  | cons xcp busy =>
    rw [List.flatten_cons, List.append_eq_nil_iff] at hflat
    exact absurd hflat.1 (hfilled.nonempty xcp List.mem_cons_self)

/-- The first values of an engine, as many as the count says. -/
theorem reads_uint16Vector_take (vec : List UInt16) :
    Reads (deserializeUInt16Vector (sizeByte vec)) (serializeUInt16Vector vec (sizeByte vec))
      (vec.take (vec.length % 256)) := by
  have hlength : (vec.take (vec.length % 256)).length = vec.length % 256 := by
    rw [List.length_take]
    exact Nat.min_eq_left (Nat.mod_le _ _)
  have hreads := reads_times reads_uint16 (vec.take (vec.length % 256))
  rw [hlength] at hreads
  rwa [deserializeUInt16Vector, serializeUInt16Vector, toNat_sizeByte]

theorem ends_engine (hagrees : EngineAgrees isEnabled isDeviceLevelOnly activity busy)
    (hfilled : EngineFilled activity busy) :
    let flat := dataFlat isDeviceLevelOnly activity busy
    Ends (deserializeEngine isEnabled isDeviceLevelOnly (sizeByte flat)
        (xcpSizes isDeviceLevelOnly busy) [] [])
      (if isEnabled && sizeByte flat > 0 then serializeUInt16Vector flat (sizeByte flat) else [])
      (restoredEngine isDeviceLevelOnly activity busy) := by
  intro flat
  show Ends _ _ (if flat.length < 256 then _ else _)
  by_cases hlt : flat.length < 256
  · have hvalues : busy.flatten.length < 256 := by
      cases isDeviceLevelOnly with
      | true =>
        have hbusy : busy = [] := by_contra fun hne => absurd (hagrees.2 hne).2 (by decide)
        rw [hbusy]
        exact Nat.zero_lt_succ 255
      | false => exact hlt
    rw [if_pos hlt]
    exact (reads_engine hagrees (hfilled.fits hvalues)).ends
  · -- only the XCPs together can have so many values
    have hlevel : isDeviceLevelOnly = false := by
      cases isDeviceLevelOnly with
      | true => exact absurd hfilled.activity hlt
      | false => rfl
    subst hlevel
    have hne : busy ≠ [] := by
      intro heq
      subst heq
      exact hlt (Nat.zero_lt_succ 255)
    have henabled : isEnabled = true := (hagrees.2 hne).1
    subst henabled
    rw [if_neg hlt, deserializeEngine]
    by_cases hmod : flat.length % 256 = 0
    · have hcount : sizeByte flat = 0 := by
        rw [← UInt8.toNat_inj, toNat_sizeByte, hmod]
        rfl
      rw [if_pos hmod, hcount]
      exact (reads_pure _).ends
    · have hcount : (true && decide (sizeByte flat > 0)) = true := by
        rw [Bool.true_and, decide_eq_true_eq]
        show 0 < sizeByte flat
        rw [UInt8.lt_iff_toNat_lt, toNat_sizeByte]
        exact Nat.pos_of_ne_zero hmod
      have hshort : (flat.take (flat.length % 256)).length <
          ((busy.map sizeByte).map UInt8.toNat).sum := by
        rw [sum_sizeByte hfilled.sizes, List.length_take]
        show min _ _ < flat.length
        omega
      rw [if_neg hmod, if_pos hcount, if_pos hcount]
      have hends := (reads_uint16Vector_take flat).ends.bind_of_nil
        fun flatData _ => (ends_ofExcept (splitXcps flatData (busy.map sizeByte))).bind_of_nil
          fun xcps _ => (reads_pure (([] : List UInt16), [] ++ xcps)).ends
      rw [Except.bind, splitXcps_of_lt hshort] at hends
      exact hends

end Engine

/-! ## Both engines -/

section Sections

variable {metrics : GpuMetrics} {capabilities : GpuMetricsCapabilities}
  {settings : GpuMetricsSettings}

/-- The engines of a header as they come back. -/
def restoredEngines (metrics : GpuMetrics) (capabilities : GpuMetricsCapabilities) :
    Except Failure GpuMetrics :=
  (restoredEngine capabilities.vcnIsDeviceLevelOnly metrics.vcnActivity metrics.vcnBusy).bind
    fun vcn => (restoredEngine capabilities.jpegIsDeviceLevelOnly metrics.jpegActivity
      metrics.jpegBusy).bind fun jpeg =>
        .ok { vcnActivity := vcn.1, vcnBusy := vcn.2, jpegActivity := jpeg.1, jpegBusy := jpeg.2 }

/-- With the engines alone, what comes back is what comes back of each. -/
theorem deserialize_engines (hagrees : Agrees metrics capabilities settings)
    (hxgmi : settings.xgmi = false) (hpcie : settings.pcie = false)
    (hvcn : EngineFilled metrics.vcnActivity metrics.vcnBusy)
    (hjpeg : EngineFilled metrics.jpegActivity metrics.jpegBusy) :
    deserializeGpuMetrics (serializeGpuMetrics metrics capabilities settings) {} settings =
      (restoredEngines metrics capabilities).map fun result => (result, capabilities) := by
  have hvcnEnds := ends_engine hagrees.vcn hvcn
  have hjpegEnds := ends_engine hagrees.jpeg hjpeg
  have hends : Ends (do
      let header ← deserializeHeader
      let result ← deserializeSections settings {} header
      return (result, header.capabilities))
      (serializeGpuMetrics metrics capabilities settings)
      ((restoredEngines metrics capabilities).bind fun result => .ok (result, capabilities)) := by
    simp only [serializeGpuMetrics, hxgmi, hpcie, Bool.false_eq_true, if_false, List.append_nil,
      List.append_assoc]
    refine (reads_header (headerOf metrics capabilities)).bind_ends
      (Ends.bind_of_nil ?_ fun _ _ => (reads_pure _).ends)
    refine (reads_sizes (xcpSizes_length_lt _ hvcn.xcps)).bind_ends
      ((reads_sizes (xcpSizes_length_lt _ hjpeg.xcps)).bind_ends
        (hvcnEnds.bind fun vcn _ => hjpegEnds.bind_of_nil fun jpeg _ => ?_))
    rw [hxgmi, hpcie]
    exact (reads_pure _).ends
  have hne : (serializeGpuMetrics metrics capabilities settings).isEmpty = false := rfl
  have hrun := hends []
  rw [List.append_nil] at hrun
  rw [deserializeGpuMetrics, hne, if_neg (by decide)]
  simp only [hrun]
  cases restoredEngines metrics capabilities <;> rfl

/-! ## The engines beside the links -/

/-- The link sections leave the engines' fields alone. -/
theorem yields_links (settings : GpuMetricsSettings) (header : Header) (result : GpuMetrics) :
    Yields (do
      let result ← deserializeXgmi settings.xgmi header result
      deserializePcie settings.pcie result) fun read =>
        (read.vcnActivity, read.vcnBusy) = (result.vcnActivity, result.vcnBusy) ∧
        (read.jpegActivity, read.jpegBusy) = (result.jpegActivity, result.jpegBusy) := by
  have hxgmi : Yields (deserializeXgmi settings.xgmi header result) fun read =>
      (read.vcnActivity, read.vcnBusy) = (result.vcnActivity, result.vcnBusy) ∧
      (read.jpegActivity, read.jpegBusy) = (result.jpegActivity, result.jpegBusy) := by
    rw [deserializeXgmi]
    split
    · exact (yields_true _).bind fun _ _ => (yields_true _).bind fun _ _ =>
        (yields_true _).bind fun _ _ => (yields_true _).bind fun _ _ => yields_pure ⟨rfl, rfl⟩
    · exact yields_pure ⟨rfl, rfl⟩
  refine hxgmi.bind fun read hread => ?_
  rw [deserializePcie]
  split
  · exact (yields_true _).bind fun _ _ => (yields_true _).bind fun _ _ =>
      (yields_true _).bind fun _ _ => (yields_true _).bind fun _ _ => yields_pure hread
  · exact yields_pure hread

theorem exists_of_map_eq_ok {ε α β : Type} {r : Except ε α} {f : α → β} {b : β}
    (h : r.map f = .ok b) : ∃ a, r = .ok a ∧ f a = b := by
  cases r with
  | error e => cases h
  | ok a => exact ⟨a, rfl, Except.ok.inj h⟩

/-- What comes back with the links is, for each engine, what comes back of it. -/
theorem engines_of_deserialize (hagrees : Agrees metrics capabilities settings)
    (hvcn : EngineFilled metrics.vcnActivity metrics.vcnBusy)
    (hjpeg : EngineFilled metrics.jpegActivity metrics.jpegBusy) {result : GpuMetrics}
    {restored : GpuMetricsCapabilities}
    (h : deserializeGpuMetrics (serializeGpuMetrics metrics capabilities settings) {} settings =
      .ok (result, restored)) :
    restoredEngine capabilities.vcnIsDeviceLevelOnly metrics.vcnActivity metrics.vcnBusy =
        .ok (result.vcnActivity, result.vcnBusy) ∧
      restoredEngine capabilities.jpegIsDeviceLevelOnly metrics.jpegActivity metrics.jpegBusy =
        .ok (result.jpegActivity, result.jpegBusy) := by
  have hyields : YieldsOn (do
      let header ← deserializeHeader
      let result ← deserializeSections settings {} header
      return (result, header.capabilities))
      (serializeGpuMetrics metrics capabilities settings) fun loaded =>
        restoredEngine capabilities.vcnIsDeviceLevelOnly metrics.vcnActivity metrics.vcnBusy =
          .ok (loaded.1.vcnActivity, loaded.1.vcnBusy) ∧
        restoredEngine capabilities.jpegIsDeviceLevelOnly metrics.jpegActivity metrics.jpegBusy =
          .ok (loaded.1.jpegActivity, loaded.1.jpegBusy) := by
    simp only [serializeGpuMetrics, List.append_assoc]
    refine (reads_header (headerOf metrics capabilities)).ends.yieldsOn_bind
      fun header hheader => ?_
    cases hheader
    refine YieldsOn.bind ?_ fun result hresult => yields_pure hresult
    refine (reads_sizes (xcpSizes_length_lt _ hvcn.xcps)).ends.yieldsOn_bind fun sizes hsizes => ?_
    cases hsizes
    refine (reads_sizes (xcpSizes_length_lt _ hjpeg.xcps)).ends.yieldsOn_bind fun sizes hsizes => ?_
    cases hsizes
    refine (ends_engine hagrees.vcn hvcn).yieldsOn_bind fun vcn hvcnBack => ?_
    refine (ends_engine hagrees.jpeg hjpeg).yieldsOn_bind fun jpeg hjpegBack => ?_
    refine ((yields_links settings _ _).mono fun read hread => ?_).yieldsOn _
    rw [hvcnBack, hjpegBack, hread.1, hread.2]
    exact ⟨rfl, rfl⟩
  have hne : (serializeGpuMetrics metrics capabilities settings).isEmpty = false := rfl
  rw [deserializeGpuMetrics, hne, if_neg (by decide),
    ← List.append_nil (serializeGpuMetrics metrics capabilities settings)] at h
  obtain ⟨loaded, hrun, heq⟩ := exists_of_map_eq_ok h
  have hresult := hyields [] loaded.1 loaded.2 hrun
  rw [heq] at hresult
  exact hresult

end Sections

end Gpu
end Rocprofsys
