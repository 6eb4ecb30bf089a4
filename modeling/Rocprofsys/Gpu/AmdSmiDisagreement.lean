import Rocprofsys.Gpu.AmdSmiAgreement

namespace Rocprofsys
namespace Gpu
namespace AmdSmi

open Base

/-! ## The reports of both paths, reading by reading -/

namespace Session

variable (session : Session)

def directReports (layout : List Metric) (reading : Reading) :
    List (Metric × String × UInt64 × ℚ) :=
  ((session.directCounters reading layout).getD []).map Counter.report

def cachedReports (reading : Reading) : List (Metric × String × UInt64 × ℚ) :=
  (((session.cachedValues reading).getD []).map (cachedCounter reading.timestamp)).map
    Counter.report

/-- Both paths finish, and the reports of the stored readings are the same. -/
structure Compared (readings : List Reading) : Prop where
  direct : ∀ reading ∈ readings.filter session.isStored,
    (session.directCounters reading (session.layout readings)).isSome
  cached : ∀ reading ∈ readings.filter session.isStored, (session.cachedValues reading).isSome
  perm : ((readings.filter session.isStored).flatMap
    (session.directReports (session.layout readings))).Perm
      ((readings.filter session.isStored).flatMap session.cachedReports)

variable {session} {readings : List Reading}

theorem Agree.compared (h : session.Agree readings) : session.Compared readings := by
  obtain ⟨direct, cached, hdirect, hcached, hperm⟩ := h
  obtain ⟨hsome, rfl⟩ := direct_eq_some_iff.mp hdirect
  obtain ⟨hsome', rfl⟩ := session.cached_eq_some_iff.mp hcached
  have hskip : ∀ reading ∈ readings, session.isStored reading = false →
      (session.directCounters reading (session.layout readings)).getD [] = [] := by
    intro reading _ hstored
    rw [directCounters_of_nil (fun _ => session.metricsOf_of_not_stored hstored)]
    rfl
  rw [← flatMap_filter_of_nil hskip, List.map_flatMap, List.map_flatMap] at hperm
  exact ⟨fun reading hmem => hsome reading (List.mem_filter.mp hmem).1, hsome', hperm⟩

namespace Compared

variable (h : session.Compared readings)
include h

/-- A sum over the reports is the same on both paths. -/
theorem sum_eq {M : Type} [AddCommMonoid M] (weight : Metric × String × UInt64 × ℚ → M) :
    ((readings.filter session.isStored).map fun reading =>
      ((session.cachedReports reading).map weight).sum).sum =
    ((readings.filter session.isStored).map fun reading =>
      ((session.directReports (session.layout readings) reading).map weight).sum).sum := by
  rw [← sum_flatMap, ← sum_flatMap]
  exact (h.perm.map weight).sum_eq.symm

/-- The direct path reports each value of the cached path, for a reading of the same time
in the lifetime. -/
theorem exists_direct {reading : Reading} (hmem : reading ∈ readings.filter session.isStored)
    {value : Metric × ℚ} (hvalue : value ∈ (session.cachedValues reading).getD []) :
    ∃ reading' ∈ readings.filter session.isStored,
      session.isValidAt reading'.timestamp = true ∧ reading'.timestamp = reading.timestamp ∧
      value ∈ (session.layout readings).zip (session.values reading') ∧
      unitSymbol (cachedUnit value.1.category) = unitSymbol (directUnit value.1.category) := by
  have hreport : (cachedCounter reading.timestamp value).report ∈
      (readings.filter session.isStored).flatMap session.cachedReports :=
    List.mem_flatMap.mpr ⟨reading, hmem,
      List.mem_map_of_mem (List.mem_map_of_mem hvalue)⟩
  obtain ⟨reading', hmem', hdirect⟩ := List.mem_flatMap.mp (h.perm.mem_iff.mpr hreport)
  rw [directReports, directCounters] at hdirect
  by_cases hvalid : session.isValidAt reading'.timestamp = true
  · rw [if_pos hvalid] at hdirect
    split at hdirect
    · rw [Option.getD_some, List.map_map] at hdirect
      obtain ⟨value', hvalue', heq⟩ := List.mem_map.mp hdirect
      obtain ⟨hmetric, hrest⟩ := Prod.mk.inj heq
      obtain ⟨hunit, hrest⟩ := Prod.mk.inj hrest
      obtain ⟨htimestamp, hnumber⟩ := Prod.mk.inj hrest
      have hpair : value' = value := Prod.ext hmetric hnumber
      subst hpair
      exact ⟨reading', hmem', hvalid, htimestamp, hvalue', hunit.symm⟩
    · exact absurd hdirect List.not_mem_nil
  · rw [if_neg hvalid] at hdirect
    exact absurd hdirect List.not_mem_nil

end Compared

end Session

/-! ## What equal reports say about the readings -/

/-- No link metric has one unit on both paths. -/
theorem mem_cachedValues_links {session : Session} {reading : Reading}
    (hlinks : session.settings.xgmi = true ∨ session.settings.pcie = true)
    (h : (session.cachedValues reading).isSome) :
    ∃ value ∈ (session.cachedValues reading).getD [],
      unitSymbol (cachedUnit value.1.category) ≠ unitSymbol (directUnit value.1.category) := by
  have hneeded : session.settings.gpuMetricsNeeded = true := by
    rw [Settings.gpuMetricsNeeded]
    rcases hlinks with hlinks | hlinks
    · rw [hlinks, Bool.or_true, Bool.true_or]
    · rw [hlinks, Bool.or_true]
  rw [Session.cachedValues, if_pos hneeded] at h ⊢
  cases hload : (deserializeGpuMetrics (session.storedSample reading).gpuActivity.elements {}
    session.settings.toGpuMetricsSettings).toOption with
  | none =>
    rw [hload] at h
    cases h
  | some loaded =>
    rw [Option.map_some, Option.getD_some]
    have hwidth : unitSymbol (cachedUnit .xgmiLinkWidth) ≠
      unitSymbol (directUnit .xgmiLinkWidth) := by decide
    have hspeed : unitSymbol (cachedUnit .pcieLinkSpeed) ≠
      unitSymbol (directUnit .pcieLinkSpeed) := by decide
    rcases hlinks with hlinks | hlinks
    · refine ⟨({ category := .xgmiLinkWidth }, nearestDouble loaded.1.xgmiLinkWidth.toNat),
        List.mem_append_right _ ?_, hwidth⟩
      rw [insertedValues, if_pos hlinks]
      exact List.mem_append_left _ (List.mem_append_right _ (List.mem_append_left _
        (List.mem_append_left _ List.mem_cons_self)))
    · refine ⟨({ category := .pcieLinkSpeed }, nearestDouble loaded.1.pcieLinkSpeed.toNat),
        List.mem_append_right _ ?_, hspeed⟩
      rw [insertedValues, if_pos hlinks]
      exact List.mem_append_right _ (List.mem_cons_of_mem _ List.mem_cons_self)

theorem basicMetricsEnabled_of_nil {settings : Settings} (h : basicMetrics settings = []) :
    settings.basicMetricsEnabled = false := by
  obtain ⟨busy, temp, power, memUsage, _, _, _, _⟩ := settings
  cases busy with
  | true => cases h
  | false =>
    cases temp with
    | true => cases h
    | false =>
      cases power with
      | true => cases h
      | false =>
        cases memUsage with
        | true => cases h
        | false => rfl

namespace Session

variable {session : Session} {readings : List Reading} {reading : Reading}

theorem length_basicPairs : (session.basicPairs reading).length =
    (basicMetrics session.settings).length := by
  rw [basicPairs_eq, List.length_zip, length_basicValuesWith, Nat.min_self]

theorem map_fst_basicPairs :
    (session.basicPairs reading).map Prod.fst = basicMetrics session.settings := by
  rw [basicPairs_eq]
  exact List.map_fst_zip (session.length_basicValuesWith reading _ _).ge

/-- The basic metrics with their values, metric by metric. -/
theorem zip_basicValuesWith (temp memUsage : ℚ) :
    (basicMetrics session.settings).zip (session.basicValuesWith reading temp memUsage) =
      (if session.settings.busy then
        [({ category := .gfxBusy }, (reading.gfxActivity.toNat : ℚ)),
          ({ category := .umcBusy }, (reading.umcActivity.toNat : ℚ)),
          ({ category := .mmBusy }, (reading.mmActivity.toNat : ℚ))] else []) ++
      (if session.settings.temp then [({ category := .temp }, temp)] else []) ++
      (if session.settings.power then
        [({ category := .power }, (reading.currentSocketPower.toNat : ℚ))] else []) ++
      (if session.settings.memUsage then [({ category := .memoryUsage }, memUsage)] else []) := by
  have hlength {α β : Type} (p : Prop) [Decidable p] {l : List α} {l' : List β}
      (h : l.length = l'.length) := length_ite_nil h p
  rw [basicMetrics, basicValuesWith, List.zip_append, List.zip_append, List.zip_append,
    zip_ite_nil, zip_ite_nil, zip_ite_nil, zip_ite_nil]
  · rfl
  · exact hlength _ rfl
  · rw [List.length_append, List.length_append]
    exact congrArg₂ _ (hlength _ rfl) (hlength _ rfl)
  · iterate 4 rw [List.length_append]
    exact congrArg₂ _ (congrArg₂ _ (hlength _ rfl) (hlength _ rfl)) (hlength _ rfl)

theorem mem_basicPairs_temp (htemp : session.settings.temp = true) :
    ({ category := .temp }, (reading.temp.toInt : ℚ)) ∈ session.basicPairs reading := by
  rw [basicPairs_eq, zip_basicValuesWith, if_pos htemp]
  exact List.mem_append_left _ (List.mem_append_left _
    (List.mem_append_right _ (List.mem_singleton.mpr rfl)))

/-- The direct path's temperature is a double. -/
theorem of_mem_directBasicPairs_temp {temp : ℚ}
    (h : ({ category := .temp }, temp) ∈ session.directBasicPairs reading) :
    temp = nearestDouble reading.temp.toInt := by
  rw [directBasicPairs, zip_basicValuesWith] at h
  simp only [List.mem_append] at h
  rcases h with ((h | h) | h) | h
  · have hmem := (ite_nil_sublist _ _).subset h
    simp at hmem
  · have hmem := (ite_nil_sublist _ _).subset h
    exact (Prod.mk.inj (List.mem_singleton.mp hmem)).2
  · have hmem := (ite_nil_sublist _ _).subset h
    simp at hmem
  · have hmem := (ite_nil_sublist _ _).subset h
    simp at hmem

/-- The value of a memory usage report. -/
def memoryWeight (report : Metric × String × UInt64 × ℚ) : ℚ :=
  if report.1.category = .memoryUsage then report.2.2.2 else 0

theorem sum_memoryWeight_basic (temp memUsage : ℚ) (timestamp : UInt64) :
    (((basicMetrics session.settings).zip (session.basicValuesWith reading temp memUsage)).map
      fun value => memoryWeight (reportOf timestamp value)).sum =
        if session.settings.memUsage then memUsage else 0 := by
  rw [zip_basicValuesWith]
  simp only [List.map_append, List.sum_append]
  have hother {p : Prop} [Decidable p] {pairs : List (Metric × ℚ)}
      (h : ∀ value ∈ pairs, value.1.category ≠ .memoryUsage) :
      ((if p then pairs else []).map fun value => memoryWeight (reportOf timestamp value)).sum =
        0 := by
    refine List.sum_eq_zero fun weight hweight => ?_
    obtain ⟨value, hvalue, rfl⟩ := List.mem_map.mp hweight
    exact if_neg (h value ((ite_nil_sublist _ _).subset hvalue))
  rw [hother, hother, hother]
  · split
    · simp [memoryWeight, reportOf]
    · simp
  · simp
  · simp
  · simp

/-! ## The condition is necessary -/

namespace Compared

variable (h : session.Compared readings)
include h

theorem links (hlinks : session.settings.xgmi = true ∨ session.settings.pcie = true) :
    readings.filter session.isStored = [] := by
  refine List.eq_nil_iff_forall_not_mem.mpr fun reading hmem => ?_
  obtain ⟨value, hvalue, hne⟩ := mem_cachedValues_links hlinks (h.cached reading hmem)
  obtain ⟨-, -, -, -, -, hunit⟩ := h.exists_direct hmem hvalue
  exact hne hunit

variable (hxgmi : session.settings.xgmi = false) (hpcie : session.settings.pcie = false)
  (hmem : reading ∈ readings.filter session.isStored)

include hmem in
/-- The direct path writes all values of a reading in the lifetime. -/
theorem directReports_of_valid (hvalid : session.isValidAt reading.timestamp = true) :
    (session.values reading).length ≤ (session.layout readings).length ∧
      session.directReports (session.layout readings) reading =
        ((session.layout readings).zip (session.values reading)).map
          (reportOf reading.timestamp) := by
  have hsome := h.direct reading hmem
  rw [directReports]
  rw [directCounters, if_pos hvalid] at hsome ⊢
  by_cases hle : (session.values reading).length ≤ (session.layout readings).length
  · rw [if_pos hle, Option.getD_some, List.map_map]
    exact ⟨hle, rfl⟩
  · rw [if_neg hle] at hsome
    cases hsome

omit h in
theorem directReports_of_not_valid (hvalid : session.isValidAt reading.timestamp = false) :
    session.directReports (session.layout readings) reading = [] := by
  have hv : ¬session.isValidAt reading.timestamp = true := by
    rw [hvalid]
    exact Bool.false_ne_true
  rw [directReports, directCounters, if_neg hv]
  rfl

include hmem in
theorem cachedValues_of_not_valid (hvalid : session.isValidAt reading.timestamp = false) :
    (session.cachedValues reading).getD [] = [] := by
  refine List.eq_nil_iff_forall_not_mem.mpr fun value hvalue => ?_
  obtain ⟨reading', -, hvalid', htimestamp, -⟩ := h.exists_direct hmem hvalue
  rw [htimestamp, hvalid] at hvalid'
  cases hvalid'

include hxgmi hpcie hmem

theorem exists_restored : ∃ rest, session.restored reading = .ok rest ∧
    session.cachedValues reading = some (session.basicPairs reading ++ rest) := by
  have hsome := h.cached reading hmem
  rw [session.cachedValues_eq reading hxgmi hpcie] at hsome ⊢
  cases hrestored : session.restored reading with
  | error failure =>
    rw [hrestored] at hsome
    cases hsome
  | ok rest => exact ⟨rest, rfl, rfl⟩

theorem outside (hvalid : session.isValidAt reading.timestamp = false) :
    Silent session reading := by
  obtain ⟨rest, hrestored, hvalues⟩ := h.exists_restored hxgmi hpcie hmem
  have hnone := h.cachedValues_of_not_valid hmem hvalid
  rw [hvalues, Option.getD_some, List.append_eq_nil_iff] at hnone
  obtain ⟨hvcn, hjpeg⟩ := (session.of_restored_eq_ok reading hrestored).2 hnone.2
  have hbasic : basicMetrics session.settings = [] := by
    rw [← @map_fst_basicPairs session reading, hnone.1]
    rfl
  exact ⟨basicMetricsEnabled_of_nil hbasic, hvcn, hjpeg⟩

/-- The direct path has at least as many reports of a reading. -/
theorem length_cachedReports_le : (session.cachedReports reading).length ≤
    (session.directReports (session.layout readings) reading).length := by
  cases hvalid : session.isValidAt reading.timestamp with
  | false =>
    rw [cachedReports, h.cachedValues_of_not_valid hmem hvalid]
    exact Nat.zero_le _
  | true =>
    obtain ⟨rest, hrestored, hvalues⟩ := h.exists_restored hxgmi hpcie hmem
    obtain ⟨hle, hdirect⟩ := h.directReports_of_valid hmem hvalid
    have hrest : rest.length ≤ (session.enginePairs reading).length := by
      rcases (session.of_restored_eq_ok reading hrestored).1 with ⟨-, -, rfl⟩ | hlt
      · exact le_rfl
      · exact hlt.le
    rw [cachedReports, hvalues, hdirect, Option.getD_some, List.length_map, List.length_map,
      List.length_map, List.length_zip, Nat.min_eq_right hle, length_values,
      session.metricsOf_eq reading hxgmi hpcie, List.length_append, List.length_append,
      length_basicPairs, List.length_map]
    exact Nat.add_le_add_left hrest _

omit hmem in
/-- As many reports in all are as many of each reading. -/
theorem length_cachedReports : ∀ reading ∈ readings.filter session.isStored,
    (session.cachedReports reading).length =
      (session.directReports (session.layout readings) reading).length := by
  have hlength := h.perm.length_eq
  rw [List.length_flatMap, List.length_flatMap] at hlength
  exact forall_eq_of_sum_eq
    (fun reading hmem => h.length_cachedReports_le hxgmi hpcie hmem) hlength.symm

/-- The engines of a reading in the lifetime come back whole. -/
theorem engines (hvalid : session.isValidAt reading.timestamp = true) :
    (session.vcnValues reading).length < 256 ∧ (session.jpegValues reading).length < 256 ∧
      session.cachedReports reading =
        (session.basicPairs reading ++ session.enginePairs reading).map
          (reportOf reading.timestamp) := by
  obtain ⟨rest, hrestored, hvalues⟩ := h.exists_restored hxgmi hpcie hmem
  obtain ⟨hle, hdirect⟩ := h.directReports_of_valid hmem hvalid
  have hlength := h.length_cachedReports hxgmi hpcie reading hmem
  rcases (session.of_restored_eq_ok reading hrestored).1 with ⟨hvcn, hjpeg, rfl⟩ | hlt
  · refine ⟨hvcn, hjpeg, ?_⟩
    rw [cachedReports, hvalues, Option.getD_some, List.map_map]
    refine List.map_congr_left fun value hvalue => report_cachedCounter reading.timestamp ?_
    rcases List.mem_append.mp hvalue with hbasic | hengine
    · exact (session.category_basicPairs hbasic).trans (by decide)
    · exact (session.category_enginePairs hxgmi hpcie hengine).2
  · rw [cachedReports, hvalues, hdirect, Option.getD_some, List.length_map, List.length_map,
      List.length_map, List.length_zip, Nat.min_eq_right hle, length_values,
      session.metricsOf_eq reading hxgmi hpcie, List.length_append, List.length_append,
      length_basicPairs, List.length_map] at hlength
    exact absurd hlength (Nat.add_lt_add_left hlt _).ne

/-- The metrics of a reading in the lifetime all have tracks. -/
theorem metricsOf_sublist (hvalid : session.isValidAt reading.timestamp = true) :
    List.Sublist (session.metricsOf reading) (session.layout readings) := by
  refine sublist_of_subset (session.pairwise_metricsOf reading hxgmi hpcie)
    (session.pairwise_layout readings hxgmi hpcie) fun metric hmetric => ?_
  obtain ⟨hvcn, hjpeg, -⟩ := h.engines hxgmi hpcie hmem hvalid
  have hvalues : session.cachedValues reading =
      some (session.basicPairs reading ++ session.enginePairs reading) := by
    rw [session.cachedValues_eq reading hxgmi hpcie, session.restored_of_lt reading hvcn hjpeg]
    rfl
  have hpair : metric ∈
      (session.basicPairs reading ++ session.enginePairs reading).map Prod.fst := by
    rwa [List.map_append, map_fst_basicPairs, ← session.metricsOf_eq reading hxgmi hpcie]
  obtain ⟨value, hvalue, rfl⟩ := List.mem_map.mp hpair
  obtain ⟨reading', -, -, -, hzip, -⟩ := @exists_direct _ _ h reading hmem value (by
    rw [hvalues]
    exact hvalue)
  exact (List.of_mem_zip (show (value.1, value.2) ∈ _ from hzip)).1

/-- The positions of a reading's reports among the tracks, the direct path's first. -/
theorem positions : ((session.directReports (session.layout readings) reading).map
      fun report => (session.layout readings).idxOf report.1).sum ≤
    ((session.cachedReports reading).map
      fun report => (session.layout readings).idxOf report.1).sum ∧
    (session.isValidAt reading.timestamp = true →
      ((session.directReports (session.layout readings) reading).map
        fun report => (session.layout readings).idxOf report.1).sum =
      ((session.cachedReports reading).map
        fun report => (session.layout readings).idxOf report.1).sum →
      session.metricsOf reading <+: session.layout readings) := by
  cases hvalid : session.isValidAt reading.timestamp with
  | false =>
    rw [directReports_of_not_valid hvalid]
    exact ⟨Nat.zero_le _, fun hv => absurd hv Bool.false_ne_true⟩
  | true =>
    obtain ⟨hle, hdirect⟩ := h.directReports_of_valid hmem hvalid
    obtain ⟨-, -, hcached⟩ := h.engines hxgmi hpcie hmem hvalid
    have hnodup := pairwise_before_nodup (session.pairwise_layout readings hxgmi hpcie)
    have hcachedMetrics : (session.cachedReports reading).map Prod.fst =
        session.metricsOf reading := by
      rw [hcached, List.map_map]
      show List.map Prod.fst _ = _
      rw [List.map_append, map_fst_basicPairs, ← session.metricsOf_eq reading hxgmi hpcie]
    have hdirectMetrics : (session.directReports (session.layout readings) reading).map Prod.fst =
        (session.layout readings).take (session.metricsOf reading).length := by
      have hlength : (session.values reading).length =
          ((session.layout readings).take (session.values reading).length).length := by
        rw [List.length_take, Nat.min_eq_left hle]
      rw [hdirect, List.map_map, ← length_values,
        zip_prefix_eq (List.take_prefix _ _) hlength]
      exact List.map_fst_zip hlength.ge
    have hsum := sum_range_le_of_sublist (h.metricsOf_sublist hxgmi hpcie hmem hvalid) hnodup
    have hpositions := map_idxOf_prefix_eq
      (List.take_prefix (session.metricsOf reading).length (session.layout readings)) hnodup
    rw [List.length_take, ← length_values, Nat.min_eq_left hle, length_values] at hpositions
    rw [← hpositions, ← hdirectMetrics, ← hcachedMetrics, List.map_map, List.map_map] at hsum
    exact ⟨hsum.1, fun _ heq => hcachedMetrics ▸ hsum.2 heq⟩

/-- The tracks of a reading in the lifetime are those of its own metrics. -/
theorem metricsOf_prefix_layout (hvalid : session.isValidAt reading.timestamp = true) :
    session.metricsOf reading <+: session.layout readings := by
  have hsum := h.sum_eq fun report => (session.layout readings).idxOf report.1
  have heq := forall_eq_of_sum_eq
    (fun reading hmem => (h.positions hxgmi hpcie hmem).1) hsum.symm
  exact (h.positions hxgmi hpcie hmem).2 hvalid (heq reading hmem)

/-- The reports of a reading in the lifetime on both paths, which differ in the basic
metrics only. -/
theorem reports (hvalid : session.isValidAt reading.timestamp = true) :
    session.directReports (session.layout readings) reading =
        (session.directBasicPairs reading ++ session.enginePairs reading).map
          (reportOf reading.timestamp) ∧
      session.cachedReports reading =
        (session.basicPairs reading ++ session.enginePairs reading).map
          (reportOf reading.timestamp) := by
  obtain ⟨-, hdirect⟩ := h.directReports_of_valid hmem hvalid
  obtain ⟨-, -, hcached⟩ := h.engines hxgmi hpcie hmem hvalid
  refine ⟨?_, hcached⟩
  rw [hdirect, zip_prefix_eq (h.metricsOf_prefix_layout hxgmi hpcie hmem hvalid)
    (session.length_values reading), session.zip_metricsOf_values reading hxgmi hpcie]

/-- The processor reports no more memory. -/
theorem memory (hmegabyte : 1 < session.megabyte) :
    ((session.cachedReports reading).map memoryWeight).sum ≤
      ((session.directReports (session.layout readings) reading).map memoryWeight).sum ∧
    (session.isValidAt reading.timestamp = true →
      ((session.cachedReports reading).map memoryWeight).sum =
        ((session.directReports (session.layout readings) reading).map memoryWeight).sum →
      session.settings.memUsage = true → reading.memUsage = 0) := by
  cases hvalid : session.isValidAt reading.timestamp with
  | false =>
    rw [cachedReports, h.cachedValues_of_not_valid hmem hvalid,
      directReports_of_not_valid hvalid]
    exact ⟨le_rfl, fun hv => absurd hv Bool.false_ne_true⟩
  | true =>
    obtain ⟨hdirect, hcached⟩ := h.reports hxgmi hpcie hmem hvalid
    have hsum (pairs : List (Metric × ℚ)) :
        (((pairs ++ session.enginePairs reading).map (reportOf reading.timestamp)).map
          memoryWeight).sum =
            (pairs.map fun value => memoryWeight (reportOf reading.timestamp value)).sum +
              ((session.enginePairs reading).map
                fun value => memoryWeight (reportOf reading.timestamp value)).sum := by
      rw [List.map_map, List.map_append, List.sum_append]
      rfl
    rw [hdirect, hcached, hsum, hsum, basicPairs_eq, directBasicPairs, sum_memoryWeight_basic,
      sum_memoryWeight_basic]
    cases session.settings.memUsage with
    | false => exact ⟨le_rfl, fun _ _ hmemUsage => absurd hmemUsage Bool.false_ne_true⟩
    | true =>
      rw [if_pos rfl, if_pos rfl]
      by_cases hzero : reading.memUsage = 0
      · rw [hzero, megabytes_div_zero]
        exact ⟨le_rfl, fun _ _ _ => rfl⟩
      · have hlt := megabytes_div_lt hmegabyte hzero
        refine ⟨add_le_add_left hlt.le _, fun _ heq => ?_⟩
        exact absurd (add_right_cancel heq) hlt.ne

theorem memUsage (hmegabyte : 1 < session.megabyte)
    (hvalid : session.isValidAt reading.timestamp = true)
    (hmemUsage : session.settings.memUsage = true) : reading.memUsage = 0 := by
  have heq := forall_eq_of_sum_eq
    (fun reading hmem => (h.memory hxgmi hpcie hmem hmegabyte).1) (h.sum_eq memoryWeight)
  exact (h.memory hxgmi hpcie hmem hmegabyte).2 hvalid (heq reading hmem) hmemUsage

/-- The direct path reports every temperature of the processor, as a double. -/
theorem temp (htemp : session.settings.temp = true) :
    nearestDouble reading.temp.toInt = (reading.temp.toInt : ℚ) := by
  obtain ⟨rest, -, hvalues⟩ := h.exists_restored hxgmi hpcie hmem
  obtain ⟨reading', hmem', hvalid', -, hzip, -⟩ := @exists_direct _ _ h reading hmem
    ({ category := .temp }, (reading.temp.toInt : ℚ)) (by
      rw [hvalues, Option.getD_some]
      exact List.mem_append_left _ (mem_basicPairs_temp htemp))
  rw [zip_prefix_eq (h.metricsOf_prefix_layout hxgmi hpcie hmem' hvalid') (session.length_values reading'),
    session.zip_metricsOf_values reading' hxgmi hpcie, List.mem_append] at hzip
  rcases hzip with hbasic | hengine
  · rw [of_mem_directBasicPairs_temp hbasic, nearestDouble_nearestDouble]
  · obtain ⟨hle, -⟩ := session.category_enginePairs hxgmi hpcie hengine
    have hlt : ¬6 ≤ Category.temp.ctorIdx := by decide
    exact absurd hle hlt

end Compared

theorem Compared.agreeable (h : session.Compared readings) (hmegabyte : 1 < session.megabyte) :
    session.Agreeable readings := by
  have hlinks {reading : Reading} (hmem : reading ∈ readings.filter session.isStored) :
      session.settings.xgmi = false ∧ session.settings.pcie = false := by
    have hnot : ¬(session.settings.xgmi = true ∨ session.settings.pcie = true) := by
      intro hlinks
      rw [h.links hlinks] at hmem
      exact absurd hmem List.not_mem_nil
    rwa [not_or, Bool.not_eq_true, Bool.not_eq_true] at hnot
  refine ⟨h.links, fun reading hmem hvalid => ?_, fun reading hmem hvalid => ?_⟩
  · obtain ⟨hxgmi, hpcie⟩ := hlinks hmem
    obtain ⟨hvcn, hjpeg, -⟩ := h.engines hxgmi hpcie hmem hvalid
    exact ⟨h.memUsage hxgmi hpcie hmem hmegabyte hvalid, h.temp hxgmi hpcie hmem, hvcn, hjpeg,
      h.metricsOf_prefix_layout hxgmi hpcie hmem hvalid⟩
  · obtain ⟨hxgmi, hpcie⟩ := hlinks hmem
    exact h.outside hxgmi hpcie hmem hvalid

/-- The two paths agree exactly on agreeable readings. -/
theorem agree_iff_agreeable (session : Session) (readings : List Reading)
    (hmegabyte : 1 < session.megabyte) :
    session.Agree readings ↔ session.Agreeable readings :=
  ⟨fun h => h.compared.agreeable hmegabyte, Agreeable.agree⟩

/-- A device of which only the memory usage is enabled. -/
def memoryOnly : Session where
  megabyte := 1000000
  device := ⟨0, true, true⟩
  settings := { busy := false, temp := false, power := false, vcnActivity := false,
                jpegActivity := false, xgmi := false, pcie := false }
  lifetime := some (0, 100)

def memoryReading (memUsage : UInt64) : Reading where
  timestamp := 10
  gfxActivity := 0
  umcActivity := 0
  mmActivity := 0
  temp := 0
  currentSocketPower := 0
  memUsage := memUsage
  gpuMetrics :=
    { vcnActivity := [], jpegActivity := [], xcpStats := [], xgmiLinkWidth := 0
      xgmiLinkSpeed := 0, xgmiReadDataAcc := [], xgmiWriteDataAcc := [], pcieLinkWidth := 0
      pcieLinkSpeed := 0, pcieBandwidthAcc := 0, pcieBandwidthInst := 0
      vcnActivity_lt := Nat.zero_lt_succ 255, jpegActivity_lt := Nat.zero_lt_succ 255
      xcpStats_lt := Nat.zero_lt_succ 255 }

theorem agree_iff_agreeable_memoryOnly :
    1 < memoryOnly.megabyte ∧ (memoryOnly.Agree [memoryReading 0, memoryReading 2000000] ↔
      memoryOnly.Agreeable [memoryReading 0, memoryReading 2000000]) :=
  ⟨by decide, agree_iff_agreeable memoryOnly _ (by decide)⟩

/-- Two megabytes are replayed as two millionths of one. -/
theorem not_agree_memoryOnly : ¬memoryOnly.Agree [memoryReading 2000000] := by
  intro h
  have hmegabyte : 1 < memoryOnly.megabyte := by decide
  have hmem : memoryReading 2000000 ∈ [memoryReading 2000000].filter memoryOnly.isStored :=
    List.mem_filter.mpr ⟨List.mem_singleton.mpr rfl, rfl⟩
  have hzero := ((h.compared.agreeable hmegabyte).inside _ hmem rfl).memUsage rfl
  have hne : (2000000 : UInt64) ≠ 0 := by decide
  exact hne hzero

end Session

end AmdSmi
end Gpu
end Rocprofsys
