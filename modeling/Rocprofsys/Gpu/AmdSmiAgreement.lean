import Rocprofsys.Gpu.AmdSmiLayout

namespace Rocprofsys
namespace Gpu
namespace AmdSmi

open Base

/-! ## The memory usage -/

/-- Dividing twice gives less, but for a usage of zero. -/
theorem megabytes_div_lt {megabyte memUsage : UInt64} (hmegabyte : 1 < megabyte)
    (hmemUsage : memUsage ≠ 0) :
    megabytes megabyte (memUsage / megabyte) < megabytes megabyte memUsage := by
  have hone : 1 < megabyte.toNat := UInt64.lt_iff_toNat_lt.mp hmegabyte
  have hpos : 0 < memUsage.toNat := Nat.pos_of_ne_zero fun h =>
    hmemUsage (UInt64.toNat_inj.mp h)
  have hlt : megabyte.toNat < 2 ^ 64 := megabyte.toNat_lt
  have hhalf : ((memUsage / megabyte).toNat : ℚ) ≤ memUsage.toNat / 2 := by
    have hdiv : (memUsage / megabyte).toNat * 2 ≤ memUsage.toNat := by
      rw [UInt64.toNat_div]
      exact (Nat.mul_le_mul_left _ hone).trans (Nat.div_mul_le_self _ _)
    have hcast : ((memUsage / megabyte).toNat : ℚ) * 2 ≤ memUsage.toNat := by
      exact_mod_cast hdiv
    linarith
  have hsmall : (2 : ℚ) ^ (-1000 : ℤ) ≤ 1 :=
    zpow_le_one_of_nonpos₀ (by norm_num) (by norm_num)
  have hmemCast : (1 : ℚ) ≤ memUsage.toNat := by exact_mod_cast hpos
  have hmegaCast : (1 : ℚ) ≤ megabyte.toNat := by exact_mod_cast hone.le
  have hmegaLt : (megabyte.toNat : ℚ) < 2 ^ 64 := by exact_mod_cast hlt
  have hquotient := nearestDouble_le_of_le_half (Nat.cast_nonneg _) (hsmall.trans hmemCast) hhalf
  obtain ⟨-, -, hmem⟩ := le_nearestDouble (hsmall.trans hmemCast)
  obtain ⟨-, hunit, hmega⟩ := le_nearestDouble (hsmall.trans hmegaCast)
  have hmegaLe := @nearestDouble_le megabyte.toNat (Nat.cast_nonneg _)
  rw [megabytes, megabytes]
  generalize nearestDouble (megabyte.toNat : ℚ) = divisor at *
  have hdivisor : 0 < divisor := by linarith
  have hdivisorLe : divisor ≤ 2 ^ 65 := by linarith
  apply nearestDouble_lt_of_le
  · exact div_nonneg (nearestDouble_nonneg (Nat.cast_nonneg _)) hdivisor.le
  · rw [le_div_iff₀ hdivisor]
    calc (2 : ℚ) ^ (-1000 : ℤ) * divisor ≤ 2 ^ (-66 : ℤ) * 2 ^ 65 :=
          mul_le_mul (zpow_le_zpow_right₀ (by norm_num) (by norm_num)) hdivisorLe hdivisor.le
            (zpow_nonneg (by norm_num) _)
      _ = 1 / 2 := by norm_num
      _ ≤ nearestDouble memUsage.toNat := by linarith
  · rw [← mul_div_assoc]
    exact div_le_div_of_nonneg_right hquotient hdivisor.le

theorem megabytes_div_zero (megabyte : UInt64) :
    megabytes megabyte (0 / megabyte) = megabytes megabyte 0 := by
  rw [UInt64.zero_div]

/-! ## Reports -/

/-- For all but the link metrics the two paths have one unit. -/
theorem unitSymbol_eq {category : Category} (h : category.ctorIdx < 8) :
    unitSymbol (directUnit category) = unitSymbol (cachedUnit category) := by
  cases category with
  | power => rfl
  | memoryUsage => rfl
  | xgmiLinkWidth => exact absurd h (by decide)
  | xgmiLinkSpeed => exact absurd h (by decide)
  | xgmiReadData => exact absurd h (by decide)
  | xgmiWriteData => exact absurd h (by decide)
  | pcieLinkWidth => exact absurd h (by decide)
  | pcieLinkSpeed => exact absurd h (by decide)
  | pcieBandwidthAcc => exact absurd h (by decide)
  | pcieBandwidthInst => exact absurd h (by decide)
  | _ => rfl

/-- What a value on a metric reports, in the direct path's unit. -/
def reportOf (timestamp : UInt64) (value : Metric × ℚ) : Metric × String × UInt64 × ℚ :=
  (value.1, unitSymbol (directUnit value.1.category), timestamp, value.2)

theorem report_cachedCounter (timestamp : UInt64) {value : Metric × ℚ}
    (h : value.1.category.ctorIdx < 8) :
    (cachedCounter timestamp value).report = reportOf timestamp value := by
  rw [reportOf, unitSymbol_eq h]
  rfl

/-! ## When the two paths agree -/

/-- A reading in the lifetime of the main thread of which both paths report the same. -/
structure ReportedAlike (session : Session) (layout : List Metric) (reading : Reading) : Prop where
  memUsage : session.settings.memUsage = true → reading.memUsage = 0
  temp : session.settings.temp = true →
    nearestDouble reading.temp.toInt = (reading.temp.toInt : ℚ)
  vcn : (session.vcnValues reading).length < 256
  jpeg : (session.jpegValues reading).length < 256
  layout : session.metricsOf reading <+: layout

/-- A reading of which the processor reports nothing. -/
structure Silent (session : Session) (reading : Reading) : Prop where
  basic : session.settings.basicMetricsEnabled = false
  vcn : (session.vcnValues reading).length % 256 = 0
  jpeg : (session.jpegValues reading).length % 256 = 0

namespace Session

variable (session : Session)

/-- What is not stored has no metrics. -/
theorem metricsOf_of_not_stored {reading : Reading} (h : session.isStored reading = false) :
    session.metricsOf reading = [] := by
  rw [isStored, Bool.or_eq_false_iff] at h
  obtain ⟨hbasic, hdata⟩ := h
  simp only [Settings.basicMetricsEnabled, Bool.or_eq_false_iff] at hbasic
  obtain ⟨⟨⟨hbusy, htemp⟩, hpower⟩, hmemUsage⟩ := hbasic
  rw [metricsOf, basicMetrics, hbusy, htemp, hpower, hmemUsage, hdata]
  rfl

theorem category_enginePairs {reading : Reading} (hxgmi : session.settings.xgmi = false)
    (hpcie : session.settings.pcie = false) {value : Metric × ℚ}
    (h : value ∈ session.enginePairs reading) :
    6 ≤ value.1.category.ctorIdx ∧ value.1.category.ctorIdx < 8 := by
  have hmem : value.1 ∈ (session.enginePairs reading).map Prod.fst := List.mem_map_of_mem h
  rw [(session.enginePairs_map reading hxgmi hpcie).1, gpuMetricsTracks, hxgmi, hpcie,
    if_neg Bool.false_ne_true, if_neg Bool.false_ne_true, List.append_nil, List.append_nil,
    List.mem_append] at hmem
  rcases hmem with hmem | hmem
  · rw [mem_engineMetrics ((ite_nil_sublist _ _).subset hmem)]
    decide
  · rw [mem_engineMetrics ((ite_nil_sublist _ _).subset hmem)]
    decide

theorem category_basicPairs {reading : Reading} {value : Metric × ℚ}
    (h : value ∈ session.basicPairs reading) : value.1.category.ctorIdx < 6 :=
  category_basicMetrics (List.of_mem_zip (show (value.1, value.2) ∈ _ from h)).1

/-- No reading with link metrics is stored, and all others are reported alike in the main
thread's lifetime and not at all outside of it. -/
structure Agreeable (readings : List Reading) : Prop where
  links : session.settings.xgmi = true ∨ session.settings.pcie = true →
    readings.filter session.isStored = []
  inside : ∀ reading ∈ readings.filter session.isStored,
    session.isValidAt reading.timestamp = true →
      ReportedAlike session (session.layout readings) reading
  outside : ∀ reading ∈ readings.filter session.isStored,
    session.isValidAt reading.timestamp = false → Silent session reading

end Session

/-! ## The condition is enough -/

section Enough

variable {session : Session} {layout : List Metric} {reading : Reading}

theorem ReportedAlike.directBasicPairs_eq (h : ReportedAlike session layout reading) :
    session.directBasicPairs reading = session.basicPairs reading := by
  rw [Session.directBasicPairs, Session.basicPairs_eq, Session.basicValuesWith,
    Session.basicValuesWith]
  congr 1
  refine congrArg₂ _ (congrArg₂ _ (congrArg₂ _ rfl (Session.ite_nil_congr fun htemp => ?_)) rfl)
    (Session.ite_nil_congr fun hmemUsage => ?_)
  · rw [h.temp htemp]
  · rw [h.memUsage hmemUsage, megabytes_div_zero]

/-- Both paths write the same values on the same metrics. -/
theorem ReportedAlike.pairs (h : ReportedAlike session layout reading)
    (hxgmi : session.settings.xgmi = false) (hpcie : session.settings.pcie = false)
    (hvalid : session.isValidAt reading.timestamp = true) :
    session.directCounters reading layout =
        some ((session.basicPairs reading ++ session.enginePairs reading).map
          (directCounter reading.timestamp)) ∧
      session.cachedValues reading =
        some (session.basicPairs reading ++ session.enginePairs reading) := by
  constructor
  · have hlength : (session.values reading).length ≤ layout.length := by
      rw [session.length_values]
      exact h.layout.length_le
    rw [Session.directCounters, if_pos hvalid, if_pos hlength,
      zip_prefix_eq h.layout (session.length_values reading),
      session.zip_metricsOf_values reading hxgmi hpcie, h.directBasicPairs_eq]
  · rw [session.cachedValues_eq reading hxgmi hpcie, session.restored_of_lt reading h.vcn h.jpeg]
    rfl

theorem Silent.cachedValues_eq (h : Silent session reading)
    (hxgmi : session.settings.xgmi = false) (hpcie : session.settings.pcie = false) :
    session.cachedValues reading = some [] := by
  have hbasic : session.basicPairs reading = [] := by
    have hoff := h.basic
    simp only [Settings.basicMetricsEnabled, Bool.or_eq_false_iff] at hoff
    rw [Session.basicPairs, basicMetrics, hoff.1.1.1, hoff.1.1.2, hoff.1.2, hoff.2]
    rfl
  rw [session.cachedValues_eq reading hxgmi hpcie, session.restored_of_mod reading h.vcn h.jpeg,
    hbasic]
  rfl

/-- The counters of a stored reading of which the condition holds. -/
theorem Session.Agreeable.reports {readings : List Reading} (h : session.Agreeable readings)
    (hmem : reading ∈ readings.filter session.isStored) :
    (session.directCounters reading (session.layout readings)).isSome ∧
      (session.cachedValues reading).isSome ∧
      ((session.directCounters reading (session.layout readings)).getD []).map Counter.report =
        (((session.cachedValues reading).getD []).map
          (cachedCounter reading.timestamp)).map Counter.report := by
  have hlinks : ¬(session.settings.xgmi = true ∨ session.settings.pcie = true) := by
    intro hlinks
    rw [h.links hlinks] at hmem
    exact absurd hmem List.not_mem_nil
  rw [not_or, Bool.not_eq_true, Bool.not_eq_true] at hlinks
  obtain ⟨hxgmi, hpcie⟩ := hlinks
  cases hvalid : session.isValidAt reading.timestamp with
  | true =>
    obtain ⟨hdirect, hcached⟩ := (h.inside reading hmem hvalid).pairs hxgmi hpcie hvalid
    rw [hdirect, hcached]
    refine ⟨rfl, rfl, ?_⟩
    rw [Option.getD_some, Option.getD_some, List.map_map, List.map_map]
    refine List.map_congr_left fun value hvalue => ?_
    have hcategory : value.1.category.ctorIdx < 8 := by
      rcases List.mem_append.mp hvalue with hbasic | hengine
      · exact (session.category_basicPairs hbasic).trans (by decide)
      · exact (session.category_enginePairs hxgmi hpcie hengine).2
    exact (report_cachedCounter reading.timestamp hcategory).symm
  | false =>
    have hdirect : session.directCounters reading (session.layout readings) = some [] :=
      if_neg (by rw [hvalid]; exact Bool.false_ne_true)
    rw [hdirect, (h.outside reading hmem hvalid).cachedValues_eq hxgmi hpcie]
    exact ⟨rfl, rfl, rfl⟩

theorem Session.Agreeable.agree {readings : List Reading} (h : session.Agreeable readings) :
    session.Agree readings := by
  have hskip : ∀ reading ∈ readings, session.isStored reading = false →
      session.directCounters reading (session.layout readings) = some [] :=
    fun reading _ hstored => Session.directCounters_of_nil
      (fun _ => session.metricsOf_of_not_stored hstored) _
  refine ⟨_, _, Session.direct_eq_some_iff.mpr ⟨fun reading hreading => ?_, rfl⟩,
    session.cached_eq_some_iff.mpr ⟨fun reading hmem => (h.reports hmem).2.1, rfl⟩, ?_⟩
  · cases hstored : session.isStored reading with
    | true => exact (h.reports (List.mem_filter.mpr ⟨hreading, hstored⟩)).1
    | false =>
      rw [hskip reading hreading hstored]
      rfl
  · rw [← flatMap_filter_of_nil fun reading hreading hstored => by
      rw [hskip reading hreading hstored]; rfl, List.map_flatMap, List.map_flatMap]
    exact List.Perm.of_eq (List.flatMap_congr fun reading hmem => (h.reports hmem).2.2)

end Enough

end AmdSmi
end Gpu
end Rocprofsys
