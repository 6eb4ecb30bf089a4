import Mathlib.Data.List.Sort
import Rocprofsys.Gpu.AmdSmiEngines

namespace Rocprofsys
namespace Gpu
namespace AmdSmi

open Base

/-! ## The order of the tracks -/

/-- The order in which a reading lists its metrics. -/
def Before (m m' : Metric) : Prop :=
  m.category.ctorIdx < m'.category.ctorIdx ∨ m.category = m'.category ∧
    (m.xcp.getD 0 < m'.xcp.getD 0 ∨ m.xcp.getD 0 = m'.xcp.getD 0 ∧ m.index < m'.index)

instance (m m' : Metric) : Decidable (Before m m') := inferInstanceAs (Decidable (_ ∨ _))

theorem Before.asymm {m m' : Metric} (h : Before m m') : ¬Before m' m := by
  intro h'
  rcases h with h | ⟨heq, h⟩
  · rcases h' with h' | ⟨heq', -⟩
    · omega
    · rw [heq'] at h
      omega
  · rcases h' with h' | ⟨-, h'⟩
    · rw [heq] at h'
      omega
    · omega

instance : Std.Antisymm Before := ⟨fun _ _ h h' => absurd h' h.asymm⟩

theorem pairwise_before_nodup {metrics : List Metric} (h : metrics.Pairwise Before) :
    metrics.Nodup := by
  refine h.imp fun hbefore heq => ?_
  subst heq
  exact hbefore.asymm hbefore

/-- Metrics of one list that all stand in another are a sublist of it. -/
theorem sublist_of_subset {metrics layout : List Metric} (hmetrics : metrics.Pairwise Before)
    (hlayout : layout.Pairwise Before) (h : metrics ⊆ layout) : metrics.Sublist layout :=
  List.sublist_of_subperm_of_pairwise
    (List.subperm_of_subset (pairwise_before_nodup hmetrics) h) hmetrics hlayout

theorem pairwise_indexes (category : Category) (xcp : Option Nat) (n : Nat) :
    ((List.range n).map fun i => (⟨category, xcp, i⟩ : Metric)).Pairwise Before := by
  rw [List.pairwise_map]
  exact List.pairwise_lt_range.imp fun h => .inr ⟨rfl, .inr ⟨rfl, h⟩⟩

theorem mem_engineMetrics {category : Category} {isDeviceLevelOnly : Bool}
    {activity : List UInt16} {busy : List (List UInt16)} {metric : Metric}
    (h : metric ∈ engineMetrics category isDeviceLevelOnly activity busy) :
    metric.category = category := by
  cases isDeviceLevelOnly with
  | true =>
    obtain ⟨i, -, rfl⟩ := List.mem_map.mp h
    rfl
  | false =>
    obtain ⟨xcp, -, hmetric⟩ := List.mem_flatMap.mp h
    obtain ⟨i, -, rfl⟩ := List.mem_map.mp hmetric
    rfl

theorem pairwise_engineMetrics (category : Category) (isDeviceLevelOnly : Bool)
    (activity : List UInt16) (busy : List (List UInt16)) :
    (engineMetrics category isDeviceLevelOnly activity busy).Pairwise Before := by
  cases isDeviceLevelOnly with
  | true => exact pairwise_indexes category none activity.length
  | false =>
    show (busy.zipIdx.flatMap _).Pairwise Before
    rw [List.pairwise_flatMap]
    refine ⟨fun xcp _ => pairwise_indexes category (some xcp.2) xcp.1.length, ?_⟩
    have hindexes : (busy.zipIdx.map Prod.snd).Pairwise (· < ·) := by
      rw [List.zipIdx_map_snd]
      exact List.pairwise_lt_range'
    rw [List.pairwise_map] at hindexes
    refine hindexes.imp fun hlt m hm m' hm' => ?_
    obtain ⟨i, -, rfl⟩ := List.mem_map.mp hm
    obtain ⟨i', -, rfl⟩ := List.mem_map.mp hm'
    exact .inr ⟨rfl, .inl hlt⟩

theorem ite_nil_sublist {α : Type} (p : Prop) [Decidable p] (l : List α) :
    (if p then l else []).Sublist l := by
  split
  · exact List.Sublist.refl l
  · exact List.nil_sublist l

/-- The basic metrics when all are enabled. -/
def allBasicMetrics : List Metric :=
  [{ category := .gfxBusy }, { category := .umcBusy }, { category := .mmBusy }] ++
    [{ category := .temp }] ++ [{ category := .power }] ++ [{ category := .memoryUsage }]

theorem basicMetrics_sublist (settings : Settings) :
    (basicMetrics settings).Sublist allBasicMetrics :=
  (((ite_nil_sublist _ _).append (ite_nil_sublist _ _)).append (ite_nil_sublist _ _)).append
    (ite_nil_sublist _ _)

theorem category_basicMetrics {settings : Settings} {metric : Metric}
    (h : metric ∈ basicMetrics settings) : metric.category.ctorIdx < 6 := by
  have hall : ∀ metric ∈ allBasicMetrics, metric.category.ctorIdx < 6 := by decide
  exact hall metric ((basicMetrics_sublist settings).subset h)

/-- Without link metrics a reading lists its metrics in order. -/
theorem Session.pairwise_metricsOf (session : Session) (reading : Reading)
    (hxgmi : session.settings.xgmi = false) (hpcie : session.settings.pcie = false) :
    (session.metricsOf reading).Pairwise Before := by
  have hbasic : (basicMetrics session.settings).Pairwise Before :=
    (by decide : allBasicMetrics.Pairwise Before).sublist (basicMetrics_sublist _)
  have hvcn := (pairwise_engineMetrics .vcnActivity session.device.vcnIsDeviceLevelOnly
    (session.metrics reading).vcnActivity (session.metrics reading).vcnBusy).sublist
      (ite_nil_sublist (session.settings.vcnActivity = true) _)
  have hjpeg := (pairwise_engineMetrics .jpegActivity session.device.jpegIsDeviceLevelOnly
    (session.metrics reading).jpegActivity (session.metrics reading).jpegBusy).sublist
      (ite_nil_sublist (session.settings.jpegActivity = true) _)
  have hvcnCategory : ∀ metric ∈ (if session.settings.vcnActivity then
      engineMetrics .vcnActivity session.device.vcnIsDeviceLevelOnly
        (session.metrics reading).vcnActivity (session.metrics reading).vcnBusy else []),
      metric.category = .vcnActivity :=
    fun metric h => mem_engineMetrics ((ite_nil_sublist _ _).subset h)
  have hjpegCategory : ∀ metric ∈ (if session.settings.jpegActivity then
      engineMetrics .jpegActivity session.device.jpegIsDeviceLevelOnly
        (session.metrics reading).jpegActivity (session.metrics reading).jpegBusy else []),
      metric.category = .jpegActivity :=
    fun metric h => mem_engineMetrics ((ite_nil_sublist _ _).subset h)
  rw [session.metricsOf_eq reading hxgmi hpcie, (session.enginePairs_map reading hxgmi hpcie).1,
    gpuMetricsTracks, hxgmi, hpcie, if_neg Bool.false_ne_true, if_neg Bool.false_ne_true,
    List.append_nil, List.append_nil, List.pairwise_append, List.pairwise_append]
  refine ⟨hbasic, ⟨hvcn, hjpeg, fun m hm m' hm' => .inl ?_⟩, fun m hm m' hm' => .inl ?_⟩
  · rw [hvcnCategory m hm, hjpegCategory m' hm']
    decide
  · have hlt := category_basicMetrics hm
    rcases List.mem_append.mp hm' with hm' | hm'
    · rw [hvcnCategory m' hm']
      exact hlt
    · rw [hjpegCategory m' hm']
      exact Nat.lt_succ_of_lt hlt

/-- The layout is the metrics of one of the readings, if it is not empty. -/
theorem Session.pairwise_layout (session : Session) (readings : List Reading)
    (hxgmi : session.settings.xgmi = false) (hpcie : session.settings.pcie = false) :
    (session.layout readings).Pairwise Before := by
  rw [Session.layout]
  cases hfind : List.find? (fun metrics : List Metric => !metrics.isEmpty)
      ((readings.filter fun reading => session.isValidAt reading.timestamp).map
        session.metricsOf) with
  | none => exact List.Pairwise.nil
  | some metrics =>
    obtain ⟨reading, -, rfl⟩ := List.mem_map.mp (List.mem_of_find?_eq_some hfind)
    exact session.pairwise_metricsOf reading hxgmi hpcie

end AmdSmi
end Gpu
end Rocprofsys
