import Mathlib.Algebra.Order.Ring.Nat
import Rocprofsys.Base.NearestDouble
import Rocprofsys.Base.SortedBy
import Rocprofsys.Components.BacktraceMetrics
import Rocprofsys.Sampling.TimerData

namespace Rocprofsys
namespace Sampling

open Base Components

/-! ## From samples to counters -/

section Definitions

variable {Frame Entry : Type} {n : ℕ}

/-- The environment in which the metrics are `backtrace_metrics`. -/
def metricsEnvironment (filterAndPatch : List Frame → List Entry) (available : Bool) :
    Environment Frame Entry (BacktraceMetrics n) where
  filterAndPatch := filterAndPatch
  hwCountersAvailable := available
  hwCountersEnabled m := m.valid.hardware
  sub := BacktraceMetrics.sub
  noMetrics := {}

/-- `parse_timer_data`, with the time and the metrics of the first bundle. -/
def parseTimerData (env : Environment Frame Entry (BacktraceMetrics n)) (sort : KeySort ℕ) (tid : ℤ)
    (init : UInt64 × Option (BacktraceMetrics n)) (data : List (Bundle Frame (BacktraceMetrics n))) :
    List (TimerSamplingData Entry (BacktraceMetrics n)) :=
  sort.sort (fun d => d.beg.toNat) (timerIntervals env tid init data)

/-- `0.5 * (m_beg + m_end)` as a time. -/
@[irreducible] def middle (beg stop : UInt64) : UInt64 :=
  UInt64.ofNat ⌊nearestDouble ((beg + stop).toNat : ℚ) / 2⌋₊

/-- The union of the masks. -/
def validMetrics (data : List (TimerSamplingData Entry (BacktraceMetrics n))) : ValidArray :=
  data.foldl (fun valid d c => valid c || d.metrics.valid c) fun _ => false

/-- What is written for each sample and at the end, and the error that was thrown. -/
structure Output where
  samples : List (List Write)
  fini : List Write
  error : Option String
  deriving DecidableEq, Repr

/-- The part of `post_process_perfetto` that is about metrics, where the thread has no tracks
yet; `enabled` is that of the component. -/
def postProcessMetrics (t : Thread) (enabled : Bool)
    (data : List (TimerSamplingData Entry (BacktraceMetrics n))) : Output :=
  let valid := validMetrics data
  if enabled then
    match t.initPerfetto valid {} with
    | .error e => ⟨data.map fun _ => [], [], some e⟩
    | .ok tracks =>
      let samples := data.map fun d => t.postProcessPerfetto tracks d.metrics (middle d.beg d.stop)
      match t.finiPerfetto tracks valid with
      | .error e => ⟨samples, [], some e⟩
      | .ok fini => ⟨samples, fini, none⟩
  else ⟨data.map fun _ => [], [], none⟩

/-! ## What is asked for -/

/-- Every value is written on the track of its category. -/
def OnTracks (t : Thread) (out : Output) : Prop :=
  (∀ ws ∈ out.samples, ∀ w ∈ ws, t.OnTrack w) ∧ ∀ w ∈ out.fini, t.OnTrack w

instance (t : Thread) (out : Output) : Decidable (OnTracks t out) :=
  inferInstanceAs (Decidable (_ ∧ _))

/-- What is written for a category: for each sample, and at the end. -/
def Output.valuesOf (metric : Metric) (out : Output) :
    List (List (Counter × UInt64 × ℤ)) × List (Counter × UInt64 × ℤ) :=
  (out.samples.map (Components.valuesOf metric), Components.valuesOf metric out.fini)

/-- Metrics with the same data and validity of a category. -/
def SameFor (metric : Metric) (m m' : BacktraceMetrics n) : Prop :=
  match metric with
  | .rusage c => m.valid (.rusage c) = m'.valid (.rusage c) ∧ m.get c = m'.get c
  | .hardware =>
    m.valid .hwCounters = m'.valid .hwCounters ∧
      m.valid .threadHardwareCounter = m'.valid .threadHardwareCounter ∧
      m.hwCounter = m'.hwCounter

/-- Bundles that differ at most in the metrics of other categories. -/
structure SameBundle (metric : Metric) (b b' : Bundle Frame (BacktraceMetrics n)) : Prop where
  backtrace : b.backtrace = b'.backtrace
  timestamp : b.timestamp = b'.timestamp
  metrics : Option.Rel (SameFor metric) b.metrics b'.metrics

/-! ## The samples that count -/

/-- The metrics of each sample that `parse_timer_data` does not skip, after those of the one
before. -/
def followed (tid : ℤ) : Option (BacktraceMetrics n) → List (Bundle Frame (BacktraceMetrics n)) →
    List (Option (BacktraceMetrics n) × Option (BacktraceMetrics n))
  | _, [] => []
  | last, bundle :: data =>
    match bundle.backtrace, bundle.timestamp with
    | some frames, some ts =>
      if frames.isEmpty || ts.tid != tid then followed tid last data
      else (last, bundle.metrics) :: followed tid bundle.metrics data
    | _, _ => followed tid last data

/-- Whether the hardware counters are there in both of two samples. -/
def counted (available : Bool) : Option (BacktraceMetrics n) × Option (BacktraceMetrics n) → Bool
  | (some last, some m) => available && m.valid.hardware && last.valid.hardware
  | _ => false

/-- The metrics of the samples that are counted. -/
def countedMetrics (available : Bool)
    (ms : List (Option (BacktraceMetrics n) × Option (BacktraceMetrics n))) :
    List (BacktraceMetrics n) :=
  (ms.filter (counted available)).filterMap Prod.snd

/-- A counted sample with a category has those before it that any counted sample has. -/
def InOrder (ms : List (BacktraceMetrics n)) : Prop :=
  ∀ m ∈ ms, ∀ m' ∈ ms, m.valid.Leads m'.valid

/-- Whether a category is valid. -/
def hasMetric (metric : Metric) (valid : ValidArray) : Bool :=
  match metric with
  | .rusage c => valid (.rusage c)
  | .hardware => valid.hardware

/-- Two samples are both counted or both not, if they have the category. -/
def CountedAlike (available : Bool) (metric : Metric)
    (p q : Option (BacktraceMetrics n) × Option (BacktraceMetrics n)) : Prop :=
  (p.2.any fun m => hasMetric metric m.valid) = true → (counted available p = true ↔ counted available q = true)

/-- Whether anything can be written: metrics are enabled, and each counter can be described. -/
def Writing (t : Thread) (enabled : Bool) : Prop :=
  enabled = true ∧ ∀ label ∈ t.hwCounterLabels, t.lacksDescription label = false

instance (t : Thread) (enabled : Bool) : Decidable (Writing t enabled) :=
  inferInstanceAs (Decidable (_ ∧ _))

/-- Samples of a thread that differ at most in the metrics of other categories. -/
structure SameSamples (metric : Metric) (init init' : UInt64 × Option (BacktraceMetrics n))
    (data data' : List (Bundle Frame (BacktraceMetrics n))) : Prop where
  start : init.1 = init'.1
  first : Option.Rel (SameFor metric) init.2 init'.2
  data : List.Forall₂ (SameBundle metric) data data'

end Definitions

/-! ## The metrics that are counted -/

section Counted

variable {Frame Entry : Type} {n : ℕ} {filterAndPatch : List Frame → List Entry} {available : Bool}
  {sort : KeySort ℕ} {tid : ℤ} {init : UInt64 × Option (BacktraceMetrics n)}
  {data : List (Bundle Frame (BacktraceMetrics n))}

theorem metricsSince_eq (last m : Option (BacktraceMetrics n)) :
    metricsSince (metricsEnvironment filterAndPatch available) last m =
      if counted available (last, m) then
        (m.getD {}).sub (last.getD {})
      else {} := by
  cases last with
  | none => cases m <;> rfl
  | some last =>
    cases m with
    | none => rfl
    | some m => rfl

theorem timerIntervals_metrics (env : Environment Frame Entry (BacktraceMetrics n)) :
    (timerIntervals env tid init data).map TimerSamplingData.metrics =
      (followed tid init.2 data).map fun p => metricsSince env p.1 p.2 := by
  induction data generalizing init with
  | nil => rfl
  | cons bundle data ih =>
    unfold timerIntervals followed
    cases bundle.backtrace with
    | none => exact ih
    | some frames =>
      cases bundle.timestamp with
      | none => exact ih
      | some ts =>
        show List.map _ (if _ then _ else _) = List.map _ (if _ then _ else _)
        split_ifs
        · exact ih
        · exact congrArg (_ :: ·) ih

/-- Timer data whose masks are those of the metrics, or empty. -/
def SameMasks (ds : List (TimerSamplingData Entry (BacktraceMetrics n)))
    (ms : List (BacktraceMetrics n)) : Prop :=
  ∀ q : ValidArray → Prop, (q fun _ => false) →
    ((∀ d ∈ ds, q d.metrics.valid) ↔ ∀ m ∈ ms, q m.valid)

theorem sameMasks_parseTimerData (filterAndPatch : List Frame → List Entry) (available : Bool)
    (sort : KeySort ℕ) (tid : ℤ) (init : UInt64 × Option (BacktraceMetrics n))
    (data : List (Bundle Frame (BacktraceMetrics n))) :
    SameMasks (parseTimerData (metricsEnvironment filterAndPatch available) sort tid init data)
      (countedMetrics available (followed tid init.2 data)) := by
  intro q hq
  have hperm := (sort.sortedBy_sort (fun d => d.beg.toNat)
    (timerIntervals (metricsEnvironment filterAndPatch available) tid init data)).1
  have hparsed : (∀ d ∈ parseTimerData (metricsEnvironment filterAndPatch available) sort tid init
        data, q d.metrics.valid) ↔
      ∀ m ∈ (timerIntervals (metricsEnvironment filterAndPatch available) tid init data).map
        TimerSamplingData.metrics, q m.valid := by
    rw [List.forall_mem_map]
    exact ⟨fun h d hd => h d (hperm.symm.subset hd), fun h d hd => h d (hperm.subset hd)⟩
  rw [hparsed, timerIntervals_metrics, List.forall_mem_map]
  unfold countedMetrics
  constructor
  · intro h m hm
    obtain ⟨p, hp, hsnd⟩ := List.mem_filterMap.mp hm
    obtain ⟨hmem, hcounted⟩ := List.mem_filter.mp hp
    have hvalid := h p hmem
    rw [metricsSince_eq, if_pos hcounted, hsnd] at hvalid
    exact hvalid
  · intro h p hp
    rw [metricsSince_eq]
    split_ifs with hcounted
    · obtain ⟨last, m⟩ := p
      cases m with
      | none =>
        cases last <;> exact absurd hcounted Bool.false_ne_true
      | some m =>
        exact h m (List.mem_filterMap.mpr ⟨_, List.mem_filter.mpr ⟨hp, hcounted⟩, rfl⟩)
    · exact hq

theorem validMetrics_eq (ds : List (TimerSamplingData Entry (BacktraceMetrics n))) (c : Category) :
    validMetrics ds c = ds.any fun d => d.metrics.valid c := by
  have hfoldl : ∀ (ds : List (TimerSamplingData Entry (BacktraceMetrics n))) (valid : ValidArray),
      ds.foldl (fun valid d c => valid c || d.metrics.valid c) valid c =
        (valid c || ds.any fun d => d.metrics.valid c) := by
    intro ds
    induction ds with
    | nil => exact fun valid => (Bool.or_false _).symm
    | cons d ds ih =>
      intro valid
      rw [List.foldl_cons, ih, List.any_cons, Bool.or_assoc]
  exact (hfoldl ds _).trans (Bool.false_or _)

/-- The union has a category exactly if something that is counted has it. -/
theorem validMetrics_iff {ds : List (TimerSamplingData Entry (BacktraceMetrics n))}
    {ms : List (BacktraceMetrics n)} (h : SameMasks ds ms) (c : Category) :
    validMetrics ds c = true ↔ ∃ m ∈ ms, m.valid c = true := by
  have hnone := h (fun valid => valid c ≠ true) Bool.false_ne_true
  rw [validMetrics_eq, List.any_eq_true, ← not_iff_not]
  simp only [not_exists, not_and]
  exact hnone

/-- Metrics are counted with both categories of the hardware counters. -/
theorem hardware_of_mem {m : BacktraceMetrics n}
    {ms : List (Option (BacktraceMetrics n) × Option (BacktraceMetrics n))}
    (hm : m ∈ countedMetrics available ms) : m.valid.hardware = true := by
  obtain ⟨⟨last, m'⟩, hp, hsnd⟩ := List.mem_filterMap.mp hm
  have hcounted := (List.mem_filter.mp hp).2
  cases hsnd
  cases last with
  | none => cases hcounted
  | some last => exact (Bool.and_eq_true_iff.mp (Bool.and_eq_true_iff.mp hcounted).1).2

end Counted

/-! ## What is written -/

section Written

variable {Entry : Type} {n : ℕ} {t : Thread} {enabled : Bool}
  {ds : List (TimerSamplingData Entry (BacktraceMetrics n))}

theorem postProcess_of_silent {m : BacktraceMetrics n} {tracks : Tracks} {ts : UInt64}
    (h : ∀ c, m.valid c = false) : t.postProcessPerfetto tracks m ts = [] := by
  unfold Thread.postProcessPerfetto
  rw [rusageWrites_eq, List.filter_eq_nil_iff.mpr (fun c _ => by rw [h]; exact Bool.false_ne_true),
    if_neg (by rw [ValidArray.hardware, h]; exact Bool.false_ne_true)]
  rfl

theorem finalWrites_of_silent {valid : ValidArray} {tracks : Tracks} {stop : UInt64}
    (h : ∀ c, valid c = false) : t.finalWrites tracks valid stop = [] := by
  unfold Thread.finalWrites
  rw [rusageWrites_eq, List.filter_eq_nil_iff.mpr (fun c _ => by rw [h]; exact Bool.false_ne_true),
    if_neg (by rw [ValidArray.hardware, h]; exact Bool.false_ne_true)]
  rfl

theorem postProcessMetrics_of_writing (ds : List (TimerSamplingData Entry (BacktraceMetrics n)))
    (h : Writing t enabled) :
    (postProcessMetrics t enabled ds).samples =
        ds.map (fun d => t.postProcessPerfetto (t.tracksFor (validMetrics ds)) d.metrics
          (middle d.beg d.stop)) ∧
      (postProcessMetrics t enabled ds).fini =
        match t.stop with
        | none => []
        | some stop => t.finalWrites (t.tracksFor (validMetrics ds)) (validMetrics ds) stop := by
  have hfind : t.hwCounterLabels.find? t.lacksDescription = none :=
    List.find?_eq_none.mpr fun label hlabel => by rw [h.2 label hlabel]; exact Bool.false_ne_true
  unfold postProcessMetrics Thread.finiPerfetto
  rw [if_pos h.1, initPerfetto_empty, hfind]
  cases t.stop with
  | none => cases t.continuousIntegration <;> exact ⟨rfl, rfl⟩
  | some stop => exact ⟨rfl, rfl⟩

/-- Nothing is written where metrics are disabled or a counter cannot be described. -/
theorem postProcessMetrics_of_not_writing (h : ¬ Writing t enabled)
    (hvalid : ∀ c, validMetrics ds c = true → (validMetrics ds).hardware = true) :
    (postProcessMetrics t enabled ds).samples = ds.map (fun _ => []) ∧
      (postProcessMetrics t enabled ds).fini = [] := by
  cases enabled with
  | false => exact ⟨rfl, rfl⟩
  | true =>
    unfold postProcessMetrics
    rw [if_pos rfl, initPerfetto_empty]
    cases hfind : t.hwCounterLabels.find? t.lacksDescription with
    | none =>
      refine absurd ⟨rfl, fun label hlabel => ?_⟩ h
      exact eq_false_of_ne_true (List.find?_eq_none.mp hfind label hlabel)
    | some label =>
      cases hhardware : (validMetrics ds).hardware with
      | true => exact ⟨rfl, rfl⟩
      | false =>
        have hsilent : ∀ c, validMetrics ds c = false := fun c => by
          refine eq_false_of_ne_true fun hc => ?_
          rw [hvalid c hc] at hhardware
          cases hhardware
        have hsamples : ds.map (fun d => t.postProcessPerfetto (t.tracksFor (validMetrics ds))
            d.metrics (middle d.beg d.stop)) = ds.map fun _ => [] := by
          refine List.map_congr_left fun d hd => postProcess_of_silent fun c => ?_
          have hc := hsilent c
          rw [validMetrics_eq, List.any_eq_false] at hc
          exact eq_false_of_ne_true (hc d hd)
        unfold Thread.finiPerfetto
        simp only [Bool.false_eq_true, if_false]
        rw [hsamples]
        cases t.stop with
        | none => cases t.continuousIntegration <;> exact ⟨rfl, rfl⟩
        | some stop => exact ⟨rfl, finalWrites_of_silent hsilent⟩

end Written

/-! ## Tracks -/

section Tracks

variable {Entry : Type} {n : ℕ} {t : Thread} {enabled : Bool}
  {ds : List (TimerSamplingData Entry (BacktraceMetrics n))} {ms : List (BacktraceMetrics n)}

theorem validMetrics_hardware (h : SameMasks ds ms) (hms : ∀ m ∈ ms, m.valid.hardware = true)
    (c : Category) (hc : validMetrics ds c = true) : (validMetrics ds).hardware = true := by
  obtain ⟨m, hm, -⟩ := (validMetrics_iff h c).mp hc
  obtain ⟨hcomponent, hcategory⟩ := Bool.and_eq_true_iff.mp (hms m hm)
  exact Bool.and_eq_true_iff.mpr
    ⟨(validMetrics_iff h _).mpr ⟨m, hm, hcomponent⟩, (validMetrics_iff h _).mpr ⟨m, hm, hcategory⟩⟩

/-- A mask leads the union of masks exactly if it leads each. -/
theorem leads_iff {valid every : ValidArray} {masks : List ValidArray}
    (hunion : ∀ c, every c = true ↔ ∃ mask ∈ masks, mask c = true) :
    valid.Leads every ↔ ∀ mask ∈ masks, valid.Leads mask := by
  unfold ValidArray.Leads
  constructor
  · intro h mask hmask
    exact h.imp fun hc hlater hearlier => hc hlater ((hunion _).mpr ⟨mask, hmask, hearlier⟩)
  · intro h
    rw [List.pairwise_iff_getElem]
    intro j k hj hk hlt hlater hearlier
    obtain ⟨mask, hmask, hearlier⟩ := (hunion _).mp hearlier
    exact List.pairwise_iff_getElem.mp (h mask hmask) j k hj hk hlt hlater hearlier

theorem leads_none (every : ValidArray) : ValidArray.Leads (fun _ => false) every :=
  List.pairwise_of_forall fun _ _ hfalse => absurd hfalse Bool.false_ne_true

theorem onTrack_samples_iff (h : SameMasks ds ms) :
    (∀ d ∈ ds, ∀ w ∈ t.postProcessPerfetto (t.tracksFor (validMetrics ds)) d.metrics
        (middle d.beg d.stop), t.OnTrack w) ↔ InOrder ms := by
  have hsub : ∀ d ∈ ds, ∀ c, d.metrics.valid c = true → validMetrics ds c = true := by
    intro d hd c hc
    rw [validMetrics_eq]
    exact List.any_eq_true.mpr ⟨d, hd, hc⟩
  have hunion : ∀ c, validMetrics ds c = true ↔
      ∃ mask ∈ ms.map BacktraceMetrics.valid, mask c = true := by
    intro c
    simp only [List.mem_map, exists_exists_and_eq_and]
    exact validMetrics_iff h c
  have hpost := forall₂_congr fun d hd =>
    onTrack_postProcess_iff t (middle d.beg d.stop) (hsub d hd)
  rw [hpost, h (fun mask => mask.Leads (validMetrics ds)) (leads_none _)]
  refine forall₂_congr fun m _ => ?_
  rw [leads_iff hunion, List.forall_mem_map]

/-- Every value is on the track of its category exactly if the counted samples with a category
have those before it. -/
theorem onTracks_iff (h : SameMasks ds ms) (hms : ∀ m ∈ ms, m.valid.hardware = true) :
    OnTracks t (postProcessMetrics t enabled ds) ↔ (Writing t enabled → InOrder ms) := by
  unfold OnTracks
  by_cases hwriting : Writing t enabled
  · obtain ⟨hwritten, hfini⟩ := postProcessMetrics_of_writing ds hwriting
    have hzeros : ∀ w ∈ (postProcessMetrics t enabled ds).fini, t.OnTrack w := by
      rw [hfini]
      cases t.stop with
      | none => exact nofun
      | some stop => exact onTrack_finalWrites t stop
    rw [and_iff_left hzeros, hwritten, List.forall_mem_map, onTrack_samples_iff h]
    exact ⟨fun horder _ => horder, fun horder => horder hwriting⟩
  · obtain ⟨hwritten, hfini⟩ :=
      postProcessMetrics_of_not_writing hwriting (validMetrics_hardware h hms)
    rw [hwritten, hfini, List.forall_mem_map]
    exact iff_of_true ⟨fun _ _ => nofun, nofun⟩ fun h => absurd h hwriting

end Tracks

section Recording

variable {Frame Entry : Type} {n : ℕ} {filterAndPatch : List Frame → List Entry} {available : Bool}
  {sort : KeySort ℕ} {t : Thread} {enabled : Bool}
  {init init' : UInt64 × Option (BacktraceMetrics n)}
  {data data' : List (Bundle Frame (BacktraceMetrics n))}

/-! ## Categories apart from each other -/

/-- The start and the end of what is recorded are the same. -/
theorem timerIntervals_times (filterAndPatch : List Frame → List Entry) (available : Bool)
    (tid : ℤ) {metric : Metric} (h : SameSamples metric init init' data data') :
    (timerIntervals (metricsEnvironment filterAndPatch available) tid init data).map
        (fun d => (d.beg, d.stop)) =
      (timerIntervals (metricsEnvironment filterAndPatch available) tid init' data').map
        (fun d => (d.beg, d.stop)) := by
  obtain ⟨hstart, hfirst, hdata⟩ := h
  induction hdata generalizing init init' with
  | nil => rfl
  | @cons b b' data data' hb _ ih =>
    unfold timerIntervals
    rw [← hb.backtrace, ← hb.timestamp]
    cases b.backtrace with
    | none => exact ih hstart hfirst
    | some frames =>
      cases b.timestamp with
      | none => exact ih hstart hfirst
      | some ts =>
        show List.map _ (if _ then _ else _) = List.map _ (if _ then _ else _)
        split_ifs
        · exact ih hstart hfirst
        · rw [List.map_cons, List.map_cons, hstart]
          exact congrArg (_ :: ·) (ih rfl hb.metrics)

theorem ownValues_ite_sub (t : Thread) (ts : UInt64) (c : Rusage) (b : Bool)
    (m last : BacktraceMetrics n) :
    ownValues t (.rusage c) (if b then m.sub last else {}) ts =
      if b && m.valid (.rusage c) then [(.rusage c, ts, t.scaled c (m.get c - last.get c))]
      else [] := by
  cases b with
  | false => rfl
  | true =>
    rw [if_pos rfl, Bool.true_and, ownValues, BacktraceMetrics.valid_sub]
    cases hvalid : m.valid (.rusage c) with
    | false => rfl
    | true => rw [if_pos rfl, if_pos rfl, BacktraceMetrics.get_sub hvalid]

/-- The hardware counters of two samples are counted alike. -/
theorem counted_of_same {last last' m m' : BacktraceMetrics n} (hlast : SameFor .hardware last last')
    (hm : SameFor .hardware m m') :
    counted available (some last, some m) = counted available (some last', some m') := by
  show (available && (m.valid .hwCounters && m.valid .threadHardwareCounter) &&
    (last.valid .hwCounters && last.valid .threadHardwareCounter)) = _
  rw [hlast.1, hlast.2.1, hm.1, hm.2.1]
  rfl

theorem ownValues_hardware_eq {t : Thread} {ts : UInt64} {m m' : BacktraceMetrics n}
    (h : SameFor .hardware m m') : ownValues t .hardware m ts = ownValues t .hardware m' ts := by
  unfold ownValues ValidArray.hardware
  rw [h.1, h.2.1]
  unfold Thread.hwValue
  rw [h.2.2]

theorem sameFor_sub {last last' m m' : BacktraceMetrics n} (hlast : SameFor .hardware last last')
    (hm : SameFor .hardware m m') : SameFor .hardware (m.sub last) (m'.sub last') := by
  refine ⟨hm.1, hm.2.1, ?_⟩
  have hvalid : m.valid.hardware = m'.valid.hardware := by
    unfold ValidArray.hardware
    rw [hm.1, hm.2.1]
  show (if m.valid.hardware then _ else _) = if m'.valid.hardware then _ else _
  rw [hvalid, hm.2.2, hlast.2.2]

/-- What is recorded is the same after sorting if it is the same before. -/
theorem parseTimerData_map_eq_iff {β : Type} (filterAndPatch : List Frame → List Entry)
    (available : Bool) (sort : KeySort ℕ) (tid : ℤ) {metric : Metric}
    (h : SameSamples metric init init' data data')
    (f : TimerSamplingData Entry (BacktraceMetrics n) → β) :
    (parseTimerData (metricsEnvironment filterAndPatch available) sort tid init data).map f =
        (parseTimerData (metricsEnvironment filterAndPatch available) sort tid init' data').map f ↔
      (timerIntervals (metricsEnvironment filterAndPatch available) tid init data).map f =
        (timerIntervals (metricsEnvironment filterAndPatch available) tid init' data').map f := by
  have hbegs := congrArg (List.map fun times => times.1.toNat)
    (timerIntervals_times filterAndPatch available tid h)
  rw [List.map_map, List.map_map] at hbegs
  exact sort.map_sort_eq_iff hbegs f f

/-- What is written for a category in one sample is the same where the samples are counted
alike. -/
theorem ownValues_eq_iff (filterAndPatch : List Frame → List Entry) (t : Thread) (ts : UInt64)
    {metric : Metric} {last last' m m' : Option (BacktraceMetrics n)}
    (hlast : Option.Rel (SameFor metric) last last') (hm : Option.Rel (SameFor metric) m m') :
    ownValues t metric (metricsSince (metricsEnvironment filterAndPatch available) last m) ts =
        ownValues t metric (metricsSince (metricsEnvironment filterAndPatch available) last' m')
          ts ↔
      CountedAlike available metric (last, m) (last', m') := by
  cases hlast with
  | none => cases hm <;> exact iff_of_true rfl fun _ => Iff.rfl
  | @some last last' hlast =>
    cases hm with
    | none => exact iff_of_true rfl fun _ => Iff.rfl
    | @some m m' hm =>
      rw [metricsSince_eq, metricsSince_eq]
      unfold CountedAlike
      cases metric with
      | rusage c =>
        show ownValues t _ (if _ then m.sub last else {}) ts =
          ownValues t _ (if _ then m'.sub last' else {}) ts ↔ (m.valid (.rusage c) = true → _)
        rw [ownValues_ite_sub, ownValues_ite_sub, hm.1, hm.2, hlast.2]
        cases m'.valid (.rusage c) <;> cases counted available (some last, some m) <;>
          cases counted available (some last', some m') <;> simp
      | hardware =>
        rw [counted_of_same hlast hm]
        refine iff_of_true ?_ fun _ => Iff.rfl
        split_ifs
        · exact ownValues_hardware_eq (sameFor_sub hlast hm)
        · rfl

theorem ownValues_map_eq_iff (filterAndPatch : List Frame → List Entry) (available : Bool)
    (t : Thread) (tid : ℤ) {metric : Metric} (h : SameSamples metric init init' data data') :
    (timerIntervals (metricsEnvironment filterAndPatch available) tid init data).map
        (fun d => ownValues t metric d.metrics (middle d.beg d.stop)) =
      (timerIntervals (metricsEnvironment filterAndPatch available) tid init' data').map
        (fun d => ownValues t metric d.metrics (middle d.beg d.stop)) ↔
      List.Forall₂ (CountedAlike available metric) (followed tid init.2 data)
        (followed tid init'.2 data') := by
  obtain ⟨hstart, hfirst, hdata⟩ := h
  induction hdata generalizing init init' with
  | nil => exact iff_of_true rfl List.Forall₂.nil
  | @cons b b' data data' hb _ ih =>
    unfold timerIntervals followed
    rw [← hb.backtrace, ← hb.timestamp]
    cases b.backtrace with
    | none => exact ih hstart hfirst
    | some frames =>
      cases b.timestamp with
      | none => exact ih hstart hfirst
      | some ts =>
        show List.map _ (if _ then _ else _) = List.map _ (if _ then _ else _) ↔
          List.Forall₂ _ (if _ then _ else _) (if _ then _ else _)
        split_ifs
        · exact ih hstart hfirst
        · rw [List.map_cons, List.map_cons, List.forall₂_cons, List.cons.injEq, hstart]
          exact and_congr (ownValues_eq_iff filterAndPatch t _ hfirst hb.metrics)
            (ih rfl hb.metrics)

theorem followed_same {tid : ℤ} {metric : Metric} (h : SameSamples metric init init' data data') :
    List.Forall₂ (fun p q => Option.Rel (SameFor metric) p.2 q.2)
      (followed tid init.2 data) (followed tid init'.2 data') := by
  obtain ⟨-, -, hdata⟩ := h
  induction hdata generalizing init init' with
  | nil => exact List.Forall₂.nil
  | @cons b b' data data' hb _ ih =>
    unfold followed
    rw [← hb.backtrace, ← hb.timestamp]
    cases b.backtrace with
    | none => exact ih
    | some frames =>
      cases b.timestamp with
      | none => exact ih
      | some ts =>
        show List.Forall₂ _ (if _ then _ else _) (if _ then _ else _)
        split_ifs
        · exact ih
        · exact List.Forall₂.cons hb.metrics (@ih (ts.real, b.metrics) (ts.real, b'.metrics))

end Recording

/-! ## Categories at the end -/

section Final

variable {Entry : Type} {n : ℕ} {t : Thread} {enabled available : Bool} {metric : Metric}
  {ds ds' : List (TimerSamplingData Entry (BacktraceMetrics n))} {ms : List (BacktraceMetrics n)}
  {ps qs : List (Option (BacktraceMetrics n) × Option (BacktraceMetrics n))}

theorem hasMetric_validMetrics (h : SameMasks ds ms) (hms : ∀ m ∈ ms, m.valid.hardware = true) :
    hasMetric metric (validMetrics ds) = true ↔ ∃ m ∈ ms, hasMetric metric m.valid = true := by
  cases metric with
  | rusage c => exact validMetrics_iff h _
  | hardware =>
    constructor
    · intro hboth
      obtain ⟨m, hm, -⟩ := (validMetrics_iff h _).mp (Bool.and_eq_true_iff.mp hboth).1
      exact ⟨m, hm, hms m hm⟩
    · rintro ⟨m, hm, hboth⟩
      obtain ⟨hcomponent, hcategory⟩ := Bool.and_eq_true_iff.mp hboth
      exact Bool.and_eq_true_iff.mpr ⟨(validMetrics_iff h _).mpr ⟨m, hm, hcomponent⟩,
        (validMetrics_iff h _).mpr ⟨m, hm, hcategory⟩⟩

theorem hasMetric_of_same {m m' : BacktraceMetrics n} (h : SameFor metric m m') :
    hasMetric metric m.valid = hasMetric metric m'.valid := by
  cases metric with
  | rusage c => exact h.1
  | hardware =>
    show (m.valid _ && m.valid _) = (m'.valid _ && m'.valid _)
    rw [h.1, h.2.1]

theorem countedMetrics_cons (p : Option (BacktraceMetrics n) × Option (BacktraceMetrics n)) :
    (∃ m ∈ countedMetrics available (p :: ps), hasMetric metric m.valid = true) ↔
      (counted available p = true ∧ (p.2.any fun m => hasMetric metric m.valid) = true) ∨
        ∃ m ∈ countedMetrics available ps, hasMetric metric m.valid = true := by
  obtain ⟨last, m⟩ := p
  unfold countedMetrics
  cases hcounted : counted available (last, m) with
  | false =>
    rw [List.filter_cons_of_neg (by rw [hcounted]; exact Bool.false_ne_true)]
    simp
  | true =>
    rw [List.filter_cons_of_pos hcounted]
    cases m with
    | none => cases last <;> cases hcounted
    | some m => simp

/-- Samples that are counted alike have a category together. -/
theorem countedMetrics_same
    (hsame : List.Forall₂ (fun p q => Option.Rel (SameFor metric) p.2 q.2) ps qs)
    (halike : List.Forall₂ (CountedAlike available metric) ps qs) :
    (∃ m ∈ countedMetrics available ps, hasMetric metric m.valid = true) ↔
      ∃ m ∈ countedMetrics available qs, hasMetric metric m.valid = true := by
  induction hsame with
  | nil => exact Iff.rfl
  | @cons p q ps qs hpq _ ih =>
    obtain ⟨hhead, htail⟩ := List.forall₂_cons.mp halike
    rw [countedMetrics_cons, countedMetrics_cons, ih htail]
    have hany : (p.2.any fun m => hasMetric metric m.valid) =
        q.2.any fun m => hasMetric metric m.valid := by
      generalize p.2 = m at hpq
      generalize q.2 = m' at hpq
      cases hpq with
      | none => rfl
      | some h => exact hasMetric_of_same h
    unfold CountedAlike at hhead
    rw [← hany]
    refine or_congr ⟨fun h => ⟨(hhead h.2).mp h.1, h.2⟩, fun h => ⟨(hhead h.2).mpr h.1, h.2⟩⟩ Iff.rfl

/-- The values for each sample follow from its own part, and the zeros from the union. -/
theorem valuesOf_postProcessMetrics (h : SameMasks ds ms)
    (hms : ∀ m ∈ ms, m.valid.hardware = true) (hwriting : Writing t enabled) :
    (postProcessMetrics t enabled ds).samples.map (valuesOf metric) =
      ds.map fun d => ownValues t metric d.metrics (middle d.beg d.stop) := by
  rw [(postProcessMetrics_of_writing ds hwriting).1, List.map_map]
  refine List.map_congr_left fun d hd => valuesOf_postProcess metric fun hhardware => ?_
  refine validMetrics_hardware h hms .hwCounters ?_
  rw [validMetrics_eq]
  exact List.any_eq_true.mpr ⟨d, hd, (Bool.and_eq_true_iff.mp hhardware).1⟩

theorem valuesOf_fini_eq (hwriting : Writing t enabled)
    (hmetric : hasMetric metric (validMetrics ds) = hasMetric metric (validMetrics ds')) :
    valuesOf metric (postProcessMetrics t enabled ds).fini =
      valuesOf metric (postProcessMetrics t enabled ds').fini := by
  rw [(postProcessMetrics_of_writing ds hwriting).2, (postProcessMetrics_of_writing ds' hwriting).2]
  cases t.stop with
  | none => rfl
  | some stop =>
    show valuesOf metric (t.finalWrites _ _ stop) = valuesOf metric (t.finalWrites _ _ stop)
    rw [valuesOf_finalWrites, valuesOf_finalWrites]
    cases metric with
    | rusage c =>
      have hrusage : validMetrics ds (.rusage c) = validMetrics ds' (.rusage c) := hmetric
      show (if validMetrics ds (.rusage c) = true then _ else _) =
        if validMetrics ds' (.rusage c) = true then _ else _
      rw [hrusage]
    | hardware =>
      have hhardware : (validMetrics ds).hardware = (validMetrics ds').hardware := hmetric
      show (if (validMetrics ds).hardware = true then _ else _) =
        if (validMetrics ds').hardware = true then _ else _
      rw [hhardware]

end Final

/-! ## Threads -/

/-- Every value is on the track of its category exactly if each counted sample with a category has
those before it that any counted sample has; and turning other categories on and off leaves the
values of a category as they are exactly if its samples are counted alike. -/
theorem metricTracks_iff {Frame Entry : Type} {n : ℕ} (filterAndPatch : List Frame → List Entry)
    (available : Bool) (sort : KeySort ℕ) (t : Thread) (enabled : Bool)
    (init : UInt64 × Option (BacktraceMetrics n))
    (data : List (Bundle Frame (BacktraceMetrics n))) :
    (OnTracks t (postProcessMetrics t enabled
        (parseTimerData (metricsEnvironment filterAndPatch available) sort t.tid init data)) ↔
      (Writing t enabled → InOrder (countedMetrics available (followed t.tid init.2 data)))) ∧
    ∀ (metric : Metric) (init' : UInt64 × Option (BacktraceMetrics n))
      (data' : List (Bundle Frame (BacktraceMetrics n))),
      SameSamples metric init init' data data' →
      ((postProcessMetrics t enabled
          (parseTimerData (metricsEnvironment filterAndPatch available) sort t.tid init
            data)).valuesOf metric =
        (postProcessMetrics t enabled
          (parseTimerData (metricsEnvironment filterAndPatch available) sort t.tid init'
            data')).valuesOf metric ↔
        (Writing t enabled →
          List.Forall₂ (CountedAlike available metric) (followed t.tid init.2 data)
            (followed t.tid init'.2 data'))) := by
  have hms : ∀ {ps}, ∀ m ∈ countedMetrics (n := n) available ps, m.valid.hardware = true :=
    fun m hm => hardware_of_mem hm
  have hmasks := fun init data => @sameMasks_parseTimerData Frame Entry n filterAndPatch available
    sort t.tid init data
  refine ⟨onTracks_iff (hmasks init data) hms, fun metric init' data' hsame => ?_⟩
  have hown := (parseTimerData_map_eq_iff filterAndPatch available sort t.tid hsame _).trans
    (ownValues_map_eq_iff filterAndPatch available t t.tid hsame)
  unfold Output.valuesOf
  rw [Prod.mk.injEq]
  by_cases hwriting : Writing t enabled
  · rw [valuesOf_postProcessMetrics (hmasks init data) hms hwriting,
      valuesOf_postProcessMetrics (hmasks init' data') hms hwriting, hown]
    refine ⟨fun h _ => h.1, fun h => ⟨h hwriting, valuesOf_fini_eq hwriting ?_⟩⟩
    rw [Bool.eq_iff_iff, hasMetric_validMetrics (hmasks init data) hms,
      hasMetric_validMetrics (hmasks init' data') hms]
    exact countedMetrics_same (followed_same hsame) (h hwriting)
  · refine iff_of_true ?_ fun h => absurd h hwriting
    obtain ⟨hsamples, hfini⟩ := postProcessMetrics_of_not_writing hwriting
      (validMetrics_hardware (hmasks init data) hms)
    obtain ⟨hsamples', hfini'⟩ := postProcessMetrics_of_not_writing hwriting
      (validMetrics_hardware (hmasks init' data') hms)
    rw [hsamples, hsamples', hfini, hfini', List.map_map, List.map_map]
    refine ⟨(parseTimerData_map_eq_iff filterAndPatch available sort t.tid hsame _).mpr ?_, rfl⟩
    have htimes := congrArg (List.map fun _ => valuesOf metric [])
      (timerIntervals_times filterAndPatch available t.tid hsame)
    rwa [List.map_map, List.map_map] at htimes

/-! ### Two samples of a thread -/

/-- A sample with a counter of the hardware, whose categories are those of a mask. -/
def sampleWith (ts : UInt64) (valid : ValidArray) : Bundle Unit (BacktraceMetrics 1) where
  size := 3
  backtrace := some [()]
  callchain := none
  timestamp := some ⟨0, ts⟩
  metrics := some { valid, cpu := ts.toNat, memPeak := 8 }
  two_le_size _ _ := by decide

def thread0 : Thread where
  tid := 0
  hwCounterLabels := ["PAPI_TOT_CYC"]
  stop := some 40
  continuousIntegration := false
  shortDescr _ := "Total cycles"
  sec := 1
  megabyte := 1

/-- The thread's part of the perfetto output, whose first sample is taken at time 10. -/
def written0 (data : List (Bundle Unit (BacktraceMetrics 1))) : Output :=
  postProcessMetrics thread0 true (parseTimerData (metricsEnvironment id true) KeySort.insertion 0
    (10, some { valid := fun _ => true }) data)

/-- Where the cpu time is disabled between two samples, the memory of the second is written on the
track of the cpu time; and disabling the hardware counters removes the cpu times. -/
theorem not_onTracks_disabled :
    ¬ OnTracks thread0
        (written0 [sampleWith 20 fun _ => true, sampleWith 30 (· ≠ .rusage .threadCpuTime)]) ∧
      SameSamples (.rusage .threadCpuTime) (10, some { valid := fun _ => true })
        (10, some { valid := fun _ => true }) [sampleWith 20 fun _ => true]
        [sampleWith 20 (· ≠ .hwCounters)] ∧
      (written0 [sampleWith 20 fun _ => true]).valuesOf (.rusage .threadCpuTime) ≠
        (written0 [sampleWith 20 (· ≠ .hwCounters)]).valuesOf (.rusage .threadCpuTime) := by
  refine ⟨by decide +kernel, ⟨rfl, .some ⟨rfl, rfl⟩, ?_⟩, by decide +kernel⟩
  exact .cons ⟨rfl, rfl, .some ⟨rfl, rfl⟩⟩ .nil

end Sampling
end Rocprofsys
