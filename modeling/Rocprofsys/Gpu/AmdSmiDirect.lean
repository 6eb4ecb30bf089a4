import Rocprofsys.Gpu.AmdSmiTracks

namespace Rocprofsys
namespace Gpu
namespace AmdSmi

open Base TraceCache

/-! ## Setting up tracks and writing to them -/

def directTrack (metric : Metric) : Track := ⟨metric, directUnit metric.category⟩

/-- The counter of the direct path for a value on a metric's track. -/
def directCounter (timestamp : UInt64) (value : Metric × ℚ) : Counter :=
  ⟨directTrack value.1, timestamp, value.2⟩

theorem foldl_emplace (idx : UInt32) (metrics : List Metric) (tracks : CounterTracks UInt32) :
    metrics.foldl (fun tracks metric =>
      tracks.emplace idx ⟨metric, directUnit metric.category⟩) tracks idx =
        tracks idx ++ metrics.map directTrack := by
  induction metrics generalizing tracks with
  | nil => exact (List.append_nil _).symm
  | cons metric metrics ih =>
    rw [List.foldl_cons, ih, CounterTracks.emplace_self, List.append_assoc]
    rfl

namespace Session

variable (session : Session) (reading : Reading)

/-- The metrics of a reading in the order of their tracks. -/
def metricsOf : List Metric :=
  basicMetrics session.settings ++
    if hasData (session.metrics reading) then
      gpuMetricsTracks session.settings session.device (session.metrics reading) else []

def values : List ℚ :=
  writtenValues session.megabyte session.settings session.device (session.sample reading)

def isValidAt (ts : UInt64) : Bool :=
  (session.lifetime.map fun lifetime => isValidTime lifetime ts).getD false

/-- The metrics of the first reading in the lifetime that has any. -/
def layout (readings : List Reading) : List Metric :=
  (((readings.filter fun reading => session.isValidAt reading.timestamp).map
    session.metricsOf).find? (!·.isEmpty)).getD []

/-- The counters of a reading on the tracks of a layout. -/
def directCounters (layout : List Metric) : Option (List Counter) :=
  if session.isValidAt reading.timestamp then
    if (session.values reading).length ≤ layout.length then
      some ((layout.zip (session.values reading)).map (directCounter reading.timestamp))
    else none
  else some []

theorem length_engineMetrics (category : Category) (isDeviceLevelOnly : Bool)
    (activity : List UInt16) (busy : List (List UInt16)) :
    (engineMetrics category isDeviceLevelOnly activity busy).length =
      (dataFlat isDeviceLevelOnly activity busy).length := by
  cases isDeviceLevelOnly with
  | true =>
    show ((List.range activity.length).map _).length = activity.length
    rw [List.length_map, List.length_range]
  | false =>
    show (busy.zipIdx.flatMap _).length = busy.flatten.length
    rw [List.length_flatMap, List.length_flatten]
    simp only [List.length_map, List.length_range]
    rw [show (fun xcp : List UInt16 × Nat => xcp.1.length) = List.length ∘ Prod.fst from rfl,
      ← List.map_map, List.zipIdx_map_fst]

theorem length_xgmiMetrics (category : Category) (data : List UInt64) :
    (xgmiMetrics category data).length = data.length := by
  rw [xgmiMetrics, List.length_map, List.length_range]

theorem length_ite_nil {α β : Type} {l : List α} {l' : List β} (h : l.length = l'.length)
    (p : Prop) [Decidable p] :
    (if p then l else []).length = (if p then l' else []).length := by
  split
  · exact h
  · rfl

theorem zip_ite_nil {α β : Type} (p : Prop) [Decidable p] (l : List α) (l' : List β) :
    (if p then l else []).zip (if p then l' else []) = if p then l.zip l' else [] := by
  split <;> rfl

theorem length_gpuMetricsTracks (settings : Settings) (device : Device) (metrics : GpuMetrics) :
    (gpuMetricsTracks settings device metrics).length =
      (gpuMetricsValues settings device metrics).length := by
  have hengine (category : Category) (isDeviceLevelOnly : Bool) (activity : List UInt16)
      (busy : List (List UInt16)) :
      (engineMetrics category isDeviceLevelOnly activity busy).length =
        ((dataFlat isDeviceLevelOnly activity busy).map
          fun value => (value.toNat : ℚ)).length := by
    rw [length_engineMetrics, List.length_map]
  rw [gpuMetricsTracks, gpuMetricsValues]
  iterate 6 rw [List.length_append]
  refine congrArg₂ _ (congrArg₂ _ (congrArg₂ _ (length_ite_nil (hengine _ _ _ _) _)
    (length_ite_nil (hengine _ _ _ _) _)) (length_ite_nil ?_ _)) (length_ite_nil ?_ _)
  · iterate 4 rw [List.length_append]
    rw [length_xgmiMetrics, length_xgmiMetrics, List.length_map, List.length_map]
    rfl
  · rfl

/-- What the data of a reading holds for the metrics beyond the basic ones. -/
theorem head?_gpuMetrics {α : Type} (f : GpuMetrics → List α) :
    ((session.sample reading).gpuMetrics.head?.map f).getD [] =
      if hasData (session.metrics reading) then f (session.metrics reading) else [] := by
  show ((if hasData (session.metrics reading) then [session.metrics reading]
    else []).head?.map f).getD [] = _
  split <;> rfl

/-- There is a value for each basic metric that is enabled. -/
theorem length_basicMetrics (settings : Settings) (gfx umc mm temp power memUsage : ℚ) :
    (basicMetrics settings).length =
      ((if settings.busy then [gfx, umc, mm] else []) ++ (if settings.temp then [temp] else []) ++
        (if settings.power then [power] else []) ++
        (if settings.memUsage then [memUsage] else [])).length := by
  rw [basicMetrics]
  iterate 6 rw [List.length_append]
  refine congrArg₂ _ (congrArg₂ _ (congrArg₂ _ (length_ite_nil ?_ _) (length_ite_nil ?_ _))
    (length_ite_nil ?_ _)) (length_ite_nil ?_ _)
  all_goals rfl

theorem length_values : (session.values reading).length = (session.metricsOf reading).length := by
  have hgpu := length_ite_nil (length_gpuMetricsTracks session.settings session.device
    (session.metrics reading)) (hasData (session.metrics reading) = true)
  rw [values, writtenValues, metricsOf, head?_gpuMetrics, List.length_append,
    @List.length_append _ (basicMetrics _)]
  exact congrArg₂ _ (length_basicMetrics _ _ _ _ _ _ _).symm hgpu.symm

variable {tracks : CounterTracks UInt32} {session reading}

theorem setup_of_nil (h : tracks session.device.id = []) :
    setupPerfettoCounterTracks session.settings session.device (session.sample reading) tracks
      session.device.id = (session.metricsOf reading).map directTrack := by
  have hexists : ¬tracks.existsAt session.device.id = true :=
    fun hexists => CounterTracks.existsAt_iff.mp hexists h
  rw [setupPerfettoCounterTracks, if_neg hexists]
  show List.foldl _ tracks _ _ = _
  rw [foldl_emplace, h, List.nil_append, head?_gpuMetrics]
  rfl

theorem setup_of_ne_nil (h : tracks session.device.id ≠ []) :
    setupPerfettoCounterTracks session.settings session.device (session.sample reading) tracks =
      tracks := if_pos (CounterTracks.existsAt_iff.mpr h)

theorem writePerfettoMetrics_eq {layout : List Metric}
    (h : tracks session.device.id = layout.map directTrack) :
    writePerfettoMetrics session.megabyte session.settings session.device
      (session.sample reading) tracks =
        if (session.values reading).length ≤ layout.length then
          some ((layout.zip (session.values reading)).map (directCounter reading.timestamp))
        else none := by
  have hmapM := mapM_zipIdx_getElem? (tracks session.device.id)
    (fun track value => (⟨track, reading.timestamp, value⟩ : Counter)) (session.values reading)
    (Nat.zero_le _)
  rw [Nat.zero_add, List.drop_zero, h, List.length_map, List.zipWith_map_left] at hmapM
  rw [List.zip, List.map_zipWith]
  rw [← h] at hmapM
  exact hmapM

/-- The body of the loop for the data of a reading. -/
def directStep (session : Session) (lifetime : UInt64 × UInt64) (tracks : CounterTracks UInt32)
    (reading : Reading) : Option (CounterTracks UInt32 × List Counter) :=
  postProcessData session.megabyte session.settings session.device lifetime tracks
    (session.sample reading)

/-- The body of the loop with the layout's tracks set up. -/
theorem directStep_eq {lifetime : UInt64 × UInt64} (hlifetime : session.lifetime = some lifetime)
    {layout : List Metric} (h : session.isValidAt reading.timestamp = true →
      setupPerfettoCounterTracks session.settings session.device (session.sample reading) tracks
        session.device.id = layout.map directTrack) :
    session.directStep lifetime tracks reading =
      (session.directCounters reading layout).map fun counters =>
        (if session.isValidAt reading.timestamp then setupPerfettoCounterTracks session.settings
          session.device (session.sample reading) tracks else tracks, counters) := by
  have hvalid : isValidTime lifetime (session.sample reading).ts =
      session.isValidAt reading.timestamp := by
    rw [isValidAt, hlifetime]
    rfl
  have hdevice : ¬(session.sample reading).devId ≠ session.device.id := not_not.mpr rfl
  rw [directStep, postProcessData, if_neg hdevice, hvalid, directCounters]
  by_cases hv : session.isValidAt reading.timestamp = true
  · rw [if_pos hv, if_pos hv, if_pos hv]
    show (writePerfettoMetrics _ _ _ _ _).map _ = _
    rw [writePerfettoMetrics_eq (h hv)]
  · rw [if_neg hv, if_neg hv, if_neg hv]
    rfl

/-- A reading outside the lifetime or without metrics leaves the layout to the others. -/
theorem layout_cons_of_not {readings : List Reading}
    (h : session.isValidAt reading.timestamp = true → session.metricsOf reading = []) :
    session.layout (reading :: readings) = session.layout readings := by
  rw [layout, layout, List.filter_cons]
  split
  · rename_i hv
    rw [List.map_cons, List.find?_cons_of_neg]
    rw [h hv]
    exact Bool.false_ne_true
  · rfl

theorem layout_cons_of_valid {readings : List Reading}
    (hv : session.isValidAt reading.timestamp = true) (hne : session.metricsOf reading ≠ []) :
    session.layout (reading :: readings) = session.metricsOf reading := by
  rw [layout, List.filter_cons, if_pos hv, List.map_cons, List.find?_cons_of_pos]
  · rfl
  · rwa [Bool.not_eq_true', List.isEmpty_eq_false_iff]

theorem directCounters_of_nil
    (h : session.isValidAt reading.timestamp = true → session.metricsOf reading = [])
    (layout : List Metric) : session.directCounters reading layout = some [] := by
  rw [directCounters]
  by_cases hv : session.isValidAt reading.timestamp = true
  · have hvalues : session.values reading = [] := by
      rw [← List.length_eq_zero_iff, length_values, h hv]
      rfl
    rw [if_pos hv, hvalues, List.zip_nil_right]
    exact if_pos (Nat.zero_le _)
  · exact if_neg hv

/-- The loop once the first metrics have set up the tracks. -/
theorem emitAll_directStep_iff {lifetime : UInt64 × UInt64}
    (hlifetime : session.lifetime = some lifetime) {layout : List Metric} (hne : layout ≠ [])
    (htracks : tracks session.device.id = layout.map directTrack) {readings : List Reading}
    {counters : List Counter} :
    emitAll (session.directStep lifetime) tracks readings = some counters ↔
      (∀ reading ∈ readings, (session.directCounters reading layout).isSome) ∧
        counters = readings.flatMap fun reading =>
          (session.directCounters reading layout).getD [] := by
  have hstep (tracks : CounterTracks UInt32)
      (h : tracks session.device.id = layout.map directTrack) (reading : Reading) :
      ∃ tracks', tracks' session.device.id = layout.map directTrack ∧
        session.directStep lifetime tracks reading =
          (session.directCounters reading layout).map fun counters => (tracks', counters) := by
    have hkeep : setupPerfettoCounterTracks session.settings session.device
        (session.sample reading) tracks = tracks := by
      refine setup_of_ne_nil ?_
      rw [h]
      exact fun hnil => hne (List.map_eq_nil_iff.mp hnil)
    have heq := @directStep_eq session reading tracks lifetime hlifetime layout fun _ => by
      rw [hkeep]
      exact h
    rw [hkeep, ite_self] at heq
    exact ⟨tracks, h, heq⟩
  exact emitAll_eq_some_iff (fun tracks h reading _ => hstep tracks h reading) htracks

/-- The loop from before the first metrics. -/
theorem emitAll_directStep_iff_of_nil {lifetime : UInt64 × UInt64}
    (hlifetime : session.lifetime = some lifetime) {readings : List Reading} :
    ∀ {tracks : CounterTracks UInt32} {counters : List Counter}, tracks session.device.id = [] →
      (emitAll (session.directStep lifetime) tracks readings = some counters ↔
        (∀ reading ∈ readings,
          (session.directCounters reading (session.layout readings)).isSome) ∧
        counters = readings.flatMap fun reading =>
          (session.directCounters reading (session.layout readings)).getD []) := by
  induction readings with
  | nil =>
    intro tracks counters _
    rw [emitAll, Option.some_inj]
    exact ⟨fun h => ⟨fun _ h => absurd h List.not_mem_nil, h.symm⟩, fun h => h.2.symm⟩
  | cons reading readings ih =>
    intro tracks counters htracks
    have hstep := directStep_eq hlifetime fun _ => @setup_of_nil session reading tracks htracks
    have hsetup := @setup_of_nil session reading tracks htracks
    have hrest : session.directCounters reading (session.metricsOf reading) =
          session.directCounters reading (session.layout (reading :: readings)) ∧
        ∀ rest, emitAll (session.directStep lifetime)
          (if session.isValidAt reading.timestamp then setupPerfettoCounterTracks session.settings
            session.device (session.sample reading) tracks else tracks) readings = some rest ↔
          (∀ reading' ∈ readings, (session.directCounters reading'
            (session.layout (reading :: readings))).isSome) ∧
          rest = readings.flatMap fun reading' =>
            (session.directCounters reading' (session.layout (reading :: readings))).getD [] := by
      by_cases hnone : session.isValidAt reading.timestamp = true → session.metricsOf reading = []
      · rw [layout_cons_of_not hnone, directCounters_of_nil hnone, directCounters_of_nil hnone]
        refine ⟨rfl, fun rest => ih ?_⟩
        split
        · rename_i hv
          rw [hsetup, hnone hv]
          rfl
        · exact htracks
      · obtain ⟨hv, hne⟩ := Classical.not_imp.mp hnone
        rw [layout_cons_of_valid hv hne, if_pos hv]
        exact ⟨rfl, fun rest => emitAll_directStep_iff hlifetime hne hsetup⟩
    rw [emitAll_cons_eq_some_iff hstep, List.forall_mem_cons, List.flatMap_cons, and_assoc, hrest.1]
    refine and_congr_right fun _ => ⟨?_, ?_⟩
    · intro h
      obtain ⟨rest, h, rfl⟩ := h
      obtain ⟨hsome, rfl⟩ := (hrest.2 rest).mp h
      exact ⟨hsome, rfl⟩
    · intro h
      obtain ⟨hsome, rfl⟩ := h
      exact ⟨_, (hrest.2 _).mpr ⟨hsome, rfl⟩, rfl⟩

/-- The counters of the direct path, reading by reading, all on the tracks of the first
metrics. -/
theorem direct_eq_some_iff {readings : List Reading} {counters : List Counter} :
    session.direct readings = some counters ↔
      (∀ reading ∈ readings,
        (session.directCounters reading (session.layout readings)).isSome) ∧
      counters = readings.flatMap fun reading =>
        (session.directCounters reading (session.layout readings)).getD [] := by
  cases hlifetime : session.lifetime with
  | none =>
    have hnone (reading : Reading) (layout : List Metric) :
        session.directCounters reading layout = some [] := by
      have hv : ¬session.isValidAt reading.timestamp = true := by
        rw [isValidAt, hlifetime]
        exact Bool.false_ne_true
      exact if_neg hv
    rw [direct, postProcess, hlifetime]
    simp only [hnone, Option.isSome_some, Option.getD_some, implies_true, true_and,
      Option.some_inj]
    rw [List.flatMap_eq_nil_iff.mpr fun _ _ => rfl, eq_comm]
  | some lifetime =>
    rw [direct, postProcess, hlifetime]
    show emitAll _ _ _ = _ ↔ _
    rw [emitAll_map]
    exact emitAll_directStep_iff_of_nil hlifetime rfl

end Session

end AmdSmi
end Gpu
end Rocprofsys
