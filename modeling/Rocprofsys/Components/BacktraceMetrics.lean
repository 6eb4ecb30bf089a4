import Mathlib.Data.Int.Notation
import Rocprofsys.Base.Positions

namespace Rocprofsys
namespace Components

open Base

/-! ## The metrics of a sample -/

/-- The categories that come from the resource usage. -/
inductive Rusage where
  | threadCpuTime
  | threadPeakMemory
  | threadContextSwitch
  | threadPageFault
  deriving DecidableEq, Repr

/-- `categories_t`. -/
inductive Category where
  | rusage (c : Rusage)
  | threadHardwareCounter
  | hwCounters
  deriving DecidableEq, Repr

/-- `valid_array_t`. -/
abbrev ValidArray := Category → Bool

/-- `backtrace_metrics`, with `n` for `num_hw_counters`. -/
structure BacktraceMetrics (n : ℕ) where
  valid : ValidArray := fun _ => false
  cpu : ℤ := 0
  memPeak : ℤ := 0
  ctxSwch : ℤ := 0
  pageFlt : ℤ := 0
  hwCounter : Fin n → ℤ := fun _ => 0

/-- The four categories in the order of the source. -/
def rusages : List Rusage :=
  [.threadCpuTime, .threadPeakMemory, .threadContextSwitch, .threadPageFault]

/-- Whether both categories of the hardware counters are valid. -/
def ValidArray.hardware (valid : ValidArray) : Bool :=
  valid .hwCounters && valid .threadHardwareCounter

/-- Whoever has a category has those before it that are among others'. -/
def ValidArray.Leads (valid others : ValidArray) : Prop :=
  rusages.Pairwise fun c c' =>
    valid (.rusage c') = true → others (.rusage c) = true → valid (.rusage c) = true

namespace BacktraceMetrics

variable {n : ℕ}

def get (m : BacktraceMetrics n) : Rusage → ℤ
  | .threadCpuTime => m.cpu
  | .threadPeakMemory => m.memPeak
  | .threadContextSwitch => m.ctxSwch
  | .threadPageFault => m.pageFlt

/-- `operator-`. -/
def sub (lhs rhs : BacktraceMetrics n) : BacktraceMetrics n where
  valid := lhs.valid
  cpu := if lhs.valid (.rusage .threadCpuTime) then lhs.cpu - rhs.cpu else lhs.cpu
  memPeak :=
    if lhs.valid (.rusage .threadPeakMemory) then lhs.memPeak - rhs.memPeak else lhs.memPeak
  ctxSwch :=
    if lhs.valid (.rusage .threadContextSwitch) then lhs.ctxSwch - rhs.ctxSwch else lhs.ctxSwch
  pageFlt :=
    if lhs.valid (.rusage .threadPageFault) then lhs.pageFlt - rhs.pageFlt else lhs.pageFlt
  hwCounter :=
    if lhs.valid.hardware then fun i => lhs.hwCounter i - rhs.hwCounter i else lhs.hwCounter

@[simp] theorem valid_sub (lhs rhs : BacktraceMetrics n) : (lhs.sub rhs).valid = lhs.valid := rfl

theorem get_sub {lhs : BacktraceMetrics n} {c : Rusage} (h : lhs.valid (.rusage c) = true)
    (rhs : BacktraceMetrics n) : (lhs.sub rhs).get c = lhs.get c - rhs.get c := by
  cases c <;> exact if_pos h

end BacktraceMetrics

theorem filter_rusages_eq (valid : Rusage → Bool) (c : Rusage) :
    ((rusages.filter valid).filter fun c' => c' == c) = if valid c then [c] else [] := by
  rw [List.filter_filter]
  cases c <;> simp [rusages, List.filter_cons]

/-! ## Counter tracks -/

/-- A counter track with its name and its unit. -/
structure Track where
  name : String
  units : Option String
  deriving DecidableEq, Repr

/-- The tracks of a thread in `perfetto_counter_track`, each number of which is its position. -/
structure Tracks where
  rusage : List Track := []
  hwCounters : List Track := []
  deriving DecidableEq, Repr

/-- A thread with the labels of its counters and the time of its end, and what else is asked
while its metrics are written. -/
structure Thread where
  tid : ℤ
  hwCounterLabels : List String
  stop : Option UInt64
  continuousIntegration : Bool
  /-- `short_descr` of the event. -/
  shortDescr : String → String
  /-- `units::sec` and `units::megabyte`. -/
  sec : ℤ
  megabyte : ℤ

/-- What a value is written for: a category, or a hardware counter by its number. -/
inductive Counter where
  | rusage (c : Rusage)
  | hardware (i : ℕ)
  deriving DecidableEq, Repr

/-- `TRACE_COUNTER`; there is no track where `at` throws. -/
structure Write where
  counter : Counter
  track : Option Track
  ts : UInt64
  value : ℤ
  deriving DecidableEq, Repr

def Rusage.title : Rusage → String
  | .threadCpuTime => "Thread CPU time"
  | .threadPeakMemory => "Thread Peak Memory Usage"
  | .threadContextSwitch => "Thread Context Switches"
  | .threadPageFault => "Thread Page Faults"

def Rusage.units : Rusage → Option String
  | .threadCpuTime => some "sec"
  | .threadPeakMemory => some "MB"
  | .threadContextSwitch | .threadPageFault => none

namespace Thread

variable (t : Thread)

/-- `_tid_name` and what follows it. -/
def suffix : String := " [" ++ toString t.tid ++ "] (S)"

def rusageTrack (c : Rusage) : Track := ⟨c.title ++ t.suffix, c.units⟩

/-- `_desc`. -/
def description (label : String) : String :=
  if t.shortDescr label = "" then label else t.shortDescr label

def hwTrack (label : String) : Track := ⟨"Thread " ++ t.description label ++ t.suffix, none⟩

/-- Whether a label cannot be described, which is an error in continuous integration. -/
def lacksDescription (label : String) : Bool :=
  t.continuousIntegration && decide (t.description label = "")

/-- `init_perfetto`. -/
def initPerfetto (valid : ValidArray) (tracks : Tracks) : Except String Tracks :=
  let rusage :=
    if tracks.rusage = [] then
      (rusages.filter fun c => valid (.rusage c)).map t.rusageTrack
    else tracks.rusage
  if tracks.hwCounters = [] ∧ valid.hardware then
    match t.hwCounterLabels.find? t.lacksDescription with
    | some label => .error ("Empty description for " ++ label)
    | none => .ok ⟨rusage, t.hwCounterLabels.map t.hwTrack⟩
  else .ok ⟨rusage, tracks.hwCounters⟩

/-- The writes for the categories that are valid, from number `idx` on. -/
def rusageWrites (tracks : List Track) (ts : UInt64) (value : Rusage → ℤ) (valid : ValidArray) :
    ℕ → List Rusage → List Write
  | _, [] => []
  | idx, c :: cs =>
    if valid (.rusage c) then
      ⟨.rusage c, tracks[idx]?, ts, value c⟩ :: rusageWrites tracks ts value valid (idx + 1) cs
    else rusageWrites tracks ts value valid idx cs

/-- The writes for the counters that have a value. -/
def hwWrites (tracks : List Track) (ts : UInt64) (value : ℕ → Option ℤ) : List Write :=
  (List.range tracks.length).filterMap fun i =>
    (value i).map fun v => ⟨.hardware i, tracks[i]?, ts, v⟩

/-- A value in the unit of its track. -/
def scaled (c : Rusage) (value : ℤ) : ℤ :=
  match c with
  | .threadCpuTime => value.tdiv t.sec
  | .threadPeakMemory => value.tdiv t.megabyte
  | .threadContextSwitch | .threadPageFault => value

def hwValue {n : ℕ} (m : BacktraceMetrics n) (i : ℕ) : Option ℤ :=
  if h : i < n then some (m.hwCounter ⟨i, h⟩) else none

/-- `post_process_perfetto` of a sample. -/
def postProcessPerfetto {n : ℕ} (tracks : Tracks) (m : BacktraceMetrics n) (ts : UInt64) :
    List Write :=
  rusageWrites tracks.rusage ts (fun c => t.scaled c (m.get c)) m.valid 0 rusages ++
    if m.valid.hardware then hwWrites tracks.hwCounters ts (hwValue m) else []

/-- The zeros that `fini_perfetto` writes. -/
def finalWrites (tracks : Tracks) (valid : ValidArray) (stop : UInt64) : List Write :=
  rusageWrites tracks.rusage stop (fun _ => 0) valid 0 rusages ++
    if valid.hardware then
      hwWrites tracks.hwCounters stop fun i =>
        if i < t.hwCounterLabels.length then some 0 else none
    else []

/-- `fini_perfetto`. -/
def finiPerfetto (tracks : Tracks) (valid : ValidArray) : Except String (List Write) :=
  match t.stop with
  | none =>
    if t.continuousIntegration then
      .error ("Error! missing thread info for tid=" ++ toString t.tid)
    else .ok []
  | some stop => .ok (t.finalWrites tracks valid stop)

/-! ## Where values are written -/

/-- The track that is created for a counter. -/
def trackOf : Counter → Option Track
  | .rusage c => some (t.rusageTrack c)
  | .hardware i => (t.hwCounterLabels[i]?).map t.hwTrack

/-- A value is written on the track of its counter, and there is such a track. -/
def OnTrack (w : Write) : Prop := w.track = t.trackOf w.counter ∧ w.track.isSome = true

instance (w : Write) : Decidable (t.OnTrack w) := inferInstanceAs (Decidable (_ ∧ _))

/-- The tracks that `init_perfetto` creates for a thread without any. -/
def tracksFor (valid : ValidArray) : Tracks where
  rusage := (rusages.filter fun c => valid (.rusage c)).map t.rusageTrack
  hwCounters := if valid.hardware then t.hwCounterLabels.map t.hwTrack else []

end Thread

section Tracks

variable {t : Thread} {n : ℕ} {tracks : List Track} {ts : UInt64} {value : Rusage → ℤ}
  {valid every : ValidArray}

theorem initPerfetto_empty (t : Thread) (valid : ValidArray) :
    t.initPerfetto valid {} =
      match t.hwCounterLabels.find? t.lacksDescription with
      | some label =>
        if valid.hardware then .error ("Empty description for " ++ label)
        else .ok (t.tracksFor valid)
      | none => .ok (t.tracksFor valid) := by
  unfold Thread.initPerfetto Thread.tracksFor
  cases hhardware : valid.hardware <;> cases t.hwCounterLabels.find? t.lacksDescription <;>
    simp

theorem rusageWrites_eq (idx : ℕ) (cs : List Rusage) :
    Thread.rusageWrites tracks ts value valid idx cs =
      ((cs.filter fun c => valid (.rusage c)).zipIdx idx).map fun c =>
        ⟨.rusage c.1, tracks[c.2]?, ts, value c.1⟩ := by
  induction cs generalizing idx with
  | nil => rfl
  | cons c cs ih =>
    rw [Thread.rusageWrites]
    cases hvalid : valid (.rusage c) with
    | true =>
      rw [if_pos rfl, List.filter_cons_of_pos (p := fun c => valid (.rusage c)) hvalid, ih]
      rfl
    | false =>
      rw [if_neg Bool.false_ne_true,
        List.filter_cons_of_neg (p := fun c => valid (.rusage c)) (by rw [hvalid]; decide), ih]

theorem rusageTrack_injective (t : Thread) {c c' : Rusage} (h : t.rusageTrack c = t.rusageTrack c') :
    c = c' := by
  have hname := congrArg Track.name h
  have hchars := congrArg String.toList hname
  simp only [Thread.rusageTrack, String.toList_append] at hchars
  have htitle : c.title = c'.title := String.toList_inj.mp (List.append_cancel_right hchars)
  cases c <;> cases c' <;> first | rfl | exact absurd htitle (by decide)

/-- The writes of the valid categories are on their tracks exactly if these are the first of the
categories that have tracks. -/
theorem onTrack_rusageWrites_iff (t : Thread) (ts : UInt64) (value : Rusage → ℤ) :
    (∀ w ∈ Thread.rusageWrites ((t.tracksFor every).rusage) ts value valid 0 rusages,
        t.OnTrack w) ↔
      (rusages.filter fun c => valid (.rusage c)) <+: rusages.filter fun c => every (.rusage c) := by
  have hon : ∀ (c : Rusage) (track : Option Rusage),
      t.OnTrack ⟨.rusage c, track.map t.rusageTrack, ts, value c⟩ ↔ track = some c := by
    intro c track
    constructor
    · intro h
      cases track with
      | none => exact absurd h.2 Bool.false_ne_true
      | some c' => rw [rusageTrack_injective t (Option.some.inj h.1)]
    · intro h
      subst h
      exact ⟨rfl, rfl⟩
  rw [rusageWrites_eq, List.forall_mem_map, List.prefix_iff_getElem?]
  simp only [Thread.tracksFor, List.getElem?_map, hon]
  constructor
  · intro h i hi
    exact h (_, i) (List.mem_zipIdx_iff_getElem?.mpr (List.getElem?_eq_getElem hi))
  · intro h c hc
    obtain ⟨hi, heq⟩ := List.getElem?_eq_some_iff.mp (List.mem_zipIdx_iff_getElem?.mp hc)
    rw [h _ hi, heq]

theorem onTrack_hwWrites (t : Thread) (value : ℕ → Option ℤ) :
    ∀ w ∈ Thread.hwWrites (t.hwCounterLabels.map t.hwTrack) ts value, t.OnTrack w := by
  intro w hw
  obtain ⟨i, hi, hvalue⟩ := List.mem_filterMap.mp hw
  obtain ⟨v, -, rfl⟩ := Option.map_eq_some_iff.mp hvalue
  refine ⟨List.getElem?_map, ?_⟩
  rw [List.mem_range] at hi
  rw [List.getElem?_eq_getElem hi]
  rfl

/-- Where a sample that has its part in the tracks is written on the tracks of its categories. -/
theorem onTrack_postProcess_iff (t : Thread) (ts : UInt64) {m : BacktraceMetrics n}
    (hsub : ∀ c, m.valid c = true → every c = true) :
    (∀ w ∈ t.postProcessPerfetto (t.tracksFor every) m ts, t.OnTrack w) ↔ m.valid.Leads every := by
  have hhardware : ∀ w ∈ (if m.valid.hardware then
      Thread.hwWrites (t.tracksFor every).hwCounters ts (Thread.hwValue m) else []),
      t.OnTrack w := by
    intro w hw
    split_ifs at hw with hvalid
    · obtain ⟨hcomponent, hcategory⟩ := Bool.and_eq_true_iff.mp hvalid
      have hevery : every.hardware = true :=
        Bool.and_eq_true_iff.mpr ⟨hsub _ hcomponent, hsub _ hcategory⟩
      rw [Thread.tracksFor, hevery, if_pos rfl] at hw
      exact onTrack_hwWrites t _ w hw
    · cases hw
  unfold ValidArray.Leads
  rw [← filter_prefix_filter_iff (p := fun c => m.valid (.rusage c)) (fun c hc => hsub _ hc),
    ← onTrack_rusageWrites_iff t ts fun c => t.scaled c (m.get c),
    Thread.postProcessPerfetto, List.forall_mem_append]
  exact and_iff_left hhardware

theorem onTrack_finalWrites (t : Thread) (stop : UInt64) :
    ∀ w ∈ t.finalWrites (t.tracksFor every) every stop, t.OnTrack w := by
  refine List.forall_mem_append.mpr ⟨(onTrack_rusageWrites_iff t _ _).mpr List.prefix_rfl, ?_⟩
  intro w hw
  split_ifs at hw with hhardware
  · rw [Thread.tracksFor, hhardware, if_pos rfl] at hw
    exact onTrack_hwWrites t _ w hw
  · cases hw

end Tracks

/-! ## What is written for a category -/

/-- What a user turns on and off: a category, or the hardware counters. -/
inductive Metric where
  | rusage (c : Rusage)
  | hardware
  deriving DecidableEq, Repr

def Counter.metric : Counter → Metric
  | .rusage c => .rusage c
  | .hardware _ => .hardware

/-- The values for a category, each with its counter and its time. -/
def valuesOf (metric : Metric) (ws : List Write) : List (Counter × UInt64 × ℤ) :=
  (ws.filter fun w => w.counter.metric == metric).map fun w => (w.counter, w.ts, w.value)

/-- The values of the hardware counters, `count` of which have tracks. -/
def hwValues (count : ℕ) (ts : UInt64) (value : ℕ → Option ℤ) : List (Counter × UInt64 × ℤ) :=
  (List.range count).filterMap fun i => (value i).map fun v => (.hardware i, ts, v)

/-- The values of a category that follow from it alone. -/
def ownValues (t : Thread) {n : ℕ} (metric : Metric) (m : BacktraceMetrics n) (ts : UInt64) :
    List (Counter × UInt64 × ℤ) :=
  match metric with
  | .rusage c => if m.valid (.rusage c) then [(.rusage c, ts, t.scaled c (m.get c))] else []
  | .hardware =>
    if m.valid.hardware then hwValues t.hwCounterLabels.length ts (Thread.hwValue m) else []

section Values

variable {t : Thread} {n : ℕ} {tracks : List Track} {ts : UInt64} {value : Rusage → ℤ}
  {valid every : ValidArray}

theorem valuesOf_append (metric : Metric) (ws ws' : List Write) :
    valuesOf metric (ws ++ ws') = valuesOf metric ws ++ valuesOf metric ws' := by
  unfold valuesOf
  rw [List.filter_append, List.map_append]

theorem valuesOf_rusageWrites (metric : Metric) :
    valuesOf metric (Thread.rusageWrites tracks ts value valid 0 rusages) =
      match metric with
      | .rusage c => if valid (.rusage c) then [(.rusage c, ts, value c)] else []
      | .hardware => [] := by
  have hmap : ((rusages.filter fun c => valid (.rusage c)).zipIdx 0).map Prod.fst =
      rusages.filter fun c => valid (.rusage c) := List.zipIdx_map_fst 0 _
  unfold valuesOf
  rw [rusageWrites_eq, List.filter_map, List.map_map]
  cases metric with
  | rusage c =>
    have hmetric : ((fun w : Write => w.counter.metric == .rusage c) ∘ fun c' : Rusage × ℕ =>
        ⟨.rusage c'.1, tracks[c'.2]?, ts, value c'.1⟩) = (fun c' => c' == c) ∘ Prod.fst := by
      funext c'
      rw [Bool.eq_iff_iff]
      simp [Counter.metric]
    rw [hmetric]
    show (((rusages.filter _).zipIdx 0).filter _).map
      ((fun c' => (Counter.rusage c', ts, value c')) ∘ Prod.fst) = _
    rw [← List.map_map, ← List.filter_map, hmap, filter_rusages_eq (fun c => valid (.rusage c)) c]
    show List.map _ (if valid (.rusage c) then [c] else []) = if valid (.rusage c) then _ else _
    cases valid (.rusage c) <;> rfl
  | hardware =>
    show (((rusages.filter _).zipIdx 0).filter fun _ => false).map _ = []
    rw [List.filter_false]
    rfl

theorem valuesOf_hwWrites (metric : Metric) (value : ℕ → Option ℤ) :
    valuesOf metric (Thread.hwWrites tracks ts value) =
      match metric with
      | .rusage _ => []
      | .hardware => hwValues tracks.length ts value := by
  have hmetric : ∀ w ∈ Thread.hwWrites tracks ts value, w.counter.metric = .hardware := by
    intro w hw
    obtain ⟨i, -, hvalue⟩ := List.mem_filterMap.mp hw
    obtain ⟨v, -, rfl⟩ := Option.map_eq_some_iff.mp hvalue
    rfl
  unfold valuesOf
  cases metric with
  | rusage c =>
    rw [List.filter_eq_nil_iff.mpr (fun w hw => by rw [hmetric w hw]; exact Bool.false_ne_true)]
    rfl
  | hardware =>
    rw [List.filter_eq_self.mpr (fun w hw => by rw [hmetric w hw]; rfl), Thread.hwWrites,
      List.map_filterMap]
    simp only [Option.map_map]
    rfl

/-- What is written for a category follows from its own part of the sample. -/
theorem valuesOf_postProcess (metric : Metric) {m : BacktraceMetrics n}
    (hsub : m.valid.hardware = true → every.hardware = true) :
    valuesOf metric (t.postProcessPerfetto (t.tracksFor every) m ts) =
      ownValues t metric m ts := by
  unfold Thread.postProcessPerfetto
  rw [valuesOf_append, valuesOf_rusageWrites]
  cases hhardware : m.valid.hardware with
  | true =>
    rw [if_pos rfl, valuesOf_hwWrites, Thread.tracksFor, hsub hhardware, if_pos rfl,
      List.length_map]
    cases metric with
    | rusage c => exact List.append_nil _
    | hardware => exact (if_pos hhardware).symm
  | false =>
    rw [if_neg Bool.false_ne_true]
    cases metric with
    | rusage c => exact List.append_nil _
    | hardware => exact (if_neg (by rw [hhardware]; exact Bool.false_ne_true)).symm

/-- The zeros of a category. -/
theorem valuesOf_finalWrites (metric : Metric) (stop : UInt64) :
    valuesOf metric (t.finalWrites (t.tracksFor every) every stop) =
      match metric with
      | .rusage c => if every (.rusage c) then [(.rusage c, stop, 0)] else []
      | .hardware =>
        if every.hardware then
          hwValues t.hwCounterLabels.length stop fun i =>
            if i < t.hwCounterLabels.length then some 0 else none
        else [] := by
  unfold Thread.finalWrites
  rw [valuesOf_append, valuesOf_rusageWrites]
  cases hhardware : every.hardware with
  | true =>
    rw [if_pos rfl, valuesOf_hwWrites, Thread.tracksFor, hhardware, if_pos rfl, List.length_map]
    cases metric with
    | rusage c => exact List.append_nil _
    | hardware => rfl
  | false =>
    rw [if_neg Bool.false_ne_true]
    cases metric with
    | rusage c => exact List.append_nil _
    | hardware => rfl

end Values

end Components
end Rocprofsys
