import Mathlib.Algebra.BigOperators.Group.List.Basic
import Mathlib.Algebra.Order.BigOperators.Group.List
import Mathlib.Algebra.Order.Field.Rat
import Mathlib.Data.Char
import Mathlib.Data.List.Lex
import Mathlib.Data.Prod.Lex
import Rocprofsys.Base.KeyedFold
import Rocprofsys.Base.Samples

namespace Rocprofsys
namespace Python

open Base

abbrev Text := List Char

/-! ## Causal profiles -/

/-- The selection of an experiment. -/
structure Selection where
  file : Text
  line : ℕ
  dfunc : Text
  symbolAddress : ℕ
  deriving DecidableEq

/-- `_selected`. -/
def Selection.selected (s : Selection) : Text :=
  if s.symbolAddress = 0 then s.file ++ ':' :: (toString s.line).toList else s.dfunc

/-- `arrival` and `departure`. -/
structure Latency where
  arrival : ℚ
  departure : ℚ
  departure_nonneg : 0 ≤ departure

/-- The counts of a progress point: with a `delta`, or with its `laps` only. -/
inductive Counts where
  | delta (delta : ℚ) (latency : Option Latency)
  | laps (laps : ℚ)

structure ProgressPoint where
  name : Text
  counts : Counts

/-- An experiment as it is written, which is done for none without a duration. -/
structure Experiment where
  virtualSpeedup : ℕ
  duration : ℚ
  selection : Selection
  progressPoints : List ProgressPoint
  duration_pos : 0 < duration

/-! ## Data by selection, progress point and speedup -/

/-- A key of the nested dictionaries, whose speedup is in percent. -/
structure Key where
  selected : Text
  point : Text
  speedup : ℚ

namespace Key

def lex (k : Key) : Text ×ₗ Text ×ₗ ℚ := toLex (k.selected, toLex (k.point, k.speedup))

theorem lex_injective : Function.Injective lex := by
  intro a b h
  cases a
  cases b
  simpa [lex] using h

instance : LinearOrder Key := LinearOrder.lift' lex lex_injective

/-- The key of the data without a virtual speedup. -/
def baseline (k : Key) : Key := { k with speedup := 0 }

end Key

/-- `throughput_point` and `latency_point`. -/
inductive PointData where
  | throughput (delta duration : List ℚ)
  | latency (arrivals departures duration : List ℚ)
  deriving DecidableEq

abbrev Table := OrderedMap Key PointData

inductive PyError where
  | typeError
  | indexError
  | attributeError
  | zeroDivisionError
  deriving DecidableEq, Repr

namespace PointData

/-- `mean`. -/
def mean : PointData → ℚ
  | throughput delta duration => duration.sum / delta.sum
  | latency arrivals _ duration =>
    (duration.map fun x => x / duration.sum).sum / (arrivals.sum / duration.sum)

/-- What `mean`, `get_difference` and `get_data` divide by. -/
def divisors : PointData → List ℚ
  | throughput delta _ => delta.sum :: delta
  | latency arrivals _ duration => duration.sum :: arrivals.sum :: arrivals

/-- `+= [delta, duration]`. -/
def addThroughput (delta duration : ℚ) : PointData → Except PyError PointData
  | throughput deltas durations => .ok (throughput (deltas ++ [delta]) (durations ++ [duration]))
  | latency _ _ _ => .error .indexError

/-- `+= [arrival, departure, duration]`, of which a `throughput_point` takes the first two. -/
def addLatency (arrival departure duration : ℚ) : PointData → PointData
  | throughput deltas durations => throughput (deltas ++ [arrival]) (durations ++ [departure])
  | latency arrivals departures durations =>
    latency (arrivals ++ [arrival]) (departures ++ [departure]) (durations ++ [duration])

end PointData

/-! ## `process_data` -/

section ProcessData

variable (experiments progressPoints : Text → Bool)

/-- The body of the loop over the progress points of an experiment; the filters say what the
expressions find. -/
def processPoint (e : Experiment) (data : Table) (pts : ProgressPoint) : Except PyError Table :=
  if !progressPoints pts.name then .ok data
  else
    let key : Key := ⟨e.selection.selected, pts.name, e.virtualSpeedup⟩
    match pts.counts with
    | .delta delta latency =>
      if 0 < delta then
        match ((data.get? key).getD (.throughput [] [])).addThroughput delta e.duration with
        | .error err => .error err
        | .ok itr => .ok (data.set key itr)
      else
        match latency with
        | some l =>
          if 0 < l.arrival then
            .ok (data.set key (((data.get? key).getD (.latency [] [] [])).addLatency l.arrival
              l.departure e.duration))
          else .ok data
        | none => .ok data
    -- `find_or_insert` is called without its third argument.
    | .laps laps => if 0 < laps then .error .typeError else .ok data

/-- `process_data` for the experiments of all records. -/
def processData (profile : List Experiment) : Except PyError Table :=
  (profile.filter fun e => experiments e.selection.selected).foldlM
    (fun data e => e.progressPoints.foldlM (processPoint progressPoints e) data) ∅

end ProcessData

/-! ## `compute_speedups` -/

/-- `compute_speedup`. -/
def computeSpeedup (base data : PointData) : ℚ := (base.mean - data.mean) / base.mean * 100

/-- `ret`: what has a baseline, sorted, with it. -/
def withBaseline (speedups : List ℚ) (data : Table) : List (Key × PointData × PointData) :=
  data.items.filterMap fun entry =>
    match data.get? entry.1.baseline with
    | none => none
    | some base =>
      if speedups = [] ∨ entry.1.speedup ∈ speedups then some (entry.1, entry.2, base) else none

/-- The rows whose program speedup is in range. -/
def rowsOf (ret : List (Key × PointData × PointData)) : List (Key × ℚ) :=
  ret.filterMap fun row =>
    let speedup := computeSpeedup row.2.2 row.2.1
    if speedup ≤ 200 ∧ -100 ≤ speedup then some (row.1, speedup) else none

/-- `compute_speedups` of one workload, with the columns for the key and the program speedup. -/
def computeSpeedups (speedups : List ℚ) (data : Table) : Except PyError (List (Key × ℚ)) :=
  let ret := withBaseline speedups data
  -- `_data` is a list only if the loop over `ret` has made it one.
  if ret = [] then .error .attributeError
  else if ret.any fun row => decide (0 ∈ row.2.1.divisors ++ row.2.2.divisors ++ [row.2.2.mean]) then
    .error .zeroDivisionError
  else .ok (rowsOf ret)

/-- `process_data` and `compute_speedups` after it. -/
def analyse (experiments progressPoints : Text → Bool) (profile : List Experiment) :
    Except PyError (List (Key × ℚ)) :=
  match processData experiments progressPoints profile with
  | .error err => .error err
  | .ok data => computeSpeedups [] data

/-! ## What is recorded -/

/-- What a progress point adds to the data of its key. -/
inductive Recorded where
  | throughput (delta duration : ℚ)
  | latency (arrival departure duration : ℚ)
  | laps
  deriving DecidableEq

section Recorded

variable (experiments progressPoints : Text → Bool)

def Experiment.key (e : Experiment) (pts : ProgressPoint) : Key :=
  ⟨e.selection.selected, pts.name, e.virtualSpeedup⟩

def recordedOf (e : Experiment) (pts : ProgressPoint) : List Recorded :=
  if !progressPoints pts.name then []
  else
    match pts.counts with
    | .delta delta latency =>
      if 0 < delta then [.throughput delta e.duration]
      else
        match latency with
        | some l => if 0 < l.arrival then [.latency l.arrival l.departure e.duration] else []
        | none => []
    | .laps laps => if 0 < laps then [.laps] else []

/-- What a profile records, each with its key, in the order of the profile. -/
def recorded (profile : List Experiment) : List (Key × Recorded) :=
  (profile.filter fun e => experiments e.selection.selected).flatMap fun e =>
    e.progressPoints.flatMap fun pts =>
      (recordedOf progressPoints e pts).map fun r => (e.key pts, r)

end Recorded

/-- `find_or_insert` and what is added. -/
def addRecorded (itr : Option PointData) : Recorded → Except PyError PointData
  | .throughput delta duration => (itr.getD (.throughput [] [])).addThroughput delta duration
  | .latency arrival departure duration =>
    .ok ((itr.getD (.latency [] [] [])).addLatency arrival departure duration)
  | .laps => .error .typeError

namespace Recorded

/-- The first two values that are added. -/
def first : Recorded → ℚ
  | throughput delta _ => delta
  | latency arrival _ _ => arrival
  | laps => 0

def second : Recorded → ℚ
  | throughput _ duration => duration
  | latency _ departure _ => departure
  | laps => 0

def third : Recorded → ℚ
  | latency _ _ duration => duration
  | throughput _ _ | laps => 0

def isLatency : Recorded → Bool
  | latency _ _ _ => true
  | throughput _ _ | laps => false

/-- All that is recorded for a key is of the kind of the first, but that a `throughput_point` takes
latencies as well. -/
def Consistent : List Recorded → Prop
  | [] => True
  | r :: rs => (∀ r' ∈ r :: rs, r' ≠ laps) ∧ (r.isLatency = true → ∀ r' ∈ rs, r'.isLatency = true)

/-- The data of what is recorded for a key. -/
def dataOf : List Recorded → Option PointData
  | [] => none
  | r :: rs =>
    if r.isLatency then
      some (.latency ((r :: rs).map first) ((r :: rs).map second) ((r :: rs).map third))
    else some (.throughput ((r :: rs).map first) ((r :: rs).map second))

end Recorded

/-! ## The data of a profile -/

section Data

variable {experiments progressPoints : Text → Bool} {data : Table}

theorem processPoint_eq (e : Experiment) (data : Table) (pts : ProgressPoint) :
    processPoint progressPoints e data pts =
      foldKeyed addRecorded data
        ((recordedOf progressPoints e pts).map fun r => (e.key pts, r)) := by
  unfold processPoint recordedOf
  cases progressPoints pts.name with
  | false => rfl
  | true =>
    rw [if_neg (by decide), if_neg (by decide)]
    cases pts.counts with
    | laps laps =>
      show (if 0 < laps then _ else _) = foldKeyed _ _ (List.map _ (if 0 < laps then _ else _))
      split_ifs <;> rfl
    | delta delta latency =>
      show (if 0 < delta then _ else _) = foldKeyed _ _ (List.map _ (if 0 < delta then _ else _))
      split_ifs with hdelta
      · show _ = foldKeyed addRecorded data [(e.key pts, .throughput delta e.duration)]
        rw [foldKeyed_singleton, stepKeyed, addRecorded, Experiment.key]
        cases PointData.addThroughput delta e.duration _ <;> rfl
      · cases latency with
        | none => rfl
        | some l =>
          show (if 0 < l.arrival then _ else _) =
            foldKeyed _ _ (List.map _ (if 0 < l.arrival then _ else _))
          split_ifs
          · show _ = foldKeyed addRecorded data
              [(e.key pts, .latency l.arrival l.departure e.duration)]
            rw [foldKeyed_singleton]
            rfl
          · rfl

theorem foldlM_flatMap {ι : Type} (l : List ι) (f : ι → List (Key × Recorded)) (data : Table)
    {g : Table → ι → Except PyError Table} (hg : ∀ data i, g data i = foldKeyed addRecorded data (f i)) :
    l.foldlM g data = foldKeyed addRecorded data (l.flatMap f) := by
  induction l generalizing data with
  | nil => rfl
  | cons i l ih =>
    rw [List.foldlM_cons, List.flatMap_cons, foldKeyed_append, hg]
    cases foldKeyed addRecorded data (f i) with
    | error err => rfl
    | ok data => exact ih data

theorem processData_eq (experiments progressPoints : Text → Bool) (profile : List Experiment) :
    processData experiments progressPoints profile =
      foldKeyed addRecorded ∅ (recorded experiments progressPoints profile) := by
  unfold processData recorded
  exact foldlM_flatMap _ _ _ fun data e => foldlM_flatMap _ _ _ fun data pts =>
    processPoint_eq e data pts

theorem error_ne_ok {α : Type} {err : PyError} {x : α} :
    (Except.error err : Except PyError α) ≠ .ok x := fun h => by cases h

/-- A `throughput_point` takes all but laps. -/
theorem foldValues_throughput (rs : List Recorded) (deltas durations : List ℚ) :
    foldValues addRecorded (some (.throughput deltas durations)) rs =
      if .laps ∈ rs then .error .typeError
      else .ok (some (.throughput (deltas ++ rs.map Recorded.first)
        (durations ++ rs.map Recorded.second))) := by
  induction rs generalizing deltas durations with
  | nil => simp [foldValues]
  | cons r rs ih =>
    rw [foldValues]
    cases r with
    | laps => simp [addRecorded]
    | throughput delta duration =>
      show foldValues addRecorded (some (.throughput (deltas ++ [delta]) (durations ++ [duration])))
        rs = _
      rw [ih]
      simp [Recorded.first, Recorded.second]
    | latency arrival departure duration =>
      show foldValues addRecorded
        (some (.throughput (deltas ++ [arrival]) (durations ++ [departure]))) rs = _
      rw [ih]
      simp [Recorded.first, Recorded.second]

/-- A `latency_point` takes latencies only. -/
theorem foldValues_latency (rs : List Recorded) (arrivals departures durations : List ℚ) :
    (∃ o, foldValues addRecorded (some (.latency arrivals departures durations)) rs = .ok o) ↔
      ∀ r ∈ rs, r.isLatency = true := by
  induction rs generalizing arrivals departures durations with
  | nil => exact iff_of_true ⟨_, rfl⟩ (fun _ h => absurd h List.not_mem_nil)
  | cons r rs ih =>
    rw [foldValues, List.forall_mem_cons]
    cases r with
    | laps =>
      exact iff_of_false (fun h => h.elim fun _ h => error_ne_ok h) fun h => Bool.false_ne_true h.1
    | throughput delta duration =>
      exact iff_of_false (fun h => h.elim fun _ h => error_ne_ok h) fun h => Bool.false_ne_true h.1
    | latency arrival departure duration =>
      exact (ih _ _ _).trans ⟨fun h => ⟨rfl, h⟩, fun h => h.2⟩

theorem foldValues_latency_eq {rs : List Recorded} (arrivals departures durations : List ℚ)
    (h : ∀ r ∈ rs, r.isLatency = true) :
    foldValues addRecorded (some (.latency arrivals departures durations)) rs =
      .ok (some (.latency (arrivals ++ rs.map Recorded.first)
        (departures ++ rs.map Recorded.second) (durations ++ rs.map Recorded.third))) := by
  induction rs generalizing arrivals departures durations with
  | nil => simp [foldValues]
  | cons r rs ih =>
    rw [List.forall_mem_cons] at h
    cases r with
    | laps => exact absurd h.1 Bool.false_ne_true
    | throughput delta duration => exact absurd h.1 Bool.false_ne_true
    | latency arrival departure duration =>
      show foldValues addRecorded (some (.latency (arrivals ++ [arrival])
        (departures ++ [departure]) (durations ++ [duration]))) rs = _
      rw [ih _ _ _ h.2]
      simp [Recorded.first, Recorded.second, Recorded.third]

/-- What is recorded for a key is taken exactly if it is consistent. -/
theorem foldValues_iff (rs : List Recorded) (o : Option PointData) :
    foldValues addRecorded none rs = .ok o ↔ Recorded.Consistent rs ∧ o = Recorded.dataOf rs := by
  cases rs with
  | nil => exact ⟨fun h => ⟨trivial, (Except.ok.inj h).symm⟩, fun h => h.2 ▸ rfl⟩
  | cons r rs =>
    rw [foldValues, Recorded.Consistent, List.forall_mem_cons]
    cases r with
    | laps => exact iff_of_false error_ne_ok fun h => absurd rfl h.1.1.1
    | throughput delta duration =>
      show foldValues addRecorded (some (.throughput [delta] [duration])) rs = _ ↔ _
      rw [foldValues_throughput]
      by_cases hlaps : Recorded.laps ∈ rs
      · rw [if_pos hlaps]
        exact iff_of_false error_ne_ok fun h => h.1.1.2 _ hlaps rfl
      · rw [if_neg hlaps]
        have hne : ∀ r' ∈ rs, r' ≠ .laps := fun r' hr' h => hlaps (h ▸ hr')
        have hfirst : Recorded.throughput delta duration ≠ .laps := fun h => by cases h
        refine ⟨fun h => ⟨⟨⟨hfirst, hne⟩, fun h => absurd h Bool.false_ne_true⟩,
          (Except.ok.inj h).symm⟩, fun h => ?_⟩
        rw [h.2]
        rfl
    | latency arrival departure duration =>
      show foldValues addRecorded (some (.latency [arrival] [departure] [duration])) rs = _ ↔ _
      by_cases hlatency : ∀ r' ∈ rs, r'.isLatency = true
      · rw [foldValues_latency_eq _ _ _ hlatency]
        have hne : ∀ r' ∈ rs, r' ≠ .laps := fun r' hr' h => by
          have hlaps := hlatency r' hr'
          rw [h] at hlaps
          cases hlaps
        have hfirst : Recorded.latency arrival departure duration ≠ .laps := fun h => by cases h
        refine ⟨fun h => ⟨⟨⟨hfirst, hne⟩, fun _ => hlatency⟩, (Except.ok.inj h).symm⟩, fun h => ?_⟩
        rw [h.2]
        rfl
      · refine iff_of_false (fun h => ?_) fun h => hlatency (h.1.2 rfl)
        exact hlatency ((foldValues_latency rs [arrival] [departure] [duration]).mp ⟨_, h⟩)

/-- A profile is read exactly if what it records is consistent for each key. -/
theorem processData_iff (experiments progressPoints : Text → Bool) (profile : List Experiment) :
    (∃ data, processData experiments progressPoints profile = .ok data) ↔
      ∀ k, Recorded.Consistent (group k (recorded experiments progressPoints profile)) := by
  rw [processData_eq]
  constructor
  · rintro ⟨data, hdata⟩ k
    exact ((foldValues_iff _ _).mp (foldValues_of_foldKeyed hdata k)).1
  · intro h
    cases hdata : foldKeyed addRecorded ∅ (recorded experiments progressPoints profile) with
    | ok data => exact ⟨data, rfl⟩
    | error err =>
      obtain ⟨k, hk⟩ := exists_foldValues_error hdata
      have hok := (foldValues_iff _ _).mpr ⟨h k, rfl⟩
      rw [show OrderedMap.get? ∅ k = none from rfl, hok] at hk
      cases hk

theorem get?_processData {profile : List Experiment}
    (h : processData experiments progressPoints profile = .ok data) (k : Key) :
    data.get? k = Recorded.dataOf (group k (recorded experiments progressPoints profile)) := by
  rw [processData_eq] at h
  exact ((foldValues_iff _ _).mp (foldValues_of_foldKeyed h k)).2

end Data

/-! ## Numbers that are divided by -/

/-- A positive first value and no negative one after it, but positive ones where data is divided
by them. -/
structure Recorded.Positive (r : Recorded) : Prop where
  first : r ≠ .laps → 0 < r.first
  second : 0 ≤ r.second
  duration : r.isLatency = false → r ≠ .laps → 0 < r.second
  third : r.isLatency = true → 0 < r.third

theorem mem_recordedOf {progressPoints : Text → Bool} {e : Experiment} {pts : ProgressPoint}
    {r : Recorded} (h : r ∈ recordedOf progressPoints e pts) :
    (∃ delta, 0 < delta ∧ r = .throughput delta e.duration) ∨
      (∃ l : Latency, 0 < l.arrival ∧ r = .latency l.arrival l.departure e.duration) ∨
      r = .laps := by
  unfold recordedOf at h
  split at h
  · cases h
  · split at h
    · split at h
      · exact Or.inl ⟨_, ‹_›, List.mem_singleton.mp h⟩
      · split at h
        · split at h
          · exact Or.inr (Or.inl ⟨_, ‹_›, List.mem_singleton.mp h⟩)
          · cases h
        · cases h
    · split at h
      · exact Or.inr (Or.inr (List.mem_singleton.mp h))
      · cases h

theorem positive_recorded {experiments progressPoints : Text → Bool} {profile : List Experiment}
    {p : Key × Recorded} (h : p ∈ recorded experiments progressPoints profile) : p.2.Positive := by
  obtain ⟨e, -, he⟩ := List.mem_flatMap.mp h
  obtain ⟨pts, -, hpts⟩ := List.mem_flatMap.mp he
  obtain ⟨r, hr, rfl⟩ := List.mem_map.mp hpts
  have hduration := e.duration_pos
  rcases mem_recordedOf hr with ⟨delta, hdelta, rfl⟩ | ⟨l, harrival, rfl⟩ | rfl
  · exact ⟨fun _ => hdelta, hduration.le, fun _ _ => hduration,
      fun h => absurd h Bool.false_ne_true⟩
  · exact ⟨fun _ => harrival, l.departure_nonneg, fun h => absurd h Bool.noConfusion,
      fun _ => hduration⟩
  · exact ⟨fun h => absurd rfl h, le_refl _, fun _ h => absurd rfl h,
      fun h => absurd h Bool.false_ne_true⟩

/-- Nothing that is divided by is zero. -/
theorem divisors_dataOf {rs : List Recorded} {d : PointData} (hpositive : ∀ r ∈ rs, r.Positive)
    (hconsistent : Recorded.Consistent rs) (h : Recorded.dataOf rs = some d) :
    0 ∉ d.divisors ∧ 0 < d.mean := by
  cases rs with
  | nil => cases h
  | cons r rs =>
    obtain ⟨hlaps, hlatency⟩ := hconsistent
    have hfirst : ∀ x ∈ (r :: rs).map Recorded.first, 0 < x := by
      intro x hx
      obtain ⟨r', hr', rfl⟩ := List.mem_map.mp hx
      exact (hpositive r' hr').first (hlaps r' hr')
    have hsum := List.sum_pos _ hfirst (List.cons_ne_nil _ _)
    have hnotmem : 0 ∉ (r :: rs).map Recorded.first := fun h => absurd (hfirst 0 h) (lt_irrefl 0)
    rw [Recorded.dataOf] at h
    split_ifs at h with hkind
    · rw [← Option.some.inj h]
      have hthird : ∀ x ∈ (r :: rs).map Recorded.third, 0 < x := by
        intro x hx
        obtain ⟨r', hr', rfl⟩ := List.mem_map.mp hx
        refine (hpositive r' hr').third ?_
        rcases List.mem_cons.mp hr' with rfl | hr'
        · exact hkind
        · exact hlatency hkind r' hr'
      have hduration := List.sum_pos _ hthird (List.cons_ne_nil _ _)
      refine ⟨?_, ?_⟩
      · show 0 ∉ _ :: _ :: List.map Recorded.first (r :: rs)
        rw [List.mem_cons, List.mem_cons, not_or, not_or]
        exact ⟨hduration.ne, hsum.ne, hnotmem⟩
      · have hshares : 0 < (((r :: rs).map Recorded.third).map fun x =>
            x / ((r :: rs).map Recorded.third).sum).sum := by
          apply List.sum_pos _ _ (by simp)
          intro x hx
          obtain ⟨y, hy, rfl⟩ := List.mem_map.mp hx
          exact div_pos (hthird y hy) hduration
        exact div_pos hshares (div_pos hsum hduration)
    · rw [← Option.some.inj h]
      refine ⟨?_, ?_⟩
      · show 0 ∉ _ :: List.map Recorded.first (r :: rs)
        rw [List.mem_cons, not_or]
        exact ⟨hsum.ne, hnotmem⟩
      · have hhead : 0 < r.second :=
          (hpositive r List.mem_cons_self).duration (by simpa using hkind) (hlaps r List.mem_cons_self)
        have hrest : 0 ≤ (rs.map Recorded.second).sum := by
          apply List.sum_nonneg
          intro x hx
          obtain ⟨r', hr', rfl⟩ := List.mem_map.mp hx
          exact (hpositive r' (List.mem_cons_of_mem r hr')).second
        refine div_pos ?_ hsum
        rw [List.map_cons, List.sum_cons]
        exact add_pos_of_pos_of_nonneg hhead hrest

theorem dataOf_eq_none {rs : List Recorded} : Recorded.dataOf rs = none ↔ rs = [] := by
  cases rs with
  | nil => exact iff_of_true rfl rfl
  | cons r rs =>
    refine iff_of_false (fun h => ?_) (List.cons_ne_nil _ _)
    rw [Recorded.dataOf] at h
    split_ifs at h

/-! ## The table -/

/-- One row for each key with data and a baseline whose program speedup is in range. -/
structure IsTable (pairs : List (Key × Recorded)) (table : List (Key × ℚ)) : Prop where
  nodup : (table.map Prod.fst).Nodup
  rows : ∀ k speedup, (k, speedup) ∈ table ↔
    ∃ data base, Recorded.dataOf (group k pairs) = some data ∧
      Recorded.dataOf (group k.baseline pairs) = some base ∧
      speedup = computeSpeedup base data ∧ -100 ≤ speedup ∧ speedup ≤ 200

/-- All that is recorded for a key is of one kind, and some data is without a virtual speedup. -/
structure Analysable (pairs : List (Key × Recorded)) : Prop where
  consistent : ∀ k, Recorded.Consistent (group k pairs)
  baseline : ∃ p ∈ pairs, p.1.speedup = 0

section Analyse

variable {experiments progressPoints : Text → Bool} {profile : List Experiment} {data : Table}

theorem mem_withBaseline {row : Key × PointData × PointData} :
    row ∈ withBaseline [] data ↔
      data.get? row.1 = some row.2.1 ∧ data.get? row.1.baseline = some row.2.2 := by
  unfold withBaseline
  rw [List.mem_filterMap]
  constructor
  · rintro ⟨entry, hentry, hrow⟩
    split at hrow
    · cases hrow
    · rename_i base hbase
      rw [if_pos (Or.inl rfl)] at hrow
      rw [← Option.some.inj hrow]
      exact ⟨OrderedMap.get?_of_mem hentry, hbase⟩
  · rintro ⟨hdata, hbase⟩
    refine ⟨(row.1, row.2.1), OrderedMap.mem_of_get? hdata, ?_⟩
    show (match data.get? row.1.baseline with | none => none | some base => _) = _
    rw [hbase]
    exact if_pos (Or.inl rfl)

theorem mem_rowsOf {ret : List (Key × PointData × PointData)} {k : Key} {speedup : ℚ} :
    (k, speedup) ∈ rowsOf ret ↔
      ∃ data base, (k, data, base) ∈ ret ∧ speedup = computeSpeedup base data ∧
        -100 ≤ speedup ∧ speedup ≤ 200 := by
  unfold rowsOf
  rw [List.mem_filterMap]
  constructor
  · rintro ⟨⟨k', data, base⟩, hrow, h⟩
    dsimp only at h
    split_ifs at h with hrange
    cases h
    exact ⟨data, base, hrow, rfl, hrange.2, hrange.1⟩
  · rintro ⟨data, base, hrow, rfl, hlow, hhigh⟩
    exact ⟨_, hrow, if_pos ⟨hhigh, hlow⟩⟩

theorem nodup_rowsOf (speedups : List ℚ) (data : Table) :
    ((rowsOf (withBaseline speedups data)).map Prod.fst).Nodup := by
  rw [List.Nodup, List.pairwise_map, rowsOf, List.pairwise_filterMap, withBaseline,
    List.pairwise_filterMap]
  refine data.sorted.imp ?_
  intro entry entry' hlt row hrow row' hrow' a ha a' ha'
  have hkey : row.1 = entry.1 := by
    split at hrow
    · cases hrow
    · split_ifs at hrow
      rw [← Option.some.inj hrow]
  have hkey' : row'.1 = entry'.1 := by
    split at hrow'
    · cases hrow'
    · split_ifs at hrow'
      rw [← Option.some.inj hrow']
  dsimp only at ha ha'
  split_ifs at ha ha'
  rw [← Option.some.inj ha, ← Option.some.inj ha', hkey, hkey']
  exact hlt.ne

theorem divisors_processData (h : processData experiments progressPoints profile = .ok data)
    {k : Key} {d : PointData} (hd : data.get? k = some d) : 0 ∉ d.divisors ∧ 0 < d.mean := by
  rw [get?_processData h] at hd
  refine divisors_dataOf ?_ ((processData_iff _ _ _).mp ⟨data, h⟩ k) hd
  intro r hr
  exact positive_recorded (mem_group.mp hr)

/-- Nothing is divided by zero, so that only a missing baseline is left to fail. -/
theorem computeSpeedups_eq (h : processData experiments progressPoints profile = .ok data) :
    computeSpeedups [] data =
      if withBaseline [] data = [] then .error .attributeError
      else .ok (rowsOf (withBaseline [] data)) := by
  unfold computeSpeedups
  dsimp only
  have hdivisors : ¬ ((withBaseline [] data).any fun row =>
      decide (0 ∈ row.2.1.divisors ++ row.2.2.divisors ++ [row.2.2.mean])) = true := by
    rw [List.any_eq_true]
    rintro ⟨row, hrow, hzero⟩
    obtain ⟨hdata, hbase⟩ := mem_withBaseline.mp hrow
    have hnotdata := divisors_processData h hdata
    have hnotbase := divisors_processData h hbase
    rw [decide_eq_true_eq, List.mem_append, List.mem_append, List.mem_singleton] at hzero
    rcases hzero with (hzero | hzero) | hzero
    · exact hnotdata.1 hzero
    · exact hnotbase.1 hzero
    · exact hnotbase.2.ne hzero
  rw [if_neg hdivisors]

theorem exists_baseline_iff (h : processData experiments progressPoints profile = .ok data) :
    withBaseline [] data ≠ [] ↔
      ∃ p ∈ recorded experiments progressPoints profile, p.1.speedup = 0 := by
  constructor
  · intro hne
    obtain ⟨row, hrow⟩ := List.exists_mem_of_ne_nil _ hne
    have hbase := (mem_withBaseline.mp hrow).2
    rw [get?_processData h] at hbase
    have hgroup : group row.1.baseline (recorded experiments progressPoints profile) ≠ [] := by
      intro hnil
      rw [dataOf_eq_none.mpr hnil] at hbase
      cases hbase
    obtain ⟨r, hr⟩ := List.exists_mem_of_ne_nil _ hgroup
    exact ⟨_, mem_group.mp hr, rfl⟩
  · rintro ⟨⟨k, r⟩, hp, hzero⟩ hnil
    have hbaseline : k.baseline = k := by
      rw [Key.baseline, ← show k.speedup = 0 from hzero]
    have hsome : data.get? k ≠ none := by
      intro hnone
      rw [get?_processData h, dataOf_eq_none] at hnone
      have hr := mem_group.mpr hp
      rw [hnone] at hr
      cases hr
    obtain ⟨d, hd⟩ := Option.ne_none_iff_exists'.mp hsome
    have hrow : (k, d, d) ∈ withBaseline [] data :=
      mem_withBaseline.mpr ⟨hd, hbaseline.symm ▸ hd⟩
    rw [hnil] at hrow
    cases hrow

theorem isTable_rowsOf (h : processData experiments progressPoints profile = .ok data) :
    IsTable (recorded experiments progressPoints profile) (rowsOf (withBaseline [] data)) := by
  refine ⟨nodup_rowsOf [] data, fun k speedup => ?_⟩
  rw [mem_rowsOf]
  refine exists_congr fun d => exists_congr fun b => ?_
  rw [mem_withBaseline, get?_processData h, get?_processData h, and_assoc]

/-- The analysis comes to its table exactly if what is recorded is analysable. -/
theorem analyse_iff (experiments progressPoints : Text → Bool) (profile : List Experiment) :
    (∃ table, analyse experiments progressPoints profile = .ok table ∧
      IsTable (recorded experiments progressPoints profile) table) ↔
      Analysable (recorded experiments progressPoints profile) := by
  unfold analyse
  constructor
  · rintro ⟨table, htable, -⟩
    cases hdata : processData experiments progressPoints profile with
    | error err =>
      rw [hdata] at htable
      cases htable
    | ok data =>
      rw [hdata] at htable
      refine ⟨(processData_iff _ _ _).mp ⟨data, hdata⟩, (exists_baseline_iff hdata).mp ?_⟩
      intro hnil
      replace htable : computeSpeedups [] data = .ok table := htable
      rw [computeSpeedups_eq hdata, if_pos hnil] at htable
      cases htable
  · rintro ⟨hconsistent, hbaseline⟩
    obtain ⟨data, hdata⟩ := (processData_iff _ _ _).mpr hconsistent
    refine ⟨rowsOf (withBaseline [] data), ?_, isTable_rowsOf hdata⟩
    rw [hdata]
    show computeSpeedups [] data = _
    rw [computeSpeedups_eq hdata, if_neg ((exists_baseline_iff hdata).mpr hbaseline)]

def lapsOnly : Experiment :=
  ⟨0, Positive.one, ⟨['a'], 1, [], 0⟩, [⟨['p'], .laps 1⟩], Positive.one.2⟩

/-- Of its two points of one name, the first is a latency point. -/
def latencyFirst : Experiment :=
  ⟨0, Positive.one, ⟨['a'], 1, [], 0⟩,
    [⟨['p'], .delta 0 (some ⟨1, Positive.one, Positive.one.2.le⟩)⟩, ⟨['p'], .delta 1 none⟩],
    Positive.one.2⟩

/-- No experiments, laps only, and a latency before a throughput of one name. -/
theorem raises_analyse :
    analyse (fun _ => true) (fun _ => true) [] = .error .attributeError ∧
      analyse (fun _ => true) (fun _ => true) [lapsOnly] = .error .typeError ∧
      analyse (fun _ => true) (fun _ => true) [latencyFirst] = .error .indexError := by
  decide +kernel

end Analyse

end Python
end Rocprofsys
