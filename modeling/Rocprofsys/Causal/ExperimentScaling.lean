import Mathlib.Data.Rat.Cast.Order
import Mathlib.Algebra.Order.Ring.Rat
import Mathlib.Tactic.NormNum
import Rocprofsys.Base.FloorWalk
import Rocprofsys.Base.Run
import Rocprofsys.Base.SortedBy
import Rocprofsys.Causal.ProgressPoint

namespace Rocprofsys
namespace Causal

open Base

/-! ## experiment::stop -/

/-- What an experiment counts for a point. -/
def ProgressPoint.num (p : ProgressPoint) : Int := max (max p.getLaps p.getArrival) p.departure

namespace Experiment

/-- `_prog_vals`, sorted. -/
def progVals (x : Experiment) : List Int :=
  ((x.scalingPoints.map fun e => e.2.num).filter fun n => decide (0 < n)).mergeSort

/-- Some progress point advanced. -/
def Advanced (x : Experiment) : Prop := ∃ e ∈ x.scalingPoints, 0 < e.2.num

end Experiment

/-- The accumulated statistics of a list of values. -/
structure Statistics where
  getMean : List Int → ℚ
  getMax : List Int → ℚ
  getMin : List Int → ℚ

/-- `none` reads outside the list. -/
def medi (vals : List Int) : Option Int :=
  if vals.length > 2 then vals[vals.length / 2]? else vals.head?

namespace Statistics

variable (stats : Statistics)

def mean (vals : List Int) : ℚ := if vals.length > 0 then stats.getMean vals else 0

def high (vals : List Int) : ℚ := if vals.length > 0 then stats.getMax vals else 0

def lowv (vals : List Int) : ℚ := if vals.length > 0 then stats.getMin vals else 0

/-- The next experiment is to be longer. -/
def few (vals : List Int) (m : Int) : Bool :=
  decide (stats.lowv vals ≤ 3) && (decide (stats.mean vals < 5) || decide (m < 5))

/-- It may be shorter. -/
def plenty (vals : List Int) : Bool :=
  decide (stats.mean vals > 10) && decide (stats.lowv vals ≥ 8)

end Statistics

structure Scaling where
  globalScaling : Int64
  globalScalingIncrements : Int64
  experimentHistory : List Experiment

namespace Scaling

def init : Scaling := ⟨1, 0, []⟩

def rescale (stats : Statistics) (s : Scaling) (vals : List Int) (m : Int) : Scaling :=
  if stats.few vals m then
    { s with
      globalScaling := s.globalScaling * 2
      globalScalingIncrements := s.globalScalingIncrements + 1 }
  else if stats.plenty vals && decide (s.globalScaling > 1) then
    { s with
      globalScaling := s.globalScaling / 2
      globalScalingIncrements := 0 }
  else s

end Scaling

/-- A call of `experiment::stop` and the experiment it would end. -/
structure Stop where
  now : UInt64
  startTime : UInt64
  experimentTime : UInt64
  experiment : Experiment

/-- The time of the experiment is over. -/
def Stop.ends (x : Stop) : Bool := !decide (x.now < x.startTime + x.experimentTime)

/-- `none` reads outside the list of progress values. -/
def stop (stats : Statistics) (s : Scaling) (x : Stop) : Option Scaling :=
  if x.ends then
    let vals := x.experiment.progVals
    match medi vals with
    | none => none
    | some m =>
      let scaled := s.rescale stats vals m
      some { scaled with
        experimentHistory :=
          if stats.high vals > 0 then scaled.experimentHistory ++ [x.experiment]
          else scaled.experimentHistory }
  else some s

/-! ## What is asked of a run -/

def Scaling.PowerOfTwo (s : Scaling) : Prop := ∃ k : ℕ, s.globalScaling.toInt = 2 ^ k

/-- The value taken as the median is one. -/
def Stop.TrueMedian (x : Stop) : Prop :=
  x.ends = true → ∃ m, medi x.experiment.progVals = some m ∧ IsMedian m x.experiment.progVals

/-- No stop reads outside its list or takes another value for the median, and the scaling is a
power of two after each. -/
def Scales (stats : Statistics) (s : Scaling) (stops : List Stop) : Prop :=
  RunsWith (stop stats) (fun x s' => x.TrueMedian ∧ s'.PowerOfTwo) s stops

/-- How a stop changes the exponent of the scaling, where that is not zero. -/
def Stop.change (stats : Statistics) (x : Stop) : Int :=
  match x.ends, medi x.experiment.progVals with
  | true, some m =>
    if stats.few x.experiment.progVals m then 1
    else if stats.plenty x.experiment.progVals then -1
    else 0
  | _, _ => 0

/-! ## The values and their median -/

theorem mem_progVals_iff {x : Experiment} {n : Int} :
    n ∈ x.progVals ↔ 0 < n ∧ ∃ e ∈ x.scalingPoints, e.2.num = n := by
  rw [Experiment.progVals, List.mem_mergeSort, List.mem_filter, List.mem_map,
    decide_eq_true_iff, and_comm]

theorem progVals_ne_nil_iff {x : Experiment} : x.progVals ≠ [] ↔ x.Advanced := by
  constructor
  · intro h
    obtain ⟨n, hn⟩ := List.exists_mem_of_ne_nil _ h
    obtain ⟨hpos, e, he, rfl⟩ := mem_progVals_iff.mp hn
    exact ⟨e, he, hpos⟩
  · intro h
    obtain ⟨e, he, hpos⟩ := h
    exact List.ne_nil_of_mem (mem_progVals_iff.mpr ⟨hpos, e, he, rfl⟩)

theorem progVals_sorted (x : Experiment) : x.progVals.Pairwise (· ≤ ·) :=
  List.pairwise_mergeSort' (· ≤ ·) _

/-- The first of at most two values and the middle one of more are medians. -/
theorem exists_medi {x : Experiment} (h : x.Advanced) :
    ∃ m, medi x.progVals = some m ∧ IsMedian m x.progVals := by
  have hpos := List.length_pos_of_ne_nil (progVals_ne_nil_iff.mpr h)
  unfold medi
  split
  · have hmiddle : x.progVals.length / 2 < x.progVals.length := by omega
    refine ⟨_, List.getElem?_eq_getElem hmiddle, ?_⟩
    exact isMedian_getElem (progVals_sorted x) hmiddle (by omega) (by omega)
  · rw [List.head?_eq_getElem?]
    refine ⟨_, List.getElem?_eq_getElem hpos, ?_⟩
    exact isMedian_getElem (progVals_sorted x) hpos (by omega) (by omega)

theorem medi_eq_none {x : Experiment} (h : ¬ x.Advanced) : medi x.progVals = none := by
  rw [not_not.mp (mt progVals_ne_nil_iff.mp h)]
  rfl

/-! ## One stop -/

variable {stats : Statistics} {s s' : Scaling} {x : Stop} {vals : List Int} {k : ℕ} {m : Int}

theorem stop_of_not_ends (h : x.ends = false) : stop stats s x = some s := by
  rw [stop, h]
  rfl

theorem change_of_not_ends (h : x.ends = false) : x.change stats = 0 := by
  rw [Stop.change, h]

theorem stop_of_not_advanced (hends : x.ends = true) (h : ¬ x.experiment.Advanced) :
    stop stats s x = none := by
  rw [stop, if_pos hends]
  dsimp only
  rw [medi_eq_none h]

theorem stop_of_medi (stats : Statistics) (s : Scaling) (hends : x.ends = true)
    (hm : medi x.experiment.progVals = some m) :
    ∃ s', stop stats s x = some s' ∧
      s'.globalScaling = (s.rescale stats x.experiment.progVals m).globalScaling := by
  rw [stop, if_pos hends]
  dsimp only
  rw [hm]
  exact ⟨_, rfl, rfl⟩

theorem change_of_medi (hends : x.ends = true) (hm : medi x.experiment.progVals = some m) :
    x.change stats =
      if stats.few x.experiment.progVals m then 1
      else if stats.plenty x.experiment.progVals then -1
      else 0 := by
  rw [Stop.change, hends, hm]

theorem toInt_double {g : Int64} (hg : g.toInt = 2 ^ k) (hk : k + 1 ≤ 62) :
    (g * 2).toInt = 2 ^ (k + 1) := by
  have hle : (2 : Int) ^ (k + 1) ≤ 2 ^ 62 := pow_le_pow_right₀ (by omega) hk
  have hpos : (0 : Int) < 2 ^ (k + 1) := pow_pos (by omega) _
  rw [Int64.toInt_mul, hg]
  show ((2 : Int) ^ k * 2).bmod (2 ^ 64) = _
  rw [← pow_succ]
  exact Int.bmod_eq_of_le (by omega) (by omega)

/-- The doubling that leaves the range gives a negative scaling. -/
theorem toInt_double_last {g : Int64} (hg : g.toInt = 2 ^ 62) : (g * 2).toInt = -2 ^ 63 := by
  rw [Int64.toInt_mul, hg]
  rfl

theorem toInt_halve {g : Int64} (hg : g.toInt = 2 ^ (k + 1)) (hk : k ≤ 62) :
    (g / 2).toInt = 2 ^ k := by
  have hle : (2 : Int) ^ k ≤ 2 ^ 62 := pow_le_pow_right₀ (by omega) hk
  have hpos : (0 : Int) < 2 ^ k := pow_pos (by omega) _
  rw [Int64.toInt_div, hg]
  show (((2 : Int) ^ (k + 1)).tdiv 2).bmod (2 ^ 64) = _
  rw [pow_succ, Int.mul_tdiv_cancel _ (by omega)]
  exact Int.bmod_eq_of_le (by omega) (by omega)

theorem one_lt_iff {g : Int64} (hg : g.toInt = 2 ^ k) : g > 1 ↔ k ≠ 0 := by
  show (1 : Int64) < g ↔ _
  rw [Int64.lt_iff_toInt_lt, hg]
  show (1 : Int) < 2 ^ k ↔ _
  cases k with
  | zero => omega
  | succ k =>
    have hpos : (0 : Int) < 2 ^ k := pow_pos (by omega) _
    rw [pow_succ]
    omega

/-- The exponent climbs with the change until the scaling leaves the range. -/
theorem toInt_rescale (stats : Statistics) (hs : s.globalScaling.toInt = 2 ^ k) (hk : k ≤ 62)
    (hends : x.ends = true) (hm : medi x.experiment.progVals = some m) :
    (s.rescale stats x.experiment.progVals m).globalScaling.toInt =
      if climb k (x.change stats) ≤ 62 then 2 ^ climb k (x.change stats) else -2 ^ 63 := by
  rw [change_of_medi hends hm]
  unfold Scaling.rescale
  by_cases hfew : stats.few x.experiment.progVals m = true
  · rw [if_pos hfew, if_pos hfew, climb_one]
    show (s.globalScaling * 2).toInt = _
    split
    next hle => exact toInt_double hs hle
    next hlast =>
      have hk62 : k = 62 := by omega
      exact toInt_double_last (hk62 ▸ hs)
  · rw [if_neg hfew, if_neg hfew]
    by_cases hplenty : stats.plenty x.experiment.progVals = true
    · rw [if_pos hplenty, hplenty, Bool.true_and, climb_neg_one]
      cases k with
      | zero =>
        rw [if_neg fun h => (one_lt_iff hs).mp (of_decide_eq_true h) rfl]
        exact hs
      | succ k =>
        rw [if_pos (decide_eq_true ((one_lt_iff hs).mpr k.succ_ne_zero)), Nat.add_sub_cancel,
          if_pos (by omega)]
        exact toInt_halve hs (by omega)
    · rw [if_neg hplenty, eq_false_of_ne_true hplenty, Bool.false_and, climb_zero, if_pos hk]
      exact hs

/-- Where a stop goes through, it leads to a power of two exactly if the exponent stays in the
range, which is then the one the exponent climbed to. -/
theorem stop_right (stats : Statistics) (hs : s.globalScaling.toInt = 2 ^ k) (hk : k ≤ 62)
    (hadvanced : x.ends = true → x.experiment.Advanced) :
    ∃ s', stop stats s x = some s' ∧ x.TrueMedian ∧
      (s'.PowerOfTwo ↔ climb k (x.change stats) ≤ 62) ∧
      (s'.PowerOfTwo → s'.globalScaling.toInt = 2 ^ climb k (x.change stats)) := by
  cases hends : x.ends with
  | false =>
    rw [change_of_not_ends hends, climb_zero]
    refine ⟨s, stop_of_not_ends hends, fun h => ?_, iff_of_true ⟨k, hs⟩ hk, fun _ => hs⟩
    exact absurd h (ne_true_of_eq_false hends)
  | true =>
    obtain ⟨m, hm, hmedian⟩ := exists_medi (hadvanced hends)
    obtain ⟨s', hstop, hscaling⟩ := stop_of_medi stats s hends hm
    have hnext := toInt_rescale stats hs hk hends hm
    rw [← hscaling] at hnext
    have hpow : s'.PowerOfTwo ↔ climb k (x.change stats) ≤ 62 := by
      constructor
      · intro h
        obtain ⟨j, hj⟩ := h
        have hpos : (0 : Int) < 2 ^ j := pow_pos (by omega) _
        by_contra hlarge
        rw [hnext, if_neg hlarge] at hj
        omega
      · intro hle
        exact ⟨_, hnext.trans (if_pos hle)⟩
    exact ⟨s', hstop, fun _ => ⟨m, hm, hmedian⟩, hpow,
      fun h => hnext.trans (if_pos (hpow.mp h))⟩

/-! ## Runs of stops -/

theorem scales_from_iff (stops : List Stop) (hs : s.globalScaling.toInt = 2 ^ k) (hk : k ≤ 62) :
    Scales stats s stops ↔
      (∀ x ∈ stops, x.ends = true → x.experiment.Advanced) ∧
        Below 62 k (stops.map (Stop.change stats)) := by
  induction stops generalizing s k with
  | nil => exact iff_of_true trivial ⟨fun x hx => absurd hx List.not_mem_nil, trivial⟩
  | cons x stops ih =>
    rw [List.forall_mem_cons, List.map_cons]
    constructor
    · intro h
      obtain ⟨s', hstop, ⟨-, hright⟩, hrest⟩ := h
      have hadvanced : x.ends = true → x.experiment.Advanced := by
        intro hends
        by_contra hnone
        rw [stop_of_not_advanced hends hnone] at hstop
        cases hstop
      obtain ⟨s'', hstop', -, hpow, hnext⟩ := stop_right stats hs hk hadvanced
      cases hstop.symm.trans hstop'
      obtain ⟨hall, hbelow⟩ := (ih (hnext hright) (hpow.mp hright)).mp hrest
      exact ⟨⟨hadvanced, hall⟩, hpow.mp hright, hbelow⟩
    · intro h
      obtain ⟨⟨hadvanced, hall⟩, hle, hbelow⟩ := h
      obtain ⟨s', hstop, hmedian, hpow, hnext⟩ := stop_right stats hs hk hadvanced
      have hright := hpow.mpr hle
      exact ⟨s', hstop, ⟨hmedian, hright⟩, (ih (hnext hright) hle).mpr ⟨hall, hbelow⟩⟩

/-- A run of stops is right exactly if some point advanced in every experiment ended, and in no
stretch of it the scaling is to be doubled more than 62 times more often than halved. -/
theorem scales_iff (stats : Statistics) (stops : List Stop) :
    Scales stats .init stops ↔
      (∀ x ∈ stops, x.ends = true → x.experiment.Advanced) ∧
        ∀ stretch, stretch <:+: stops → (stretch.map (Stop.change stats)).sum ≤ 62 := by
  rw [scales_from_iff stops (k := 0) rfl (Nat.zero_le 62), below_zero_iff]
  refine and_congr_right fun _ => ⟨fun h stretch hstretch => ?_, fun h changes hchanges => ?_⟩
  · exact h _ (hstretch.map _)
  · obtain ⟨stretch, hstretch, rfl⟩ := List.infix_map_iff.mp hchanges
    exact h stretch hstretch

/-- The documented mean, maximum and minimum. -/
def arithmetic : Statistics where
  getMean vals := vals.sum / vals.length
  getMax vals := vals.foldl (fun a n => max a n) 0
  getMin vals := vals.foldl (fun a n => min a n) (vals.headD 0)

/-- An experiment ended in which no progress point was recorded. -/
def idle : Stop := ⟨1, 0, 1, ⟨∅, ∅, [], []⟩⟩

/-- The first experiment to end without progress reads the first of no values. -/
theorem not_scales_idle : ¬ Scales arithmetic .init [idle] := by
  intro h
  obtain ⟨s', hstop, -⟩ := h
  have hnone : stop arithmetic .init idle = none := by
    refine stop_of_not_advanced rfl fun hadvanced => ?_
    obtain ⟨e, he, -⟩ := hadvanced
    cases he
  rw [hnone] at hstop
  cases hstop

end Causal
end Rocprofsys
