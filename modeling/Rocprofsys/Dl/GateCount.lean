import Rocprofsys.Dl.ThreadTrace

namespace Rocprofsys
namespace Dl

open Base

/-! ## The count that the gate should keep -/

/-- A thread, and for each open region whether it was pushed since tracing was disabled,
innermost first. -/
structure Watch where
  thread : Thread
  since : List Bool

namespace Watch

def call (w : Watch) (c : Call) : Watch where
  thread := (w.thread.call c).1
  since :=
    if c.opens.isSome then (!w.thread.threadEnabled) :: w.since
    else if c.closes.isSome then w.since.tail
    -- tracing is disabled here, and nothing has been pushed since
    else if w.thread.threadEnabled && !(w.thread.call c).1.threadEnabled then
      w.since.map fun _ => false
    else w.since

/-- While tracing is disabled, the count is the number of open regions pushed since. -/
def Counts (w : Watch) : Prop :=
  w.thread.threadEnabled = false → w.thread.threadCount = (w.since.count true : Int)

/-- While tracing is disabled, a pop enables it again exactly if it closes a region that was
open before. -/
def Reenables (w : Watch) (c : Call) : Prop :=
  w.thread.threadEnabled = false → c.closes.isSome →
    ((w.call c).thread.threadEnabled = true ↔ w.since.head? = some false)

/-- The gate works all along a run. -/
def Gates (w : Watch) (calls : List Call) : Prop := Throughout call Counts Reenables w calls

end Watch

/-! ## The gate as it is meant -/

/-- Tracing is on, and may be stopped again or not; or it is off, with a number of regions
pushed since. -/
inductive Gate where
  | recording (again : Bool)
  | suppressing (inner : Nat)
  deriving DecidableEq, Repr

namespace Gate

/-- A gate that is off closes the regions pushed since, and goes on with the pop of the next
one. Category regions are not popped while it is off, and it is not stopped again unless it
went on by a start with no region left. -/
def step : Gate → Call → Option Gate
  | .recording again, c =>
    if c.setting = some false then if again then some (.suppressing 0) else none
    else some (.recording again)
  | .suppressing inner, c =>
    if c.opens.isSome then some (.suppressing (inner + 1))
    else if c.closes.isSome then
      if c.isCategoryPop then none
      else if inner = 0 then some (.recording false) else some (.suppressing (inner - 1))
    else if c.setting = some true then some (.recording (inner = 0))
    else some (.suppressing inner)

/-- The gate of a new thread. -/
def start (enabled : Bool) : Gate := if enabled then .recording true else .suppressing 0

end Gate

/-- The gate takes every call of a run. -/
def Regular (g : Gate) (calls : List Call) : Prop := (runFrom Gate.step g calls).isSome

instance (g : Gate) (calls : List Call) : Decidable (Regular g calls) :=
  inferInstanceAs (Decidable (_ = true))

/-- The thread is where the gate is, as long as the gate takes the calls. -/
def Follows (w : Watch) : Gate → Prop
  | .recording again =>
    w.thread.threadEnabled = true ∧ (again = true ↔ w.thread.threadCount = 0)
  | .suppressing inner =>
    w.thread.threadEnabled = false ∧ w.thread.threadCount = inner ∧
      ∃ before, w.since = List.replicate inner true ++ List.replicate before false

theorem regular_cons {g : Gate} {c : Call} {calls : List Call} :
    Regular g (c :: calls) ↔ ∃ g', g.step c = some g' ∧ Regular g' calls := isSome_runFrom_cons

/-! ## One call -/

section Step

variable {w : Watch} {c : Call} {region : Region}

theorem since_of_opens (h : c.opens = some region) :
    (w.call c).since = (!w.thread.threadEnabled) :: w.since := by
  rw [Watch.call, h]
  rfl

theorem since_of_closes (hopens : c.opens = none) (hcloses : c.closes = some region) :
    (w.call c).since = w.since.tail := by
  rw [Watch.call, hopens, hcloses]
  rfl

theorem since_of_setting {on : Bool} (hopens : c.opens = none) (hcloses : c.closes = none)
    (hsetting : c.setting = some on) :
    (w.call c).since =
      if w.thread.threadEnabled && !on then w.since.map fun _ => false else w.since := by
  rw [Watch.call, hopens, hcloses, (Thread.call_of_setting hsetting).2.1]
  rfl

theorem count_true_replicate (inner before : Nat) :
    (List.replicate inner true ++ List.replicate before false).count true = inner := by
  rw [List.count_append, List.count_replicate_self, List.count_replicate]
  rfl

theorem Follows.counts {g : Gate} (h : Follows w g) : w.Counts := by
  intro hdisabled
  cases g with
  | recording again => exact absurd (h.1.symm.trans hdisabled) (by decide)
  | suppressing inner =>
    obtain ⟨-, hcount, before, hsince⟩ := h
    rw [hcount, hsince, count_true_replicate]

theorem reenables_of_closes_eq_none (hcloses : c.closes = none) : w.Reenables c := by
  intro _ hpop
  rw [hcloses] at hpop
  cases hpop

section Recording

variable {again : Bool}

theorem reenables_of_recording (h : Follows w (.recording again)) : w.Reenables c :=
  fun hdisabled => absurd (hdisabled.symm.trans h.1) Bool.false_ne_true

/-- While tracing is on, regions come and go without a trace on the count. -/
theorem follows_region_of_recording (hactive : w.thread.active = true)
    (h : Follows w (.recording again)) (hsetting : c.setting = none) :
    Follows (w.call c) (.recording again) := by
  have hthread : (w.call c).thread = w.thread :=
    congrArg Prod.fst (Thread.call_of_enabled hactive h.1 hsetting)
  rw [Follows, hthread]
  exact h

theorem follows_start_of_recording (h : Follows w (.recording again))
    (hsetting : c.setting = some true) : Follows (w.call c) (.recording again) := by
  obtain ⟨-, honly, hsame⟩ := @Thread.call_of_setting w.thread c true hsetting
  exact ⟨honly, hsame.symm ▸ h.2⟩

/-- With the count at zero the open regions are those from before. -/
theorem follows_stop_of_recording (h : Follows w (.recording true)) (hopens : c.opens = none)
    (hcloses : c.closes = none) (hsetting : c.setting = some false) :
    Follows (w.call c) (.suppressing 0) := by
  obtain ⟨-, honly, hsame⟩ := @Thread.call_of_setting w.thread c false hsetting
  refine ⟨honly, hsame.trans (h.2.mp rfl), w.since.length, ?_⟩
  rw [since_of_setting hopens hcloses hsetting, h.1, List.map_const']
  rfl

end Recording

section Suppressing

variable {inner : Nat}

theorem follows_push_of_suppressing (hactive : w.thread.active = true)
    (h : Follows w (.suppressing inner)) (hopens : c.opens = some region) :
    Follows (w.call c) (.suppressing (inner + 1)) := by
  obtain ⟨hdisabled, hcount, before, hsince⟩ := h
  have hthread : (w.call c).thread = w.thread.incrementCount :=
    congrArg Prod.fst (Thread.push_of_disabled hactive hdisabled hopens)
  refine ⟨?_, ?_, before, ?_⟩
  · rw [hthread]
    exact hdisabled
  · rw [hthread]
    show w.thread.threadCount + 1 = _
    rw [hcount]
    rfl
  · rw [since_of_opens hopens, hdisabled, hsince]
    rfl

theorem thread_of_pop (hactive : w.thread.active = true) (hdisabled : w.thread.threadEnabled = false)
    (hcloses : c.closes = some region) (hpop : c.isCategoryPop = false) :
    (w.call c).thread = w.thread.decrementCount := by
  have hcall := congrArg Prod.fst (Thread.pop_of_disabled hactive hdisabled hcloses)
  rw [hpop] at hcall
  exact hcall

/-- The pop of a region from before the gate turned off turns it on. -/
theorem follows_last_pop (hactive : w.thread.active = true) (h : Follows w (.suppressing 0))
    (hcloses : c.closes = some region) (hpop : c.isCategoryPop = false) (hne : w.since ≠ []) :
    Follows (w.call c) (.recording false) ∧ w.Reenables c := by
  obtain ⟨hdisabled, hcount, before, hsince⟩ := h
  have hthread := thread_of_pop hactive hdisabled hcloses hpop
  have hrestart : w.thread.decrementCount =
      { w.thread with threadCount := w.thread.threadCount - 1, threadEnabled := true } :=
    if_pos hcount
  refine ⟨⟨?_, ?_⟩, fun _ _ => ?_⟩
  · rw [hthread, hrestart]
  · rw [hthread, hrestart]
    refine ⟨fun hfalse => absurd hfalse Bool.false_ne_true, fun hzero => ?_⟩
    have hneg : w.thread.threadCount - 1 = 0 := hzero
    omega
  · rw [hthread, hrestart, hsince]
    cases before with
    | zero => exact absurd hsince hne
    | succ before => exact ⟨fun _ => rfl, fun _ => rfl⟩

theorem follows_inner_pop (hactive : w.thread.active = true)
    (h : Follows w (.suppressing (inner + 1))) (hopens : c.opens = none)
    (hcloses : c.closes = some region) (hpop : c.isCategoryPop = false) :
    Follows (w.call c) (.suppressing inner) ∧ w.Reenables c := by
  obtain ⟨hdisabled, hcount, before, hsince⟩ := h
  have hthread := thread_of_pop hactive hdisabled hcloses hpop
  have hcountdown : w.thread.decrementCount =
      { w.thread with threadCount := w.thread.threadCount - 1 } := by
    refine if_neg ?_
    rw [hcount]
    omega
  refine ⟨⟨?_, ?_, before, ?_⟩, fun _ _ => ?_⟩
  · rw [hthread, hcountdown]
    exact hdisabled
  · rw [hthread, hcountdown]
    show w.thread.threadCount - 1 = _
    omega
  · rw [since_of_closes hopens hcloses, hsince]
    rfl
  · rw [hthread, hcountdown, hsince]
    refine ⟨fun honly => absurd (hdisabled.symm.trans honly) Bool.false_ne_true, fun hhead => ?_⟩
    cases hhead

theorem follows_start_of_suppressing (h : Follows w (.suppressing inner))
    (hsetting : c.setting = some true) : Follows (w.call c) (.recording (inner = 0)) := by
  obtain ⟨-, honly, hsame⟩ := @Thread.call_of_setting w.thread c true hsetting
  refine ⟨honly, ?_⟩
  rw [show (w.call c).thread.threadCount = w.thread.threadCount from hsame, h.2.1,
    decide_eq_true_iff]
  exact Int.natCast_eq_zero.symm

theorem follows_stop_of_suppressing (h : Follows w (.suppressing inner)) (hopens : c.opens = none)
    (hcloses : c.closes = none) (hsetting : c.setting = some false) :
    Follows (w.call c) (.suppressing inner) := by
  obtain ⟨hdisabled, hcount, before, hsince⟩ := h
  obtain ⟨-, honly, hsame⟩ := @Thread.call_of_setting w.thread c false hsetting
  refine ⟨honly, hsame.trans hcount, before, ?_⟩
  rw [since_of_setting hopens hcloses hsetting, hdisabled]
  exact hsince

end Suppressing

/-- A step that the gate takes keeps the thread with it. -/
theorem follows_step {g g' : Gate} (hactive : w.thread.active = true) (h : Follows w g)
    (hopen : c.closes.isSome → w.since ≠ []) (hstep : g.step c = some g') :
    Follows (w.call c) g' ∧ w.Reenables c := by
  cases g with
  | recording again =>
    refine ⟨?_, reenables_of_recording h⟩
    rw [Gate.step] at hstep
    rcases c.cases with ⟨region, -, -, hsetting⟩ | ⟨region, -, -, hsetting⟩ |
      ⟨on, hopens, hcloses, hsetting⟩
    · rw [hsetting] at hstep
      cases hstep
      exact follows_region_of_recording hactive h hsetting
    · rw [hsetting] at hstep
      cases hstep
      exact follows_region_of_recording hactive h hsetting
    · rw [hsetting] at hstep
      cases on with
      | true =>
        cases hstep
        exact follows_start_of_recording h hsetting
      | false =>
        rw [if_pos rfl] at hstep
        cases again with
        | false => cases hstep
        | true =>
          cases hstep
          exact follows_stop_of_recording h hopens hcloses hsetting
  | suppressing inner =>
    rw [Gate.step] at hstep
    rcases c.cases with ⟨region, hopens, hcloses, -⟩ | ⟨region, hopens, hcloses, -⟩ |
      ⟨on, hopens, hcloses, hsetting⟩
    · rw [hopens] at hstep
      cases hstep
      exact ⟨follows_push_of_suppressing hactive h hopens, reenables_of_closes_eq_none hcloses⟩
    · rw [hopens, hcloses] at hstep
      cases hpop : c.isCategoryPop with
      | true =>
        rw [hpop] at hstep
        cases hstep
      | false =>
        rw [hpop] at hstep
        cases inner with
        | zero =>
          cases hstep
          exact follows_last_pop hactive h hcloses hpop (hopen (by rw [hcloses]; rfl))
        | succ inner =>
          cases hstep
          exact follows_inner_pop hactive h hopens hcloses hpop
    · refine ⟨?_, reenables_of_closes_eq_none hcloses⟩
      rw [hopens, hcloses, hsetting] at hstep
      cases on with
      | true =>
        cases hstep
        exact follows_start_of_suppressing h hsetting
      | false =>
        cases hstep
        exact follows_stop_of_suppressing h hopens hcloses hsetting

/-- Stopped again with the count not at zero, the thread counts regions that are not there. -/
theorem not_counts_of_stop (h : Follows w (.recording false)) (hopens : c.opens = none)
    (hcloses : c.closes = none) (hsetting : c.setting = some false) : ¬(w.call c).Counts := by
  intro hcounts
  obtain ⟨-, hoff, hsame⟩ := @Thread.call_of_setting w.thread c false hsetting
  have hzero : (w.call c).since.count true = 0 := by
    rw [since_of_setting hopens hcloses hsetting, h.1, List.map_const']
    exact count_true_replicate 0 _
  have hcount := hcounts hoff
  rw [hzero] at hcount
  exact absurd (h.2.mpr (hsame.symm.trans hcount)) Bool.false_ne_true

/-- A category pop counts up where a region is closed. -/
theorem not_counts_of_categoryPop {inner : Nat} (hactive : w.thread.active = true)
    (h : Follows w (.suppressing inner)) (hopens : c.opens = none)
    (hcloses : c.closes = some region) (hpop : c.isCategoryPop = true) :
    ¬(w.call c).Counts := by
  intro hcounts
  obtain ⟨hdisabled, hcount, before, hsince⟩ := h
  have hthread : (w.call c).thread = w.thread.incrementCount := by
    have hcall := congrArg Prod.fst (Thread.pop_of_disabled hactive hdisabled hcloses)
    rw [hpop] at hcall
    exact hcall
  have hafter := hcounts (by rw [hthread]; exact hdisabled)
  rw [hthread, since_of_closes hopens hcloses] at hafter
  have hle := (List.tail_sublist w.since).count_le true
  rw [hsince, count_true_replicate] at hle
  have hcountUp : w.thread.incrementCount.threadCount = w.thread.threadCount + 1 := rfl
  rw [hsince] at hafter
  omega

/-- A call that the gate does not take leaves a wrong count behind. -/
theorem not_counts_of_step {g : Gate} (hactive : w.thread.active = true) (h : Follows w g)
    (hstep : g.step c = none) : ¬(w.call c).Counts := by
  cases g with
  | recording again =>
    rw [Gate.step] at hstep
    rcases c.cases with ⟨region, -, -, hsetting⟩ | ⟨region, -, -, hsetting⟩ |
      ⟨on, hopens, hcloses, hsetting⟩
    · rw [hsetting] at hstep
      cases hstep
    · rw [hsetting] at hstep
      cases hstep
    · rw [hsetting] at hstep
      cases on with
      | true => cases hstep
      | false =>
        rw [if_pos rfl] at hstep
        cases again with
        | true => cases hstep
        | false => exact not_counts_of_stop h hopens hcloses hsetting
  | suppressing inner =>
    rw [Gate.step] at hstep
    rcases c.cases with ⟨region, hopens, -, -⟩ | ⟨region, hopens, hcloses, -⟩ |
      ⟨on, hopens, hcloses, hsetting⟩
    · rw [hopens] at hstep
      cases hstep
    · rw [hopens, hcloses] at hstep
      cases hpop : c.isCategoryPop with
      | true => exact not_counts_of_categoryPop hactive h hopens hcloses hpop
      | false =>
        rw [hpop] at hstep
        cases inner with
        | zero => cases hstep
        | succ inner => cases hstep
    · rw [hopens, hcloses, hsetting] at hstep
      cases on <;> cases hstep

end Step

/-! ## Whole runs -/

/-- The gate works exactly as long as it takes the calls. -/
theorem gates_iff_of_follows {w : Watch} {g : Gate} {opened : List Region} {calls : List Call}
    (hactive : w.thread.active = true) (h : Follows w g) (hlength : w.since.length = opened.length)
    (hnested : Nested opened calls) : w.Gates calls ↔ Regular g calls := by
  induction calls generalizing w g opened with
  | nil => exact throughout_nil.trans ⟨fun _ => rfl, fun _ => h.counts⟩
  | cons c calls ih =>
    rw [Watch.Gates, throughout_cons, regular_cons]
    have hopen : c.closes.isSome → w.since ≠ [] := by
      intro hpop hnil
      rcases c.cases with ⟨_, -, hcloses, -⟩ | ⟨_, hopens, hcloses, -⟩ | ⟨_, -, hcloses, -⟩
      · rw [hcloses] at hpop
        cases hpop
      · obtain ⟨hhead, -⟩ := (nested_cons_of_closes hopens hcloses).mp hnested
        rw [hnil, List.length_nil] at hlength
        rw [List.length_eq_zero_iff.mp hlength.symm] at hhead
        cases hhead
      · rw [hcloses] at hpop
        cases hpop
    have hrest : ∃ opened', (w.call c).since.length = opened'.length ∧ Nested opened' calls := by
      rcases c.cases with ⟨region, hopens, -, -⟩ | ⟨region, hopens, hcloses, -⟩ |
        ⟨on, hopens, hcloses, hsetting⟩
      · refine ⟨region :: opened, ?_, (nested_cons_of_opens hopens).mp hnested⟩
        rw [since_of_opens hopens, List.length_cons, hlength]
        rfl
      · refine ⟨opened.tail, ?_, ((nested_cons_of_closes hopens hcloses).mp hnested).2⟩
        rw [since_of_closes hopens hcloses, List.length_tail, List.length_tail, hlength]
      · refine ⟨opened, ?_, (nested_cons_of_neither hopens hcloses).mp hnested⟩
        rw [since_of_setting hopens hcloses hsetting]
        split
        · rw [List.length_map, hlength]
        · exact hlength
    obtain ⟨opened', hlength', hnested'⟩ := hrest
    have hactive' : (w.call c).thread.active = true := (w.thread.active_call c).trans hactive
    cases hstep : g.step c with
    | none =>
      refine ⟨fun ⟨_, _, hgates⟩ => ?_, fun ⟨g', hg', _⟩ => ?_⟩
      · exact absurd hgates.first (not_counts_of_step hactive h hstep)
      · cases hg'
    | some g' =>
      obtain ⟨hfollows, hreenables⟩ := follows_step hactive h hopen hstep
      have hiff := ih hactive' hfollows hlength' hnested'
      refine ⟨fun ⟨_, _, hgates⟩ => ⟨g', rfl, hiff.mp hgates⟩, fun ⟨g'', hg'', hregular⟩ => ?_⟩
      cases hg''
      exact ⟨h.counts, hreenables, hiff.mpr hregular⟩

/-- The gate of a new thread works exactly on the runs in which no category region is popped
while it is off, and in which it is only stopped again after a start that left no region. -/
theorem gates_iff_regular (enabled : Bool) {calls : List Call} (h : Nested [] calls) :
    Watch.Gates ⟨Thread.start enabled, []⟩ calls ↔ Regular (Gate.start enabled) calls := by
  refine gates_iff_of_follows rfl ?_ rfl h
  cases enabled with
  | true => exact ⟨rfl, fun _ => rfl, fun _ => rfl⟩
  | false => exact ⟨rfl, rfl, 0, rfl⟩

theorem gates_iff_regular_stopTwice :
    Nested [] [.pushTrace "main", .stopThreadTrace, .pushTrace "loop", .popTrace "loop",
        .startThreadTrace, .stopThreadTrace, .popTrace "main"] ∧
      (Watch.Gates ⟨Thread.start true, []⟩ [.pushTrace "main", .stopThreadTrace,
          .pushTrace "loop", .popTrace "loop", .startThreadTrace, .stopThreadTrace,
          .popTrace "main"] ↔
        Regular (Gate.start true) [.pushTrace "main", .stopThreadTrace, .pushTrace "loop",
          .popTrace "loop", .startThreadTrace, .stopThreadTrace, .popTrace "main"]) :=
  ⟨by decide, gates_iff_regular true (by decide)⟩

/-- The pop of a suppressed category region adds to the count. -/
theorem not_gates_categoryPop :
    Nested [] [.stopThreadTrace, .pushCategoryRegion 0 "loop" [],
        .popCategoryRegion 0 "loop" []] ∧
      ¬Watch.Gates ⟨Thread.start true, []⟩ [.stopThreadTrace, .pushCategoryRegion 0 "loop" [],
        .popCategoryRegion 0 "loop" []] := by
  refine ⟨by decide, fun h => ?_⟩
  have hcount := h.states _ (List.prefix_refl _) rfl
  exact absurd hcount (by decide)

end Dl
end Rocprofsys
