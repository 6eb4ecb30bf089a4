import Mathlib.Algebra.Group.Basic
import Rocprofsys.Base.Run
import Rocprofsys.Base.Tally
import Rocprofsys.Causal.ProgressBundles

namespace Rocprofsys
namespace Causal

open Base

/-! ## progress_point -/

@[ext] structure ProgressPoint where
  delta : Int
  arrival : Int
  departure : Int
  deriving DecidableEq, Repr

namespace ProgressPoint

def start (p : ProgressPoint) : ProgressPoint := { p with arrival := p.arrival + 1 }

def stop (p : ProgressPoint) : ProgressPoint := { p with departure := p.departure + 1 }

def mark (p : ProgressPoint) : ProgressPoint := { p with delta := p.delta + 1 }

instance : Zero ProgressPoint := ⟨⟨0, 0, 0⟩⟩

instance : Add ProgressPoint :=
  ⟨fun p q => ⟨p.delta + q.delta, p.arrival + q.arrival, p.departure + q.departure⟩⟩

instance : Sub ProgressPoint :=
  ⟨fun p q => ⟨p.delta - q.delta, p.arrival - q.arrival, p.departure - q.departure⟩⟩

instance : Neg ProgressPoint := ⟨fun p => ⟨-p.delta, -p.arrival, -p.departure⟩⟩

instance : AddCommGroup ProgressPoint where
  add_assoc p q r := ProgressPoint.ext (add_assoc _ _ _) (add_assoc _ _ _) (add_assoc _ _ _)
  zero_add p := ProgressPoint.ext (zero_add _) (zero_add _) (zero_add _)
  add_zero p := ProgressPoint.ext (add_zero _) (add_zero _) (add_zero _)
  add_comm p q := ProgressPoint.ext (add_comm _ _) (add_comm _ _) (add_comm _ _)
  sub_eq_add_neg p q :=
    ProgressPoint.ext (sub_eq_add_neg _ _) (sub_eq_add_neg _ _) (sub_eq_add_neg _ _)
  neg_add_cancel p :=
    ProgressPoint.ext (neg_add_cancel _) (neg_add_cancel _) (neg_add_cancel _)
  nsmul := nsmulRec
  zsmul := zsmulRec

def isThroughputPoint (p : ProgressPoint) : Bool := p.delta != 0

def isLatencyPoint (p : ProgressPoint) : Bool := p.arrival != 0 || p.departure != 0

def getArrival (p : ProgressPoint) : Int :=
  if !p.isLatencyPoint then p.arrival
  else if p.arrival ≥ p.departure then p.arrival + 1
  else p.arrival

def getLatencyDelta (p : ProgressPoint) : Int := p.getArrival - p.departure

def getLaps (p : ProgressPoint) : Int := max p.delta p.getLatencyDelta

end ProgressPoint

abbrev ProgressMap := Tally UInt64 ProgressPoint

/-- The points of all threads together, and the maps left behind. -/
def getProgressPoints (maps : List ProgressMap) : ProgressMap × List ProgressMap :=
  (Tally.sum maps, maps.map fun m => m.setAll 0)

/-! ## The component of a bundle -/

inductive Operation where
  | push
  | start
  | mark
  | stop
  | pop
  deriving DecidableEq, Repr

/-- What a bundle of timemory does with a call, by the calls it had before, last first. -/
structure ComponentBundle where
  passes : List Operation → Operation → Bool
  /-- Neither running nor invalid. -/
  settled : List Operation → Bool

/-- The calls are passed on once; a bundle popped passes no other stop or pop on. -/
structure ComponentBundle.Lawful (B : ComponentBundle) : Prop where
  push : B.passes [] .push = true
  start : B.passes [.push] .start = true
  mark : B.passes [.push] .mark = true
  stop : B.passes [.start, .push] .stop = true
  pop_marked : B.passes [.mark, .push] .pop = true ∧ B.settled [.mark, .push] = true
  pop_stopped :
    B.passes [.stop, .start, .push] .pop = true ∧ B.settled [.stop, .start, .push] = true
  popped : ∀ later op, (∀ k ∈ op :: later, k = .stop ∨ k = .pop) →
    B.passes (later ++ [.pop, .stop, .start, .push]) op = false

structure Instance where
  calls : List Operation
  point : ProgressPoint
  /-- The entry of the progress map. -/
  entry : Option UInt64
  deriving DecidableEq, Repr

inductive Record where
  | mark (hash : UInt64)
  | start (hash : UInt64)
  | stop (hash : UInt64)
  deriving DecidableEq, Repr

structure Thread where
  cache : BundleCache
  instances : AList fun _ : Bundle => Instance
  points : ProgressMap

namespace Thread

def empty : Thread := ⟨.empty, ∅, ∅⟩

variable (B : ComponentBundle) (hash : String → UInt64)

/-- `push_node` gives a new entry of the map a zero point. -/
def pushNode (t : Thread) (b : Bundle) (x : Instance) : Thread :=
  { t with
    points := t.points.update (hash b.name) id
    instances := t.instances.insert b { x with entry := some (hash b.name) } }

def popNode (t : Thread) (b : Bundle) (settled : Bool) (x : Instance) : Thread :=
  { t with
    points := match x.entry with
      | some h => if settled then t.points.update h fun p => p + x.point else t.points
      | none => t.points
    instances := t.instances.insert b x }

/-- The call a bundle passes on, and what its component records. -/
def component (t : Thread) (b : Bundle) (op : Operation) (settled : Bool) (x : Instance) :
    Thread × List Record :=
  match op with
  | .push => (t.pushNode hash b x, [])
  | .start =>
    ({ t with instances := t.instances.insert b { x with point := x.point.start } },
      [.start (hash b.name)])
  | .mark =>
    ({ t with instances := t.instances.insert b { x with point := x.point.mark } },
      [.mark (hash b.name)])
  | .stop =>
    ({ t with instances := t.instances.insert b { x with point := x.point.stop } },
      [.stop (hash b.name)])
  | .pop => (t.popNode b settled x, [])

def deliver (t : Thread) (b : Bundle) (op : Operation) : Thread × List Record :=
  match t.instances.lookup b with
  | none => (t, [])
  | some x =>
    let called := { x with calls := op :: x.calls }
    if B.passes x.calls op then t.component hash b op (B.settled x.calls) called
    else ({ t with instances := t.instances.insert b called }, [])

def effect (t : Thread) : Effect → Thread × List Record
  | .construct b => ({ t with instances := t.instances.insert b ⟨[], 0, none⟩ }, [])
  | .push b => t.deliver B hash b .push
  | .start b => t.deliver B hash b .start
  | .mark b => t.deliver B hash b .mark
  | .stop b => t.deliver B hash b .stop
  | .pop b => t.deliver B hash b .pop
  | .destroy b => ({ t with instances := t.instances.erase b }, [])

def effects (t : Thread) : List Effect → Thread × List Record
  | [] => (t, [])
  | e :: es =>
    let (t, first) := t.effect B hash e
    let (t, rest) := effects t es
    (t, first ++ rest)

/-- A progress point function called on this thread. -/
def call (endToEnd : Bool) (t : Thread) (k : Call) : Thread × List Record :=
  let (cache, es) := Causal.call hash endToEnd t.cache k
  let (t, recorded) := t.effects B hash es
  ({ t with cache }, recorded)

end Thread

/-! ## Experiments -/

/-- A finished experiment, with what was recorded since the snapshot before it and what until
its own end. -/
structure Experiment where
  initProgress : ProgressMap
  finiProgress : ProgressMap
  before : List Record
  within : List Record

namespace Experiment

/-- `ppts = fini_progress`, then `ppts[k] -= init_progress[k]`. -/
def savedPoints (x : Experiment) : ProgressMap :=
  Tally.combine (· - ·) x.finiProgress x.initProgress

/-- The points whose laps scale the time of the next experiment. -/
def scalingPoints (x : Experiment) : List (UInt64 × ProgressPoint) :=
  x.finiProgress.entries.map fun e => (e.1, e.2 - x.initProgress.get e.1)

end Experiment

inductive Line where
  | throughputPoint (hash : UInt64) (delta : Int)
  | latencyPoint (hash : UInt64) (arrivals departures difference : Int)
  deriving DecidableEq, Repr

/-- The lines of one point. -/
def pointLines (endToEnd : Bool) (h : UInt64) (p : ProgressPoint) : List Line :=
  if endToEnd && decide (p.getLaps > 1) then []
  else
    (if p.isThroughputPoint && p.delta != 0 then [.throughputPoint h p.delta] else []) ++
      if p.isLatencyPoint && !endToEnd then
        [.latencyPoint h p.getArrival p.departure (max p.getLatencyDelta 1)]
      else []

/-- End to end, the first throughput point is the last line. -/
def progressLines (endToEnd : Bool) : List (Sigma fun _ : UInt64 => ProgressPoint) → List Line
  | [] => []
  | e :: es =>
    let lines := pointLines endToEnd e.1 e.2
    if endToEnd && !lines.isEmpty then lines else lines ++ progressLines endToEnd es

/-- An experiment under way: its snapshot, and what was recorded before. -/
structure Started where
  initProgress : ProgressMap
  before : List Record

structure State where
  threads : List Thread
  /-- Since the last snapshot. -/
  recorded : List Record
  current : Option Started
  finished : List Experiment

inductive Event where
  | call (thread : Nat) (k : Call)
  | start (finalized : Bool)
  | stop
  deriving DecidableEq, Repr

namespace State

def init (threads : Nat) : State := ⟨List.replicate threads .empty, [], none, []⟩

/-- `get_progress_points` over the threads. -/
def snapshot (s : State) : ProgressMap × State :=
  ((getProgressPoints (s.threads.map Thread.points)).1,
    { s with
      threads := s.threads.map fun t => { t with points := t.points.setAll 0 }
      recorded := [] })

end State

/-- Experiments follow one another; a start that finds the state finalized has taken its
snapshot already. -/
def step (B : ComponentBundle) (hash : String → UInt64) (endToEnd : Bool) (s : State) :
    Event → Option State
  | .call i k =>
    match s.threads[i]? with
    | none => none
    | some t =>
      let (t, recorded) := t.call B hash endToEnd k
      some { s with threads := s.threads.set i t, recorded := s.recorded ++ recorded }
  | .start finalized =>
    match s.current with
    | some _ => none
    | none =>
      let (initProgress, taken) := s.snapshot
      some { taken with current := if finalized then none else some ⟨initProgress, s.recorded⟩ }
  | .stop =>
    match s.current with
    | none => none
    | some x =>
      let (finiProgress, taken) := s.snapshot
      some { taken with
        current := none
        finished := s.finished ++ [⟨x.initProgress, finiProgress, x.before, s.recorded⟩] }

/-! ## Counts -/

/-- What the records amount to. -/
def counted (records : List Record) (h : UInt64) : ProgressPoint :=
  ⟨records.count (.mark h), records.count (.start h), records.count (.stop h)⟩

/-- The differences of an experiment are the marks, starts and stops of its window. -/
def Experiment.Charged (x : Experiment) : Prop :=
  (∀ h, x.savedPoints.get h = counted x.within h) ∧
    ∀ e ∈ x.scalingPoints, e.2 = counted x.within e.1

/-- Nothing was marked or stopped before, and every point is stopped as often as started. -/
def Experiment.Quiet (x : Experiment) : Prop :=
  ∀ h, Record.mark h ∉ x.before ∧ Record.stop h ∉ x.before ∧
    x.within.count (.start h) = x.within.count (.stop h)

end Causal
end Rocprofsys
