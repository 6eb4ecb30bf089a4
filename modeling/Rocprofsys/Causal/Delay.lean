import Rocprofsys.Base.Run

namespace Rocprofsys
namespace Causal
namespace Delay

/-! ## Local and global delays -/

/-- The functions of `delay`, and what they have read so far. `delay::preblock` is
`delay::credit`; `block` is the wrapper around a blocking call, with its read in front of the
call and `delay::postblock` behind it. -/
inductive Stage where
  | init
  | constructing (value : Int)
  | process
  | active
  | compared (readGlobal : Int)
  | less
  | lessLocal (readLocal : Int)
  | add (readLocal readGlobal : Int)
  | notLess
  | comparedAgain (readGlobal : Int)
  | greater
  | inactive
  | assign (readGlobal : Int)
  | credit
  | crediting (readGlobal : Int)
  | creditBy (diff : Int)
  | block
  | blocked (preblockGlobal : Int)
  | postblock (diff : Int)
  | sync
  | fill (value : Int) (next : Nat)
  deriving DecidableEq, Repr

/-- A call under way on a thread. A signal handler is one more call of its thread. -/
structure Activity where
  thread : Nat
  stage : Stage
  deriving DecidableEq, Repr

/-- `reached` is the largest local delay that any thread has had; it steers nothing. -/
structure State where
  global : Int
  locals : List Int
  active : Bool
  activities : List Activity
  reached : Int

def initial (threads : Nat) : State := ⟨0, List.replicate threads 0, false, [], 0⟩

namespace State

def setLocal (s : State) (t : Nat) (v : Int) : State :=
  { s with locals := s.locals.set t v, reached := max s.reached v }

/-- The next atomic step of a call on thread `t`, whose local delay is `own`; `elapsed` is
how long a sleep took. -/
def advance (s : State) (t : Nat) (own : Int) (elapsed : Nat) : Stage → State × Option Stage
  | .init => (s, some (.constructing s.global))
  | .constructing value => (s.setLocal t value, none)
  | .process => (s, some (if s.active then .active else .inactive))
  | .active => (s, some (.compared s.global))
  | .compared readGlobal => (s, some (if readGlobal < own then .less else .notLess))
  | .less => (s, some (.lessLocal own))
  | .lessLocal readLocal => (s, some (.add readLocal s.global))
  | .add readLocal readGlobal => ({ s with global := s.global + (readLocal - readGlobal) }, none)
  | .notLess => (s, some (.comparedAgain s.global))
  | .comparedAgain readGlobal => (s, if own < readGlobal then some .greater else none)
  | .greater => (s.setLocal t (own + elapsed), none)
  | .inactive => (s, some (.assign s.global))
  | .assign readGlobal => (s.setLocal t readGlobal, none)
  | .credit => (s, some (.crediting s.global))
  | .crediting readGlobal =>
    (s, if 0 < readGlobal - own then some (.creditBy (readGlobal - own)) else none)
  | .creditBy diff => (s.setLocal t (own + diff), none)
  | .block => (s, some (.blocked s.global))
  | .blocked preblockGlobal => (s, some (.postblock (s.global - preblockGlobal)))
  | .postblock diff => (s.setLocal t (own + diff), none)
  | .sync => (s, some (.fill s.global 0))
  | .fill value next =>
    if next < s.locals.length then (s.setLocal next value, some (.fill value (next + 1)))
    else (s, none)

end State

inductive Call where
  | init
  | process
  | credit
  | block
  | sync
  deriving DecidableEq, Repr

def Call.stage : Call → Stage
  | .init => .init
  | .process => .process
  | .credit => .credit
  | .block => .block
  | .sync => .sync

inductive Event where
  | setActive (active : Bool)
  | inherit (child parent : Nat)
  | selected (t : Nat) (sampleDelay : Nat)
  | call (t : Nat) (c : Call)
  | advance (i : Nat) (elapsed : Nat)
  | noPostblock (i : Nat)

/-- The calls after one of them has made a step. -/
def resume (activities : List Activity) (i : Nat) (thread : Nat) : Option Stage → List Activity
  | none => activities.eraseIdx i
  | some stage => activities.set i ⟨thread, stage⟩

def step (s : State) : Event → Option State
  | .setActive active => some { s with active := active }
  | .inherit child parent => s.locals[parent]?.map fun v => s.setLocal child v
  | .selected t sampleDelay =>
    if s.active then s.locals[t]?.map fun own => s.setLocal t (own + sampleDelay) else none
  | .call t c => some { s with activities := s.activities ++ [⟨t, c.stage⟩] }
  | .advance i elapsed =>
    s.activities[i]?.bind fun a => s.locals[a.thread]?.map fun own =>
      let (s', stage) := s.advance a.thread own elapsed a.stage
      { s' with activities := resume s.activities i a.thread stage }
  | .noPostblock i =>
    match s.activities[i]? with
    | some ⟨_, .blocked _⟩ => some { s with activities := s.activities.eraseIdx i }
    | _ => none

/-- The global delay read for a difference that is added next. -/
def Stage.readForAdd : Stage → Option Int
  | .add _ readGlobal => some readGlobal
  | _ => none

/-- Where `delay::process` adds its difference, the global delay has not grown since it was
read for the difference. -/
def Allows (s : State) : Event → Prop
  | .advance i _ =>
    ∀ readGlobal ∈ s.activities[i]?.bind fun a => a.stage.readForAdd, s.global ≤ readGlobal
  | _ => True

instance (s : State) (e : Event) : Decidable (Allows s e) :=
  match e with
  | .setActive _ => isTrue trivial
  | .inherit _ _ => isTrue trivial
  | .selected _ _ => isTrue trivial
  | .call _ _ => isTrue trivial
  | .advance i _ => inferInstanceAs (Decidable
      (∀ readGlobal ∈ s.activities[i]?.bind fun a => a.stage.readForAdd, s.global ≤ readGlobal))
  | .noPostblock _ => isTrue trivial

end Delay
end Causal
end Rocprofsys
