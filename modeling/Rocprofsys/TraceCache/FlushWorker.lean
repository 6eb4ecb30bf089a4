import Rocprofsys.Base.Run
import Rocprofsys.TraceCache.ConcurrentStore
import Rocprofsys.TraceCache.ReserveBounds

namespace Rocprofsys
namespace TraceCache

open Base

/-! ## The flush worker

One thread starts and shuts the storage down, the thread of the flush worker
flushes it, and any number of threads store into it.  The flags of
`worker_synchronization_t` are atomic; what a thread does between two accesses
to shared data is one step.  A store tests `is_running` in a step of its own, in
front of the two steps it has otherwise.  A file that cannot be opened, or that
takes no more bytes, is left out. -/

namespace FlushWorker

/-- Where the worker's thread is. -/
inductive WorkerPoint where
  | checking
  | flushing (force : Bool)
  | writing (force : Bool)
  | testing
  | dozing
  | sleeping
  | closing
  | finishing
  | notifying
  | exited
  deriving DecidableEq

/-- Where `flush_worker_t::stop` is, if it is called.  `terminated` is the end of
the process, by the destructor of a thread that was not joined. -/
inductive StopPoint where
  | outside
  | signalled (currentPid : Int)
  | testing
  | dozing
  | sleeping
  | joining
  | terminated
  deriving DecidableEq

/-- A notification wakes a thread that sleeps, and is lost on any other. -/
def WorkerPoint.wake : WorkerPoint → WorkerPoint
  | .sleeping => .testing
  | point => point

def StopPoint.wake : StopPoint → StopPoint
  | .sleeping => .testing
  | point => point

/-- The storage with its worker and its callers. -/
structure State where
  system : System
  admitted : Nat → Option Record
  exitFinished : Bool
  isOpen : Bool
  thread : Option WorkerPoint
  stopper : StopPoint

inductive Action where
  | enter (writer : Nat) (r : Record)
  | reserve (writer : Nat)
  | serialize (writer : Nat)
  | start (currentPid : Int)
  | shutdown (currentPid : Int)
  | work
  | timeOut
  | stop
  | wakeWorker
  | wakeStopper

/-- The steps that the worker and `stop` take by themselves. -/
def Action.isOwn : Action → Bool
  | .work | .timeOut | .stop => true
  | _ => false

namespace State

def initial : State where
  system := { System.start 0 with storage := .constructed 0 }
  admitted := fun _ => none
  exitFinished := false
  isOpen := false
  thread := none
  stopper := .outside

def isRunning (s : State) : Bool := s.system.storage.isRunning

def setRunning (s : State) (isRunning : Bool) : State :=
  { s with system.storage.isRunning := isRunning }

/-- `start`.  Opening the file empties it. -/
def start (s : State) (currentPid : Int) : State :=
  if s.isRunning then s
  else if s.thread.isSome then { s with stopper := .terminated }
  else
    { s with
      system.storage.isRunning := true
      system.storage.originPid := currentPid
      system.outputs := []
      isOpen := true
      thread := some .checking }

/-- `shutdown`, up to the point where `stop` has cleared `is_running`. -/
def shutdown (s : State) (currentPid : Int) : State :=
  if s.isRunning && s.thread.isSome then
    { s.setRunning false with stopper := .signalled currentPid }
  else s

/-- Behind a flush: the wait of the loop, or the end. -/
def afterFlush (force : Bool) : WorkerPoint := if force then .closing else .testing

/-- The next step of the worker's thread. -/
def work (s : State) : WorkerPoint → Option State
  | .checking => some { s with thread := some (.flushing !s.isRunning) }
  | .flushing force =>
    let system := s.system.snapshot force
    some { s with
      system := system
      thread := some (if system.flushing.isSome then .writing force else afterFlush force) }
  | .writing force =>
    s.system.flushing.map fun snap =>
      { s with system := s.system.write snap, thread := some (afterFlush force) }
  | .testing => some { s with thread := some (if s.isRunning then .dozing else .checking) }
  | .dozing => some { s with thread := some .sleeping }
  | .sleeping => none
  | .closing => some { s with isOpen := false, thread := some .finishing }
  | .finishing => some { s with exitFinished := true, thread := some .notifying }
  | .notifying => some { s with thread := some .exited, stopper := s.stopper.wake }
  | .exited => none

/-- The next step of `stop`. -/
def stop (s : State) : Option State :=
  match s.stopper with
  | .outside => none
  | .signalled currentPid =>
    some { s with
      thread := s.thread.map WorkerPoint.wake
      stopper := if currentPid = s.system.storage.originPid then .testing else .outside }
  | .testing => some { s with stopper := if s.exitFinished then .joining else .dozing }
  | .dozing => some { s with stopper := .sleeping }
  | .sleeping => none
  | .joining =>
    if s.thread = some .exited then some { s with thread := none, stopper := .outside } else none
  | .terminated => none

end State

def step (s : State) : Action → Option State
  | .enter writer r =>
    if s.isRunning && (s.admitted writer).isNone && (s.system.tickets writer).isNone then
      some { s with admitted := Function.update s.admitted writer (some r) }
    else none
  | .reserve writer =>
    (s.admitted writer).map fun r =>
      { s with
        system := s.system.reserve writer r
        admitted := Function.update s.admitted writer none }
  | .serialize writer =>
    (s.system.tickets writer).map fun t => { s with system := s.system.serialize writer t }
  | .start currentPid => if s.stopper = .outside then some (s.start currentPid) else none
  | .shutdown currentPid => if s.stopper = .outside then some (s.shutdown currentPid) else none
  | .work => s.thread.bind s.work
  | .timeOut =>
    if s.thread = some .sleeping then some { s with thread := some .checking } else none
  | .stop => s.stop
  | .wakeWorker =>
    if s.thread = some .sleeping then some { s with thread := some .testing } else none
  | .wakeStopper => if s.stopper = .sleeping then some { s with stopper := .testing } else none

end FlushWorker
end TraceCache
end Rocprofsys
