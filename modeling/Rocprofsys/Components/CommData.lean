import Rocprofsys.Base.Grouping
import Rocprofsys.Base.Interleaving
import Rocprofsys.Base.SignificantBits
import Mathlib.Logic.Function.Basic

namespace Rocprofsys
namespace Components
namespace CommData

open Base

/-! ## What an audited call does

`none` stands for a signed overflow, after which C++ promises nothing. -/

/-- `mpi_send` and `mpi_recv`. -/
inductive Track where
  | mpiSend
  | mpiRecv
  deriving DecidableEq, Repr

/-- A step on data that the threads share. -/
inductive Action where
  /-- The value of a counter track grows and is written under the lock, with its timestamp. -/
  | writePerfetto (track : Track) (bytes : ℕ)
  /-- The value of the cache grows under the lock, and the timestamp is taken. -/
  | growCache (track : Track) (bytes : ℕ)
  /-- The value is read again, outside of the lock, and stored with the timestamp. -/
  | storeSample (track : Track)
  | addTracker (name : String) (value : ℕ)
  deriving DecidableEq, Repr

/-- `get_use_perfetto`, `get_use_timemory` and whether the state is `Active`, when a call is
audited. -/
structure Session where
  usePerfetto : Bool
  useTimemory : Bool
  active : Bool
  deriving DecidableEq, Repr

/-- A product of `int`s that are not negative. -/
def intMul (a b : ℕ) : Option ℕ := if a * b < 2 ^ 31 then some (a * b) else none

def intAdd (a b : ℕ) : Option ℕ := if a + b < 2 ^ 31 then some (a + b) else none

def writePerfettoCounterTrack (s : Session) (track : Track) (val : ℕ) : List Action :=
  if s.usePerfetto && s.active then [.writePerfetto track val] else []

def cacheCommDataEvents (track : Track) (bytes : ℕ) : List Action :=
  [.growCache track bytes, .storeSample track]

def add (s : Session) (name : String) (value : ℕ) : List Action :=
  if s.active then [.addTracker name value] else []

/-- All overloads write their transfers to the tracks, then to the cache, and then add to the
trackers. -/
def record (s : Session) (transfers : List (Track × ℕ)) (trackers : List (String × ℕ)) :
    List Action :=
  transfers.flatMap (fun t => writePerfettoCounterTrack s t.1 t.2) ++
    transfers.flatMap (fun t => cacheCommDataEvents t.1 t.2) ++
      if s.useTimemory then trackers.flatMap (fun t => add s t.1 t.2) else []

/-- `JOIN('/', ..)` -/
def path (parts : List String) : String := String.intercalate "/" parts

/-- `JOIN('=', key, value)` -/
def setting (key : String) (value : ℤ) : String := String.intercalate "=" [key, toString value]

/-! ## The overloads of `audit` -/

/-- The overloads for messages between two processes. -/
def pointToPoint (track : Track) (s : Session) (name : String) (count size : ℕ) (dst tag : ℤ) :
    Option (List Action) :=
  if size = 0 then some []
  else (intMul count size).map fun bytes =>
    record s [(track, bytes)]
      [(name, bytes), (path [name, setting "dst" dst], bytes),
        (path [name, setting "dst" dst, setting "tag" tag], bytes)]

def auditSend := pointToPoint .mpiSend
def auditRecv := pointToPoint .mpiRecv
def auditIsend := pointToPoint .mpiSend
def auditIrecv := pointToPoint .mpiRecv

def auditBcast (s : Session) (name : String) (count size : ℕ) (root : ℤ) :
    Option (List Action) :=
  if size = 0 then some []
  else (intMul count size).map fun bytes =>
    record s [(.mpiSend, bytes)] [(name, bytes), (path [name, setting "root" root], bytes)]

def auditAllreduce (s : Session) (name : String) (count size : ℕ) : Option (List Action) :=
  if size = 0 then some []
  else (intMul count size).map fun bytes =>
    record s [(.mpiRecv, bytes), (.mpiSend, bytes)] [(name, bytes)]

/-- The overloads with a buffer to send and one to receive. -/
def twoBuffers (s : Session) (sendcount sendSize recvcount recvSize : ℕ)
    (trackers : ℕ → ℕ → ℕ → List (String × ℕ)) : Option (List Action) :=
  if sendSize = 0 ∨ recvSize = 0 then some []
  else do
    let sent ← intMul sendcount sendSize
    let received ← intMul recvcount recvSize
    -- only the trackers need the sum
    let both ← if s.useTimemory then intAdd sent received else some 0
    some (record s [(.mpiSend, sent), (.mpiRecv, received)] (trackers sent received both))

def auditSendrecv (s : Session) (name : String) (sendcount sendSize : ℕ) (dst sendtag : ℤ)
    (recvcount recvSize : ℕ) (src recvtag : ℤ) : Option (List Action) :=
  twoBuffers s sendcount sendSize recvcount recvSize fun sent received both =>
    [(name, both),
      (path [name, "send"], sent),
      -- `_c` is made for the destination, and `_b` added to again
      (path [name, "send"], sent),
      (path [name, "send", setting "tag" sendtag], sent),
      (path [name, setting "send" dst, setting "tag" sendtag], sent),
      (path [name, "recv"], received),
      (path [name, "recv"], received),
      (path [name, "recv", setting "tag" recvtag], received),
      (path [name, setting "recv" src, setting "tag" recvtag], received)]

/-- `MPI_Gather` and `MPI_Scatter` -/
def auditGather (s : Session) (name : String) (sendcount sendSize recvcount recvSize : ℕ)
    (root : ℤ) : Option (List Action) :=
  twoBuffers s sendcount sendSize recvcount recvSize fun sent received both =>
    [(name, both), (path [name, setting "root" root], both),
      (path [name, setting "root" root, "send"], sent),
      (path [name, setting "root" root, "recv"], received)]

def auditAlltoall (s : Session) (name : String) (sendcount sendSize recvcount recvSize : ℕ) :
    Option (List Action) :=
  twoBuffers s sendcount sendSize recvcount recvSize fun sent received both =>
    [(name, both), (path [name, "send"], sent), (path [name, "recv"], received)]

/-- What the overloads look at of a call. -/
inductive MpiCall where
  | send (count size : ℕ) (dst tag : ℤ)
  | recv (count size : ℕ) (dst tag : ℤ)
  | isend (count size : ℕ) (dst tag : ℤ)
  | irecv (count size : ℕ) (dst tag : ℤ)
  | bcast (count size : ℕ) (root : ℤ)
  | allreduce (count size : ℕ)
  | sendrecv (sendcount sendSize : ℕ) (dst sendtag : ℤ) (recvcount recvSize : ℕ)
      (src recvtag : ℤ)
  | gather (sendcount sendSize recvcount recvSize : ℕ) (root : ℤ)
  | alltoall (sendcount sendSize recvcount recvSize : ℕ)
  deriving DecidableEq, Repr

/-- The overload that a call is audited by. -/
def audit (s : Session) (toolId : String) : MpiCall → Option (List Action)
  | .send count size dst tag => auditSend s toolId count size dst tag
  | .recv count size dst tag => auditRecv s toolId count size dst tag
  | .isend count size dst tag => auditIsend s toolId count size dst tag
  | .irecv count size dst tag => auditIrecv s toolId count size dst tag
  | .bcast count size root => auditBcast s toolId count size root
  | .allreduce count size => auditAllreduce s toolId count size
  | .sendrecv sendcount sendSize dst sendtag recvcount recvSize src recvtag =>
    auditSendrecv s toolId sendcount sendSize dst sendtag recvcount recvSize src recvtag
  | .gather sendcount sendSize recvcount recvSize root =>
    auditGather s toolId sendcount sendSize recvcount recvSize root
  | .alltoall sendcount sendSize recvcount recvSize =>
    auditAlltoall s toolId sendcount sendSize recvcount recvSize

/-! ## Runs of several threads -/

/-- A call as a thread makes it. -/
structure Observed (τ : Type) where
  thread : τ
  session : Session
  toolId : String
  call : MpiCall
  deriving DecidableEq, Repr

variable {τ : Type}

def Observed.audit (c : Observed τ) : Option (List Action) := CommData.audit c.session c.toolId c.call

/-- An action, and the call it is of. -/
structure Step (τ : Type) where
  of : Observed τ
  action : Action
  deriving DecidableEq, Repr

/-- What the threads do in a sequence of calls. -/
def program (calls : List (Observed τ)) : List (Step τ) :=
  calls.flatMap fun c => (c.audit.getD []).map (Step.mk c)

/-- An order in which the threads can take their steps. -/
def IsRun [DecidableEq τ] (calls : List (Observed τ)) (run : List (Step τ)) : Prop :=
  Interleaves (fun step => step.of.thread) (program calls) run

/-- The static data of `write_perfetto_counter_track`, and the values in the order of their
timestamps. -/
structure CounterTrack where
  value : ℕ
  emitted : List ℕ
  deriving DecidableEq, Repr

def CounterTrack.write (t : CounterTrack) (bytes : ℕ) : CounterTrack :=
  let value := (t.value + bytes) % 2 ^ 64
  ⟨value, t.emitted ++ [value]⟩

/-- The static data of `cache_comm_data_events`, each thread's timestamp, and the samples. As
the clock is read under the lock, the `n`-th timestamp is `n`. -/
structure CacheTrack (τ : Type) where
  value : ℕ
  clock : ℕ
  now : τ → ℕ
  samples : List (ℕ × ℚ)

inductive CacheEvent where
  | grow (bytes : ℕ)
  | store
  deriving DecidableEq, Repr

def CacheTrack.step [DecidableEq τ] (t : CacheTrack τ) : τ × CacheEvent → CacheTrack τ
  | (thread, .grow bytes) =>
    { t with
      value := (t.value + bytes) % 2 ^ 64
      clock := t.clock + 1
      now := Function.update t.now thread (t.clock + 1) }
  | (thread, .store) => { t with samples := t.samples ++ [(t.now thread, nearestDouble t.value)] }

/-- What was added to the trackers is kept by name; how it is summed is left to `total`. -/
structure State (τ : Type) where
  perfetto : Track → CounterTrack
  cache : Track → CacheTrack τ
  stored : List (String × ℕ)

def State.initial : State τ where
  perfetto := fun _ => ⟨0, []⟩
  cache := fun _ => ⟨0, 0, fun _ => 0, []⟩
  stored := []

def State.step [DecidableEq τ] (s : State τ) (step : Step τ) : State τ :=
  match step.action with
  | .writePerfetto track bytes =>
    { s with perfetto := Function.update s.perfetto track ((s.perfetto track).write bytes) }
  | .growCache track bytes =>
    { s with
      cache := Function.update s.cache track
        ((s.cache track).step (step.of.thread, .grow bytes)) }
  | .storeSample track =>
    { s with cache := Function.update s.cache track ((s.cache track).step (step.of.thread, .store)) }
  | .addTracker name value => { s with stored := s.stored ++ [(name, value)] }

def final [DecidableEq τ] (run : List (Step τ)) : State τ := run.foldl State.step State.initial

/-- The nearest number with the 24 bits of a `float`, of sums far below the largest. -/
def toFloat (q : ℚ) : ℚ := roundDigits 2 24 q

/-- `std::plus<data_type>` -/
def floatAdd (a b : ℚ) : ℚ := toFloat (a + b)

/-- The floats that are summed under a name, from an empty tracker on. -/
def State.summands (s : State τ) (name : String) : List ℚ :=
  0 :: (group name s.stored).map fun value : ℕ => toFloat value

end CommData
end Components
end Rocprofsys
