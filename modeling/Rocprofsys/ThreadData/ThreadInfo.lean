import Rocprofsys.ThreadData.Growth

namespace Rocprofsys
namespace ThreadData

open Container

/-! ## Identifiers -/

/-- `thread_index_data`, read from the calling thread when it is constructed. -/
structure ThreadIndexData where
  internalValue : Int64
  systemValue : Int64
  sequentValue : Int64
  pthreadValue : UInt64
  stlValue : UInt64
  deriving DecidableEq

/-- `thread_info` without the pointer to the causal count. -/
structure ThreadInfo where
  isOffset : Bool
  indexData : Option ThreadIndexData
  lifetime : UInt64 × UInt64
  deriving DecidableEq

/-- `thread_info{}`. -/
def ThreadInfo.default : ThreadInfo := ⟨false, none, (0, 0)⟩

inductive ThreadIdType where
  | internalTID
  | systemTID
  | sequentTID
  | pthreadID
  | stlThreadID
  deriving DecidableEq

inductive ThreadInfoError where
  | container (e : ContainerError)
  | runtimeError (what : String)
  deriving DecidableEq

/-! ## Containers of optional values -/

section Container

variable {β : Type} {M : MaxThreads}

/-- The `size_t` that the argument of `at` becomes. -/
def slotOf (tid : Int64) : Nat := tid.toUInt64.toNat

/-- `v->at(_tid)`. -/
def valueAt (v : StableVector (Option β) M.count) (tid : Int64) :
    Except ThreadInfoError (Option β) :=
  let i := slotOf tid
  if v.size ≤ i then .error (.container (v.outOfRange i)) else .ok (v.get i).join

/-- `v->at(_tid) = x`. -/
def assignAt (v : StableVector (Option β) M.count) (tid : Int64) (x : β) :
    Except ThreadInfoError (StableVector (Option β) M.count) :=
  match v.assign (slotOf tid) (some x) with
  | .error e => .error (.container e)
  | .ok v => .ok v

/-- What a loop over `*v` goes through. -/
def slots (v : StableVector (Option β) M.count) : List (Option β) :=
  (List.range v.size).map fun i => (v.get i).join

/-- The callback of the container in `grow_functors()`. -/
def grown (tid : Int64) (v : StableVector (Option β) M.count) : StableVector (Option β) M.count :=
  (Entry.grow none tid ⟨.pointer, .ready, v⟩).data

end Container

/-! ## The registry -/

/-- The two containers, which the first use of each creates, and the threads whose `_once`
is set. -/
structure Registry (M : MaxThreads) where
  peak : Int
  info : Option (StableVector (Option ThreadInfo) M.count)
  index : Option (StableVector (Option ThreadIndexData) M.count)
  once : List Int64

namespace Registry

variable {M : MaxThreads}

def initial : Registry M := ⟨M.count, none, none, []⟩

/-- `get_info_data()`. -/
def infoData (r : Registry M) : StableVector (Option ThreadInfo) M.count :=
  r.info.getD (fresh none .pointer)

/-- `get_index_data()`. -/
def indexData (r : Registry M) : StableVector (Option ThreadIndexData) M.count :=
  r.index.getD (fresh none .pointer)

/-- `grow_data`, for the two containers. -/
def growData (r : Registry M) (tid : Int64) : Registry M :=
  if r.peak ≤ tid.toInt then
    { r with peak := r.peak + M.count, info := r.info.map (grown tid),
             index := r.index.map (grown tid) }
  else r

/-- `init_index_data`, called by this thread. -/
def initIndexData (r : Registry M) (caller : ThreadIndexData) (tid : Int64) :
    Registry M × Except ThreadInfoError ThreadIndexData :=
  let r := { r with index := some r.indexData }
  match valueAt r.indexData tid with
  | .error e => (r, .error e)
  | .ok (some itr) => (r, .ok itr)
  | .ok none =>
    match assignAt r.indexData tid caller with
    | .error e => (r, .error e)
    | .ok index =>
      let r := { r with index := some index }
      if caller.internalValue ≠ tid then
        (r, .error (.runtimeError ("Error! thread_info::init_index_data was called for thread "
          ++ toString tid ++ " on thread " ++ toString caller.internalValue ++ "\n")))
      else (r, .ok caller)

/-- `thread_info::init` of this thread, which is offset or not, at this time. -/
def init (r : Registry M) (caller : ThreadIndexData) (isOffset : Bool) (now : UInt64) :
    Registry M × Except ThreadInfoError (Option ThreadInfo) :=
  let tid := caller.internalValue
  let r := { r with info := some r.infoData }
  if tid ∈ r.once then (r, valueAt r.infoData tid)
  else
    let r := { r with once := tid :: r.once }
    let r := r.growData tid
    match assignAt r.infoData tid { ThreadInfo.default with isOffset := isOffset } with
    | .error e => (r, .error e)
    | .ok info =>
      let r := { r with info := some info }
      match r.initIndexData caller tid with
      | (r, .error e) => (r, .error e)
      | (r, .ok data) =>
        match assignAt r.infoData tid ⟨isOffset, some data, (now, 0)⟩ with
        | .error e => (r, .error e)
        | .ok info => ({ r with info := some info }, valueAt info tid)

inductive Event where
  | init (caller : ThreadIndexData) (isOffset : Bool) (now : UInt64)
  | grow (tid : Int64)
  | get

/-- A registration, a growth for a thread that is about to be created, or the first use of
the containers by a lookup. -/
def step (r : Registry M) : Event → Registry M
  | .init caller isOffset now => (r.init caller isOffset now).1
  | .grow tid => r.growData tid
  | .get => { r with info := some r.infoData }

def run (events : List Event) : Registry M := events.foldl step initial

/-! ## thread_info::get -/

/-- The loops return the first entry with index data that pass their test. -/
def firstWith (r : Registry M) (test : ThreadIndexData → Bool) : Option ThreadInfo :=
  ((slots r.infoData).find? fun itr => itr.any fun info => info.indexData.any test).join

/-- `pthread_equal`: nonzero for equal handles. -/
def pthreadEqual (a b : UInt64) : Int := if a = b then 1 else 0

/-- `get(native_handle_t&&)`.  The exception behind the loop needs a value of
`unknown_thread`, which never has one. -/
def getNative (r : Registry M) (tid : UInt64) : Option ThreadInfo :=
  r.firstWith fun data => pthreadEqual data.pthreadValue tid == 0

/-- `get(std::thread::id)`. -/
def getStl (r : Registry M) (tid : UInt64) : Option ThreadInfo :=
  r.firstWith fun data => data.stlValue == tid

/-- `get(int64_t, ThreadIdType)`. -/
def getTyped (r : Registry M) (tid : Int64) :
    ThreadIdType → Except ThreadInfoError (Option ThreadInfo)
  | .internalTID => valueAt r.infoData tid
  | .systemTID => .ok (r.firstWith fun data => data.systemValue == tid)
  | .sequentTID => .ok (r.firstWith fun data => data.sequentValue == tid)
  | .pthreadID => .error (.runtimeError ("rocprof-sys does not support thread_info::get(int64_t, "
      ++ "ThreadIdType) with ThreadIdType::PthreadID"))
  | .stlThreadID =>
    .error (.runtimeError ("rocprof-sys does not support thread_info::get(int64_t, "
      ++ "ThreadIdType) with ThreadIdType::StlThreadID"))

end Registry
end ThreadData
end Rocprofsys
