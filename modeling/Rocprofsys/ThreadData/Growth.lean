import Rocprofsys.Base.Run
import Rocprofsys.Container.StableVectorRefinement

namespace Rocprofsys
namespace ThreadData

open Base
open Container

/-! ## Per-thread containers -/

/-- `max_supported_threads`, small enough for an array of so many elements. -/
structure MaxThreads where
  count : Nat
  pos : 0 < count
  fits : count < 9223372036854775808

instance (M : MaxThreads) : NeZero M.count := ⟨M.pos.ne'⟩

/-- `thread_data` of a pointer holds its elements itself, `thread_data` of `optional` and
`identity` is reached through a pointer, and `construct` keeps a vector of flags. -/
inductive Kind where
  | value
  | pointer
  | constructed
  deriving DecidableEq, Repr

/-- The base class has registered the callback, the instance pointer has been set, the
instance can be used. -/
inductive Stage where
  | constructing
  | assigned
  | ready
  deriving DecidableEq, Repr

structure Entry (α : Type) (M : MaxThreads) where
  kind : Kind
  stage : Stage
  data : StableVector α M.count

section Entry

variable {α : Type} {M : MaxThreads}

/-- `_v->reserve(_v->capacity() + 1); _v->resize(_v->capacity())`. -/
def growVector (init : α) (v : StableVector α M.count) : StableVector α M.count :=
  let v := v.reserve (UInt64.ofNat (v.capacity + 1))
  v.step (.resize (UInt64.ofNat v.capacity) init)

/-- The callback in `grow_functors()`, called with `_tid + 1`. -/
def Entry.grow (init : α) (tid : Int64) (e : Entry α M) : Entry α M :=
  match e.kind, e.stage with
  | .constructed, _ =>
    if (e.data.size : Int) ≤ tid.toInt + 1 then { e with data := growVector init e.data } else e
  | _, .constructing => e
  | _, _ =>
    if (e.data.capacity : Int) < tid.toInt + 1 + 1 then { e with data := growVector init e.data }
    else e

/-- `array_type(MaxThreads)`. -/
def ofCount (init : α) : StableVector α M.count :=
  StableVector.empty.run (List.replicate M.count (.emplaceBack init))

/-- `if(_ref->size() < MaxThreads) _ref->resize(MaxThreads)`. -/
def resizeToMax (init : α) (v : StableVector α M.count) : StableVector α M.count :=
  if v.size < M.count then v.step (.resize (UInt64.ofNat M.count) init) else v

/-- A container after its first use. -/
def fresh (init : α) : Kind → StableVector α M.count
  | .value => ofCount init
  | _ => resizeToMax init .empty

end Entry

/-! ## grow_data -/

/-- The loop over the callbacks: the next one, and where the loop ends. -/
structure Growth where
  tid : Int64
  next : Nat
  stop : Nat
  deriving DecidableEq

structure State (α : Type) (M : MaxThreads) where
  peak : Int
  entries : List (Entry α M)
  growing : Option Growth
  returned : List Int64

section GrowData

variable {α : Type} {M : MaxThreads}

/-- `grow_data` without any other thread. -/
def growData (init : α) (s : State α M) (tid : Int64) : State α M × Int :=
  if s.peak ≤ tid.toInt then
    ({ s with peak := s.peak + M.count, entries := s.entries.map (Entry.grow init tid),
              returned := tid :: s.returned }, s.peak + M.count)
  else ({ s with returned := tid :: s.returned }, s.peak)

/-- Before the first use of any container. -/
def initial : State α M where
  peak := M.count
  entries := []
  growing := none
  returned := []

inductive Call where
  | create (kind : Kind)
  | grow (tid : Int64)

/-- The first use of a container, or `grow_data`, without any other thread. -/
def call (init : α) (s : State α M) : Call → State α M
  | .create kind => { s with entries := s.entries ++ [⟨kind, .ready, fresh init kind⟩] }
  | .grow tid => (growData init s tid).1

def calls (init : α) (s : State α M) (cs : List Call) : State α M := cs.foldl (call init) s

/-! ## Creation and growth interleaved -/

inductive Event where
  | register (kind : Kind)
  | assign (i : Nat)
  | finish (i : Nat)
  | returnEarly (tid : Int64)
  | beginGrow (tid : Int64)
  | growNext
  | endGrow

def finished (init : α) (e : Entry α M) : Option (Entry α M) :=
  match e.kind, e.stage with
  | .value, .constructing => some { e with stage := .ready, data := ofCount init }
  | .pointer, .assigned => some { e with stage := .ready, data := resizeToMax init e.data }
  | _, _ => none

/-- A step of some thread. The lock is held from `beginGrow` to `endGrow`; the loop over
the callbacks ends where the registry ended when it began, and waits for a static
instance under construction. -/
def step (init : α) (s : State α M) : Event → Option (State α M)
  | .register .constructed =>
    some { s with entries := s.entries ++ [⟨.constructed, .ready, resizeToMax init .empty⟩] }
  | .register kind => some { s with entries := s.entries ++ [⟨kind, .constructing, .empty⟩] }
  | .assign i =>
    match s.entries[i]? with
    | some ⟨.pointer, .constructing, data⟩ =>
      some { s with entries := s.entries.set i ⟨.pointer, .assigned, data⟩ }
    | _ => none
  | .finish i =>
    (s.entries[i]?.bind (finished init)).map fun e => { s with entries := s.entries.set i e }
  | .returnEarly tid =>
    if tid.toInt < s.peak then some { s with returned := tid :: s.returned } else none
  | .beginGrow tid =>
    if s.growing = none ∧ s.peak ≤ tid.toInt then
      some { s with growing := some ⟨tid, 0, s.entries.length⟩ }
    else none
  | .growNext =>
    match s.growing with
    | some g =>
      match s.entries[g.next]? with
      | some e =>
        if g.next < g.stop ∧ ¬(e.kind = .value ∧ e.stage = .constructing) then
          some { s with entries := s.entries.set g.next (e.grow init g.tid),
                        growing := some { g with next := g.next + 1 } }
        else none
      | none => none
    | none => none
  | .endGrow =>
    match s.growing with
    | some g =>
      if g.next = g.stop then
        some { s with peak := s.peak + M.count, growing := none, returned := g.tid :: s.returned }
      else none
    | none => none

/-- No container is registered once the first growth began, a growth is for a thread within
one chunk of the peak, and a callback finds the creation of its container finished. -/
def Allows (s : State α M) : Event → Prop
  | .register _ => s.peak = M.count ∧ s.growing = none
  | .beginGrow tid => tid.toInt < s.peak + M.count
  | .growNext => ∀ g ∈ s.growing, ∀ e ∈ s.entries[g.next]?, e.stage = .ready
  | _ => True

instance (s : State α M) (e : Event) : Decidable (Allows s e) :=
  match e with
  | .register _ => inferInstanceAs (Decidable (s.peak = M.count ∧ s.growing = none))
  | .assign _ => isTrue trivial
  | .finish _ => isTrue trivial
  | .returnEarly _ => isTrue trivial
  | .beginGrow tid => inferInstanceAs (Decidable (tid.toInt < s.peak + M.count))
  | .growNext =>
    inferInstanceAs (Decidable (∀ g ∈ s.growing, ∀ e ∈ s.entries[g.next]?, e.stage = .ready))
  | .endGrow => isTrue trivial

/-- Every container in use covers every thread for which `grow_data` has returned. -/
def Covered (s : State α M) : Prop :=
  ∀ e ∈ s.entries, e.stage = .ready → ∀ tid ∈ s.returned, tid.toInt < e.data.size

end GrowData

end ThreadData
end Rocprofsys
