import Rocprofsys.TraceCache.SampleRoundTrip

namespace Rocprofsys
namespace TraceCache

open Base

/-- `std::vector<uint8_t>::max_size()`. -/
def vectorMaxSize : Nat := 2 ^ 63 - 1

/-- The capacity `load` starts with. -/
def initialCapacity : Nat := 4096

/-- The process the parser runs in: the largest block its allocator grants, and
the memory behind the sample vector when so many bytes of the file are left. -/
structure Environment where
  limit : Nat
  beyond : Nat → Bytes
  initialCapacity_le : initialCapacity ≤ limit
  limit_le : limit ≤ vectorMaxSize

inductive Exception where
  | runtimeError (what : String)
  | lengthError (what : String)
  | badAlloc
  deriving DecidableEq, Repr

/-- How `load` ends.  After `overrun` the record's own bytes are left behind and
C++ says nothing about what follows. -/
inductive Outcome where
  | returned
  | threw (e : Exception)
  | overrun
  deriving DecidableEq, Repr

/-- A record handed to its `deserialize`, and how many bytes that consumed.
`none` is past everything mapped behind the vector. -/
structure Parsed where
  typeIdentifier : Nat
  sampleSize : Nat
  consumed : Option Nat
  deriving DecidableEq, Repr

def Parsed.Within (parsed : Parsed) : Prop := ∃ n, parsed.consumed = some n ∧ n ≤ parsed.sampleSize

instance (parsed : Parsed) : Decidable parsed.Within :=
  match h : parsed.consumed with
  | none => isFalse fun ⟨_, hn, _⟩ => by rw [h] at hn; cases hn
  | some n =>
    decidable_of_iff (n ≤ parsed.sampleSize)
      ⟨fun hle => ⟨n, h, hle⟩, fun ⟨m, hm, hle⟩ => by rw [h] at hm; cases hm; exact hle⟩

/-- What a call of `load` did. -/
structure Loaded where
  parsed : List Parsed
  delivered : List Sample
  outcome : Outcome
  deriving DecidableEq, Repr

namespace Loaded

def finish (outcome : Outcome) : Loaded := ⟨[], [], outcome⟩

def cons (parsed : Parsed) (v : Sample) (loaded : Loaded) : Loaded :=
  { loaded with parsed := parsed :: loaded.parsed, delivered := v :: loaded.delivered }

end Loaded

namespace TypeIdentifier

def all : List TypeIdentifier :=
  [.inTimeSample, .pmcEventWithSample, .region, .kernelDispatch, .memoryCopy, .memoryAlloc,
    .amdSmiSample, .cpuFreqSample, .backtraceRegionSample, .scratchMemory, .fragmentedSpace]

/-- The enumerator with a value, if there is one. -/
def ofValue (n : Nat) : Option TypeIdentifier := all.find? fun t => t.value == n

theorem ofValue_value (t : TypeIdentifier) : ofValue t.value = some t := by
  cases t <;> rfl

theorem value_injective {t u : TypeIdentifier} (h : t.value = u.value) : t = u := by
  have ht := ofValue_value t
  rw [h, ofValue_value] at ht
  exact (Option.some.inj ht).symm

theorem value_lt (t : TypeIdentifier) : t.value < 256 ^ typeSize := by
  cases t <;> decide

end TypeIdentifier

/-- `type_registry::get_type` up to the call of the deserializer. -/
def getType (typeIdentifier : Nat) : Option (Reader Sample) :=
  (TypeIdentifier.ofValue typeIdentifier).bind deserialize

namespace Environment

/-- The exception of an allocation of `n` bytes that is not granted. -/
def refusal (n : Nat) : Exception :=
  if vectorMaxSize < n then .lengthError "vector::reserve" else .badAlloc

/-- `reserve` when a record is larger than the capacity so far. -/
def grow (env : Environment) (lastCapacity sampleSize : Nat) : Except Exception Nat :=
  if lastCapacity < sampleSize then
    if env.limit < sampleSize then .error (refusal sampleSize) else .ok sampleSize
  else .ok lastCapacity

end Environment

/-- The bytes a reader consumed out of those available to it. -/
def consumedBytes (available : Nat) : Except Stop (Sample × Bytes) → Option Nat
  | .ok (_, rest) => some (available - rest.length)
  | .error (.refused _ left) => some (available - left)
  | .error .exhausted => none

/-- What becomes of one complete record. -/
inductive Handled where
  | skipped
  | delivered (parsed : Parsed) (v : Sample)
  | stopped (parsed : Parsed) (outcome : Outcome)

/-- The loop's result from one record and what comes behind it. -/
def Handled.resume (next : Loaded) : Handled → Loaded
  | skipped => next
  | delivered parsed v => next.cons parsed v
  | stopped parsed outcome => ⟨[parsed], [], outcome⟩

/-- The body of the loop behind the payload's read. -/
def handle (env : Environment) (typeIdentifier : Nat) (payload : Bytes) (left : Nat) : Handled :=
  if typeIdentifier = TypeIdentifier.fragmentedSpace.value then .skipped
  else
    match getType typeIdentifier with
    | none => .skipped
    | some p =>
      let memory := payload ++ env.beyond left
      let result := p.run env.limit memory
      let parsed : Parsed := ⟨typeIdentifier, payload.length, consumedBytes memory.length result⟩
      if parsed.Within then
        match result with
        | .ok (v, _) => .delivered parsed v
        | .error (.refused n _) => .stopped parsed (.threw (Environment.refusal n))
        | .error .exhausted => .stopped parsed .overrun
      else .stopped parsed .overrun

/-- The message of a payload that ends early.  `tellg` is `-1` by then. -/
def badRead (filename : String) : String :=
  "Bad read while consuming buffered storage. Filename: " ++ filename ++ " Bytes read: -1"

/-- The loop of `load` over the rest of the file.  A read that finds fewer bytes
than it asks for sets the end-of-file bit, which ends the loop at the header and
throws at the payload.  The stream is good at every other turn. -/
def loadLoop (env : Environment) (filename : String) (lastCapacity : Nat) (file : Bytes) :
    Loaded :=
  if file.length < headerSize then .finish .returned
  else
    let typeIdentifier := leNat (file.take typeSize)
    let sampleSize := leNat ((file.drop typeSize).take 8)
    let rest := file.drop headerSize
    if sampleSize = 0 then loadLoop env filename lastCapacity rest
    else
      match env.grow lastCapacity sampleSize with
      | .error e => .finish (.threw e)
      | .ok capacity =>
        if rest.length < sampleSize then .finish (.threw (.runtimeError (badRead filename)))
        else
          let left := rest.drop sampleSize
          (handle env typeIdentifier (rest.take sampleSize) left.length).resume
            (loadLoop env filename capacity left)
termination_by file.length
decreasing_by
  all_goals
    have hheader : 0 < headerSize := by decide
    simp only [List.length_drop]
    omega

/-- `storage_parser::load`, given what opening the file finds. -/
def load (env : Environment) (hasProcessing : Bool) (filename : String) (file : Option Bytes) :
    Loaded :=
  if !hasProcessing then .finish (.threw (.runtimeError "TypeProcessing is nullptr"))
  else
    match file with
    | none =>
      .finish (.threw (.runtimeError ("Error opening file for reading: " ++ filename)))
    | some file => loadLoop env filename initialCapacity file

/-! ## Frames

The outer lengths alone split a file into frames.  What `load` does depends on
the file through its frames only. -/

/-- A header, and as much of its payload as the file has. -/
structure Frame where
  typeIdentifier : Nat
  sampleSize : Nat
  payload : Bytes
  left : Nat
  deriving DecidableEq, Repr

def frames (file : Bytes) : List Frame :=
  if file.length < headerSize then []
  else
    let sampleSize := leNat ((file.drop typeSize).take 8)
    let rest := file.drop headerSize
    let left := rest.drop sampleSize
    ⟨leNat (file.take typeSize), sampleSize, rest.take sampleSize, left.length⟩ :: frames left
termination_by file.length
decreasing_by
  have hheader : 0 < headerSize := by decide
  simp only [List.length_drop]
  omega

/-- `loadLoop` over the frames of a file. -/
def loadFrames (env : Environment) (filename : String) : List Frame → Loaded
  | [] => .finish .returned
  | f :: fs =>
    if f.sampleSize = 0 then loadFrames env filename fs
    else if env.limit < f.sampleSize then .finish (.threw (Environment.refusal f.sampleSize))
    else if f.payload.length < f.sampleSize then
      .finish (.threw (.runtimeError (badRead filename)))
    else (handle env f.typeIdentifier f.payload f.left).resume (loadFrames env filename fs)

theorem Environment.grow_eq {env : Environment} {lastCapacity : Nat}
    (h : lastCapacity ≤ env.limit) (sampleSize : Nat) :
    env.grow lastCapacity sampleSize =
      if env.limit < sampleSize then .error (refusal sampleSize)
      else .ok (max lastCapacity sampleSize) := by
  unfold grow
  split
  · rw [Nat.max_eq_right (by omega)]
  · rw [if_neg (by omega), Nat.max_eq_left (by omega)]

/-- The capacity carried around the loop decides nothing. -/
theorem loadLoop_eq_loadFrames (env : Environment) (filename : String) (file : Bytes) :
    ∀ lastCapacity, lastCapacity ≤ env.limit →
      loadLoop env filename lastCapacity file = loadFrames env filename (frames file) := by
  induction file using frames.induct with
  | case1 file hshort =>
    intro lastCapacity _
    rw [loadLoop, frames, if_pos hshort, if_pos hshort, loadFrames]
  | case2 file hlong sampleSize rest left ih =>
    intro lastCapacity hcapacity
    rw [loadLoop, frames, if_neg hlong, if_neg hlong, loadFrames]
    show (if sampleSize = 0 then _ else _) = if sampleSize = 0 then _ else _
    by_cases hzero : sampleSize = 0
    · have hrest : left = rest := by simp only [left, hzero, List.drop_zero]
      rw [if_pos hzero, if_pos hzero]
      show loadLoop env filename lastCapacity rest = loadFrames env filename (frames left)
      rw [← hrest]
      exact ih lastCapacity hcapacity
    · rw [if_neg hzero, if_neg hzero]
      show (match env.grow lastCapacity sampleSize with | .error e => _ | .ok capacity => _) =
        if env.limit < sampleSize then _ else _
      rw [Environment.grow_eq hcapacity]
      by_cases hlimit : env.limit < sampleSize
      · rw [if_pos hlimit, if_pos hlimit]
      · rw [if_neg hlimit, if_neg hlimit]
        have hshort : (rest.take sampleSize).length < sampleSize ↔ rest.length < sampleSize := by
          rw [List.length_take]
          omega
        show (if rest.length < sampleSize then _ else _) =
          if (rest.take sampleSize).length < sampleSize then _ else _
        by_cases hread : rest.length < sampleSize
        · rw [if_pos hread, if_pos (hshort.mpr hread)]
        · rw [if_neg hread, if_neg (mt hshort.mp hread)]
          have hnext := ih (max lastCapacity sampleSize) (by omega)
          show (handle env _ (rest.take sampleSize) left.length).resume
            (loadLoop env filename (max lastCapacity sampleSize) left) = _
          rw [hnext]

/-- What `load` does with a file it can open. -/
theorem load_eq (env : Environment) (filename : String) (file : Bytes) :
    load env true filename (some file) = loadFrames env filename (frames file) :=
  loadLoop_eq_loadFrames env filename file _ env.initialCapacity_le

end TraceCache
end Rocprofsys
