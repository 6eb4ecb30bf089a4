import Rocprofsys.Base.Pieces
import Rocprofsys.Gpu.AmdSmiDevices

namespace Rocprofsys
namespace Sdk

open Base Utility

/-! ## create_agent_profile -/

structure ToolAgent where
  handle : UInt64
  deviceId : UInt64

/-- A counter that an agent offers. -/
structure CounterInfo where
  id : UInt64
  name : List UInt8
  deriving DecidableEq, Repr

structure ClientData where
  gpuAgents : List ToolAgent
  agentCounterInfo : List (UInt64 × List CounterInfo)
  /-- The counters of each profile; an agent may be left without one. -/
  agentCounterProfiles : List (UInt64 × Option (List UInt64))

def ClientData.getGpuToolAgent (data : ClientData) (id : UInt64) : Option ToolAgent :=
  data.gpuAgents.find? fun itr => itr.handle == id

inductive ProfileFailure where
  | nullAgent
  | invalidQualifier (itr : List UInt8)
  | thrown (e : Utility.Failure)

/-- The characters of `:device=`. -/
def deviceQualifier : List UInt8 := [58, 100, 101, 118, 105, 99, 101, 61]

/-- The name in front of the qualifier, and what is behind. -/
def splitQualifier (itr : List UInt8) : Option (List UInt8 × List UInt8) :=
  (find deviceQualifier itr).map fun pos =>
    (itr.take pos, itr.drop (pos + deviceQualifier.length))

def isLineBreak (b : UInt8) : Bool := b == 10 || b == 13

/-- `std::regex_replace` of `^(.*)(\[)([0-9]+)(\])$` by its first group, read from behind. -/
def stripIndex (name : List UInt8) : List UInt8 :=
  let body := name.reverse.tail
  let front := body.dropWhile isDigit
  if name.reverse.head? = some 93 ∧ body.takeWhile isDigit ≠ [] ∧ front.head? = some 91 ∧
      front.tail.all fun b => !isLineBreak b then
    front.tail.reverse
  else name

/-- The variables of the loop over the requested counters. -/
structure Search where
  expectedV : ℕ
  foundV : List (List UInt8)
  countersV : List UInt64

/-- Adds the counters of the name. -/
def Search.add (s : Search) (info : List CounterInfo) (nameV itr : List UInt8) : Search :=
  let hits := info.filter fun citr => nameV == citr.name
  { s with
    countersV := s.countersV ++ hits.map CounterInfo.id
    foundV := s.foundV ++ hits.map fun _ => itr }

def searchEvent (deviceId : UInt64) (info : List CounterInfo) (s : Search) (itr : List UInt8) :
    Except ProfileFailure Search :=
  match splitQualifier itr with
  | none => .ok (s.add info (stripIndex itr) itr)
  | some (nameV, devIdS) =>
    if devIdS.isEmpty || !devIdS.all isDigit then .error (.invalidQualifier itr)
    else
      match Gpu.AmdSmi.stoul devIdS with
      | .error e => .error (.thrown e)
      | .ok devIdV =>
        if devIdV ≠ deviceId then .ok { s with expectedV := s.expectedV - 1 }
        else .ok (s.add info (stripIndex nameV) itr)

/-- The warning about missing counters. -/
structure MissingWarning where
  requested : List (List UInt8)
  found : List (List UInt8)
  missing : List (List UInt8)

structure ProfileOutcome where
  warning : Option MissingWarning
  /-- Aborted behind the warning, as in continuous integration. -/
  aborted : Bool
  /-- What is returned unless it is aborted. -/
  countersV : List UInt64

def ProfileOutcome.missing (out : ProfileOutcome) : List (List UInt8) :=
  match out.warning with
  | none => []
  | some w => w.missing

def ClientData.emplaceProfile (data : ClientData) (agentId : UInt64)
    (profile : Option (List UInt64)) : ClientData :=
  { data with agentCounterProfiles := data.agentCounterProfiles ++ [(agentId, profile)] }

/-- What follows the loop. -/
def finishProfile (isContinuousIntegration : Bool) (data : ClientData) (agentId : UInt64)
    (counters : List (List UInt8)) (s : Search) : ProfileOutcome × ClientData :=
  let profile := if s.countersV.isEmpty then none else some s.countersV
  if s.countersV.length ≠ s.expectedV then
    let missing := counters.filter fun counter => !s.foundV.contains counter
    let warning := some ⟨counters, s.foundV, missing⟩
    if isContinuousIntegration then (⟨warning, true, s.countersV⟩, data)
    else (⟨warning, false, s.countersV⟩, data.emplaceProfile agentId profile)
  else (⟨none, false, s.countersV⟩, data.emplaceProfile agentId profile)

/-- A null agent is read by all that follows the first test. -/
def createAgentProfile (isContinuousIntegration : Bool) (data : ClientData) (agentId : UInt64)
    (counters : List (List UInt8)) : Except ProfileFailure (ProfileOutcome × ClientData) :=
  if (data.agentCounterProfiles.lookup agentId).isSome then .ok (⟨none, false, []⟩, data)
  else
    match data.getGpuToolAgent agentId, data.agentCounterInfo.lookup agentId with
    | none, _ => .error .nullAgent
    | some _, none => .ok (⟨none, false, []⟩, data.emplaceProfile agentId none)
    | some toolAgentV, some info =>
      (counters.foldlM (searchEvent toolAgentV.deviceId info) ⟨counters.length, [], []⟩).map
        (finishProfile isContinuousIntegration data agentId counters)

/-! ## Requests -/

/-- A name with neither a qualifier nor an index. -/
structure EventName where
  bytes : List UInt8
  unqualified : ¬ deviceQualifier <:+: bytes
  unindexed : ∀ front (n : Digits), bytes ≠ front ++ 91 :: (n.bytes ++ [93])
  oneLine : ∀ b ∈ bytes, isLineBreak b = false

/-- A requested event, with `[N]` and `:device=N` where it has them. -/
structure EventRequest where
  name : EventName
  index : Option Digits
  device : Option Digits

namespace EventRequest

def indexText : Option Digits → List UInt8
  | none => []
  | some n => 91 :: (n.bytes ++ [93])

def deviceText : Option Digits → List UInt8
  | none => []
  | some n => deviceQualifier ++ n.bytes

def text (r : EventRequest) : List UInt8 :=
  (r.name.bytes ++ indexText r.index) ++ deviceText r.device

/-- The request is for every device or for this one. -/
def Applies (deviceId : UInt64) (r : EventRequest) : Prop :=
  ∀ n ∈ r.device, n.value = deviceId.toNat

/-- The number of the device fits an unsigned long. -/
def Readable (r : EventRequest) : Prop := ∀ n ∈ r.device, n.value < 2 ^ 64

def Offered (info : List CounterInfo) (r : EventRequest) : Prop :=
  ∃ c ∈ info, c.name = r.name.bytes

end EventRequest

/-- An agent whose profile is to be created, with the counters it offers. -/
structure FirstEntry (data : ClientData) where
  agent : ToolAgent
  info : List CounterInfo
  listed : data.getGpuToolAgent agent.handle = some agent
  fresh : data.agentCounterProfiles.lookup agent.handle = none
  known : data.agentCounterInfo.lookup agent.handle = some info
  names : (info.map CounterInfo.name).Nodup
  ids : (info.map CounterInfo.id).Nodup

/-- The counters that apply to the device and are offered, once each, with a report of those that
apply and are not. -/
structure ProfileOutcome.Right (isContinuousIntegration : Bool) (deviceId : UInt64)
    (info : List CounterInfo) (requests : List EventRequest) (out : ProfileOutcome) : Prop where
  once : out.countersV.Nodup
  selected : ∀ id, id ∈ out.countersV ↔
    ∃ r ∈ requests, r.Applies deviceId ∧ ⟨id, r.name.bytes⟩ ∈ info
  reported : ∀ t, t ∈ out.missing ↔
    ∃ r ∈ requests, r.Applies deviceId ∧ ¬ r.Offered info ∧ r.text = t
  aborted : out.aborted = true ↔
    isContinuousIntegration = true ∧ ∃ r ∈ requests, r.Applies deviceId ∧ ¬ r.Offered info

/-- The profile is created with the right counters and report. -/
def FirstEntry.Selects {data : ClientData} (e : FirstEntry data) (isContinuousIntegration : Bool)
    (requests : List EventRequest) : Prop :=
  ∃ out data', createAgentProfile isContinuousIntegration data e.agent.handle
      (requests.map EventRequest.text) = .ok (out, data') ∧
    out.Right isContinuousIntegration e.agent.deviceId e.info requests

end Sdk
end Rocprofsys
