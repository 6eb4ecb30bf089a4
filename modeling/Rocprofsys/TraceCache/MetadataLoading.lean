import Rocprofsys.Base.Attempt
import Rocprofsys.TraceCache.MetadataRoundTrip

namespace Rocprofsys
namespace TraceCache

open Base

/-! ## Loading in place -/

/-- What one item of a section adds to the registry. -/
inductive Entry where
  | pmcInfo (pmcInfo : Pmc)
  | thread (thread : Thread)
  | track (track : Track)
  | queue (handle : UInt64)
  | stream (handle : UInt64)
  | string (value : Bytes)
  | codeObject (codeObject : CodeObject)
  | kernelSymbol (kernelSymbol : KernelSymbol)

namespace MetadataRegistry

def add (registry : MetadataRegistry) : Entry → MetadataRegistry
  | .pmcInfo pmcInfo => registry.addPmcInfo pmcInfo
  | .thread thread => registry.addThreadInfo thread
  | .track track => registry.addTrack track
  | .queue handle => registry.addQueue handle
  | .stream handle => registry.addStream handle
  | .string value => registry.addString value
  | .codeObject codeObject => registry.addCodeObject codeObject
  | .kernelSymbol kernelSymbol => registry.addKernelSymbol kernelSymbol

/-- An element with the key of the entry is there. -/
def Has (registry : MetadataRegistry) : Entry → Prop
  | .pmcInfo pmcInfo => pmcInfo.key ∈ registry.pmcInfos.entries.map Pmc.key
  | .thread thread => thread.threadId ∈ registry.threads.entries.map Thread.threadId
  | .track track => track.trackName ∈ registry.tracks.entries.map Track.trackName
  | .queue handle => handle ∈ registry.queues.entries.map id
  | .stream handle => handle ∈ registry.streams.entries.map id
  | .string value => value ∈ registry.strings.entries.map id
  | .codeObject codeObject =>
    codeObject.codeObjectId ∈ registry.codeObjects.entries.map CodeObject.codeObjectId
  | .kernelSymbol kernelSymbol =>
    kernelSymbol.kernelId ∈ registry.kernelSymbols.entries.map KernelSymbol.kernelId

end MetadataRegistry

/-- The items of a section, where reading one may throw. -/
def sectionItems {α : Type} (json : Json) (key : String) (read : Json → Option α) :
    List (Option α) :=
  match json.get? key with
  | some value => value.items.map read
  | none => []

/-- The entries of the sections, in the order in which they are filled in. -/
def entryItems (json : Json) : List (Option Entry) :=
  sectionItems json "pmc_infos" (fun item => (Pmc.fromJson item).map .pmcInfo) ++
  sectionItems json "threads" (fun item => (Thread.fromJson item).map .thread) ++
  sectionItems json "tracks" (fun item => (Track.fromJson item).map .track) ++
  sectionItems json "queues" (fun item => (handleFromJson item).map .queue) ++
  sectionItems json "streams" (fun item => (handleFromJson item).map .stream) ++
  sectionItems json "strings" (fun item => item.getString.map .string) ++
  sectionItems json "code_objects" (fun item => (CodeObject.fromJson item).map .codeObject) ++
  sectionItems json "kernel_symbols" (fun item => (KernelSymbol.fromJson item).map .kernelSymbol)

def agentItems (json : Json) : List (Option Agent) := sectionItems json "agents" Agent.fromJson

def pushBack (agents : Agents) (agent : Agent) : Agents := agents ++ [some agent]

/-- `from_json` on the arguments themselves: what it leaves of them, and whether it returned. -/
def fillIn (registry : MetadataRegistry) (agents : Agents) (json : Json) :
    (MetadataRegistry × Agents) × Bool :=
  match json.field "process" Process.fromJson with
  | none => ((registry, agents), false)
  | some process =>
    let filled := attempt MetadataRegistry.add (entryItems json) (registry.setProcess process)
    if filled.2 then
      -- agents that the caller passed in are cleared first
      let loaded := attempt pushBack (agentItems json) []
      ((filled.1, loaded.1), loaded.2)
    else ((filled.1, agents), false)

/-- `load_from_file` on a file with this text. An exception of the parser leaves everything
as it was. -/
def loadInPlace (parse : Bytes → Option Json) (registry : MetadataRegistry) (agents : Agents)
    (text : Bytes) : (MetadataRegistry × Agents) × Bool :=
  match parse text with
  | none => ((registry, agents), false)
  | some json => fillIn registry agents json

/-- A load that fails changes nothing. -/
def Atomic (parse : Bytes → Option Json) (registry : MetadataRegistry) (agents : Agents)
    (text : Bytes) : Prop :=
  (loadInPlace parse registry agents text).2 = false →
    (loadInPlace parse registry agents text).1 = (registry, agents)

/-! ## Agreement with the result of a load -/

section Result

variable {json : Json} {registry : MetadataRegistry}

theorem fillFromJson_eq {σ α ε : Type} (key : String) (read : Json → Option α) (make : α → ε)
    (apply : σ → ε → σ) (s : σ) :
    fillFromJson json key (fun s item => (read item).map fun x => apply s (make x)) s =
      (sectionItems json key (fun item => (read item).map make)).foldlM
        (fun s e => e.map (apply s)) s := by
  rw [fillFromJson, sectionItems]
  cases json.get? key with
  | none => rfl
  | some value =>
    rw [List.foldlM_map]
    simp only [Option.map_map]
    rfl

theorem fillFromJson_add {α : Type} (key : String) (read : Json → Option α) (make : α → Entry)
    (registry : MetadataRegistry) :
    (sectionItems json key (fun item => (read item).map make)).foldlM
        (fun registry (e : Option Entry) => e.map registry.add) registry =
      fillFromJson json key
        (fun (registry : MetadataRegistry) item => (read item).map fun x => registry.add (make x))
        registry :=
  (fillFromJson_eq key read make MetadataRegistry.add registry).symm

theorem fillFromJson_agents :
    fillFromJson json "agents"
        (fun agents item => (Agent.fromJson item).map fun agent => agents ++ [some agent]) [] =
      (agentItems json).foldlM (fun agents (e : Option Agent) => e.map (pushBack agents)) [] := by
  have hid : (fun item => (Agent.fromJson item).map id) = Agent.fromJson := by
    funext item
    rw [Option.map_id, id]
  have h := @fillFromJson_eq json _ _ _ "agents" Agent.fromJson id pushBack []
  rw [hid] at h
  exact h

theorem fromJson_eq_foldlM :
    registry.fromJson json = (json.field "process" Process.fromJson).bind fun process =>
      ((entryItems json).foldlM (fun registry (e : Option Entry) => e.map registry.add)
        (registry.setProcess process)).bind fun registry =>
      ((agentItems json).foldlM (fun agents (e : Option Agent) => e.map (pushBack agents)) []).bind
        fun agents => some (registry, agents) := by
  simp only [entryItems, List.foldlM_append, fillFromJson_add, ← fillFromJson_agents,
    Option.bind_eq_bind, Option.bind_assoc]
  rfl

/-- A load that returns leaves what `from_json` makes of the document. -/
theorem fillIn_returns_iff {agents : Agents} {result : MetadataRegistry × Agents} :
    fillIn registry agents json = (result, true) ↔ registry.fromJson json = some result := by
  rw [fromJson_eq_foldlM, fillIn]
  cases json.field "process" Process.fromJson with
  | none => exact iff_of_false (fun h => by cases h) fun h => by cases h
  | some process =>
    simp only [Option.bind_some, foldlM_eq_attempt]
    generalize attempt MetadataRegistry.add (entryItems json) (registry.setProcess process) = filled
    generalize attempt pushBack (agentItems json) [] = loaded
    obtain ⟨registry', hfilled⟩ := filled
    obtain ⟨agents', hloaded⟩ := loaded
    cases hfilled with
    | false => exact iff_of_false (fun h => by cases h) fun h => by cases h
    | true =>
      cases hloaded with
      | false => exact iff_of_false (fun h => by cases h) fun h => by cases h
      | true => simp

end Result

/-! ## What a failed load leaves -/

namespace MetadataRegistry

variable {registry : MetadataRegistry}

/-- The number of elements of all sets. -/
def size (registry : MetadataRegistry) : ℕ :=
  registry.pmcInfos.entries.length + registry.threads.entries.length +
    registry.tracks.entries.length + registry.streams.entries.length +
    registry.queues.entries.length + registry.strings.entries.length +
    registry.codeObjects.entries.length + registry.kernelSymbols.entries.length

theorem add_of_has {e : Entry} (h : registry.Has e) : registry.add e = registry := by
  cases e with
  | pmcInfo pmcInfo => rw [add, addPmcInfo, KeyedSet.add_of_mem h]
  | thread thread => rw [add, addThreadInfo, KeyedSet.add_of_mem h]
  | track track => rw [add, addTrack, KeyedSet.add_of_mem h]
  | queue handle => rw [add, addQueue, KeyedSet.add_of_mem h]
  | stream handle => rw [add, addStream, KeyedSet.add_of_mem h]
  | string value => rw [add, addString, KeyedSet.add_of_mem h]
  | codeObject codeObject => rw [add, addCodeObject, KeyedSet.add_of_mem h]
  | kernelSymbol kernelSymbol => rw [add, addKernelSymbol, KeyedSet.add_of_mem h]

theorem size_lt_add {e : Entry} (h : ¬ registry.Has e) :
    registry.size < (registry.add e).size := by
  have hlength {α κ : Type} [DecidableEq κ] {key : α → κ} {s : KeyedSet key} {x : α}
      (hx : key x ∉ s.entries.map key) : (s.add x).entries.length = s.entries.length + 1 := by
    rw [KeyedSet.entries_add hx, List.length_append, List.length_singleton]
  cases e with
  | pmcInfo pmcInfo => simp only [size, add, addPmcInfo, hlength h]; omega
  | thread thread => simp only [size, add, addThreadInfo, hlength h]; omega
  | track track => simp only [size, add, addTrack, hlength h]; omega
  | queue handle => simp only [size, add, addQueue, hlength h]; omega
  | stream handle => simp only [size, add, addStream, hlength h]; omega
  | string value => simp only [size, add, addString, hlength h]; omega
  | codeObject codeObject => simp only [size, add, addCodeObject, hlength h]; omega
  | kernelSymbol kernelSymbol => simp only [size, add, addKernelSymbol, hlength h]; omega

theorem foldl_add_eq_self_iff {es : List Entry} :
    es.foldl add registry = registry ↔ ∀ e ∈ es, registry.Has e := by
  have hadd (registry : MetadataRegistry) (e : Entry) :
      registry.add e = registry ∨ registry.size < (registry.add e).size := by
    by_cases h : registry.Has e
    · exact Or.inl (add_of_has h)
    · exact Or.inr (size_lt_add h)
  rw [foldl_eq_self_iff size hadd]
  refine forall_congr' fun e => imp_congr_right fun _ => ⟨fun heq => ?_, add_of_has⟩
  by_contra h
  have hlt := size_lt_add h
  rw [heq] at hlt
  exact Nat.lt_irrefl _ hlt

theorem process_foldl_add (es : List Entry) :
    (es.foldl add registry).process = registry.process := by
  induction es generalizing registry with
  | nil => rfl
  | cons e es ih =>
    rw [List.foldl_cons, ih]
    cases e <;> rfl

/-- A process and entries change nothing exactly if they are all there. -/
theorem foldl_add_setProcess_eq_self_iff {process : Process} {es : List Entry} :
    es.foldl add (registry.setProcess process) = registry ↔
      process = registry.process ∧ ∀ e ∈ es, registry.Has e := by
  constructor
  · intro h
    have hprocess : process = registry.process := by
      have hfold := @process_foldl_add (registry.setProcess process) es
      rw [h] at hfold
      exact hfold.symm
    subst hprocess
    exact ⟨rfl, foldl_add_eq_self_iff.mp h⟩
  · intro ⟨hprocess, hhas⟩
    subst hprocess
    exact foldl_add_eq_self_iff.mpr hhas

end MetadataRegistry

/-- What was read in front of the failure is what the arguments hold already. -/
structure ReadBefore (registry : MetadataRegistry) (agents : Agents) (json : Json)
    (process : Process) : Prop where
  process : process = registry.process
  entries : ∀ e ∈ performed (entryItems json), registry.Has e
  agents : Succeeds (entryItems json) → (performed (agentItems json)).map some = agents

section Failure

variable {json : Json} {registry : MetadataRegistry} {agents : Agents} {process : Process}

theorem foldl_pushBack (read : List Agent) (agents : Agents) :
    read.foldl pushBack agents = agents ++ read.map some := by
  induction read generalizing agents with
  | nil => simp
  | cons agent read ih => rw [List.foldl_cons, ih, pushBack, List.append_assoc, List.map_cons,
      List.singleton_append]

/-- The process is set, the entries in front of a failure are added, and agents are replaced
once every section in front of them was read. -/
theorem fillIn_eq (hprocess : json.field "process" Process.fromJson = some process) :
    (fillIn registry agents json).1.1 =
        (performed (entryItems json)).foldl MetadataRegistry.add (registry.setProcess process) ∧
      (Succeeds (entryItems json) →
        (fillIn registry agents json).1.2 = (performed (agentItems json)).map some) ∧
      (¬ Succeeds (entryItems json) → (fillIn registry agents json).1.2 = agents) ∧
      ((fillIn registry agents json).2 = true ↔
        Succeeds (entryItems json) ∧ Succeeds (agentItems json)) := by
  have hentries := @attempt_snd _ _ MetadataRegistry.add (entryItems json)
    (registry.setProcess process)
  have hagents := @attempt_snd _ _ pushBack (agentItems json) []
  rw [← hentries, ← hagents, ← attempt_fst, fillIn, hprocess]
  dsimp only
  split
  · rename_i h
    refine ⟨rfl, fun _ => ?_, fun hfails => absurd h hfails, ?_⟩
    · show (attempt pushBack (agentItems json) []).1 = _
      rw [attempt_fst, foldl_pushBack, List.nil_append]
    · rw [and_iff_right h]
  · rename_i h
    exact ⟨rfl, fun hsucceeds => absurd hsucceeds h, fun _ => rfl,
      iff_of_false Bool.false_ne_true fun hsucceeds => h hsucceeds.1⟩

theorem fillIn_eq_self_iff (hprocess : json.field "process" Process.fromJson = some process) :
    (fillIn registry agents json).1 = (registry, agents) ↔
      ReadBefore registry agents json process := by
  obtain ⟨hregistry, hread, hkept, -⟩ := @fillIn_eq json registry agents process hprocess
  rw [Prod.ext_iff, hregistry, MetadataRegistry.foldl_add_setProcess_eq_self_iff]
  by_cases hentries : Succeeds (entryItems json)
  · rw [hread hentries]
    constructor
    · intro ⟨⟨hp, he⟩, ha⟩
      exact ⟨hp, he, fun _ => ha⟩
    · intro ⟨hp, he, ha⟩
      exact ⟨⟨hp, he⟩, ha hentries⟩
  · rw [hkept hentries]
    constructor
    · intro ⟨⟨hp, he⟩, _⟩
      exact ⟨hp, he, fun h => absurd h hentries⟩
    · intro ⟨hp, he, _⟩
      exact ⟨⟨hp, he⟩, rfl⟩

end Failure

/-- The text `{"pmc_infos":[5],"process":{"command":"","end":0,"pid":7,"ppid":1,"start":0}}`. -/
def brokenText : Bytes :=
  "\x7b\"pmc_infos\":[5],\"process\":".toUTF8.toList ++
    "\x7b\"command\":\"\",\"end\":0,\"pid\":7,\"ppid\":1,\"start\":0\x7d\x7d".toUTF8.toList

def brokenProcess : Process := ⟨7, 1, [], 0, 0⟩

def brokenDocument : Json :=
  .ofFields [("process", brokenProcess.toJson), ("pmc_infos", .array [.number 5])]

theorem fields_brokenDocument : brokenDocument.get? "process" = some brokenProcess.toJson ∧
    brokenDocument.get? "pmc_infos" = some (.array [.number 5]) := by
  have hget (key : String) : brokenDocument.get? key = _ := Json.get?_ofFields (by simp) key
  simp [hget, Json.lookup_cons]

end TraceCache
end Rocprofsys
