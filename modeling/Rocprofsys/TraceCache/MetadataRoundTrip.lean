import Rocprofsys.TraceCache.MetadataRegistry

namespace Rocprofsys
namespace TraceCache

open Base

/-! ## One record

`reload` is what one record is after it was saved and loaded, `texts` are the strings
that are saved of it. -/

namespace Process

def texts (process : Process) : List Bytes := [process.command]

theorem fromJson_toJson (process : Process) : fromJson process.toJson = some process := by
  have hfield {α : Type} (key : String) (get : Json → Option α) :
      process.toJson.field key get = _ := Json.field_ofFields (by simp) key get
  simp [fromJson, hfield, Json.lookup_cons]

theorem mentions_toJson (process : Process) (bytes : Bytes) :
    Json.Mentions bytes process.toJson ↔ bytes ∈ process.texts := by
  rw [toJson, Json.mentions_ofFields (by simp)]
  simp [texts]

end Process

namespace Pmc

def reload (pmc : Pmc) : Pmc :=
  { pmc with
    agentTypeIndex := narrow pmc.agentTypeIndex
    eventCode := narrow pmc.eventCode
    instanceId := narrow pmc.instanceId }

def texts (pmc : Pmc) : List Bytes :=
  [pmc.targetArch, pmc.name, pmc.symbol, pmc.description, pmc.longDescription, pmc.component,
    pmc.units, pmc.valueType, pmc.block, pmc.expression, pmc.extdata]

theorem fromJson_toJson (pmc : Pmc) : fromJson pmc.toJson = some pmc.reload := by
  have hfield {α : Type} (key : String) (get : Json → Option α) :
      pmc.toJson.field key get = _ := Json.field_ofFields (by simp) key get
  simp [fromJson, hfield, Json.lookup_cons, reload]

theorem reload_reload (pmc : Pmc) : pmc.reload.reload = pmc.reload := by simp [reload]

theorem mentions_toJson (pmc : Pmc) (bytes : Bytes) :
    Json.Mentions bytes pmc.toJson ↔ bytes ∈ pmc.texts := by
  rw [toJson, Json.mentions_ofFields (by simp)]
  simp [texts]

theorem reload_eq_self_iff {pmc : Pmc} : pmc.reload = pmc ↔ 
    FitsInt pmc.agentTypeIndex ∧ FitsInt pmc.eventCode ∧ FitsInt pmc.instanceId := by
  cases pmc
  simp [reload, narrow_eq_self_iff]

def codec : Json.Codec Pmc where
  toJson := toJson
  fromJson := fromJson
  reload := reload
  texts := texts
  fromJson_toJson := fromJson_toJson
  reload_reload := reload_reload
  mentions_toJson := mentions_toJson

end Pmc

namespace Thread

def reload (thread : Thread) : Thread := { thread with threadId := narrow thread.threadId }

def texts (thread : Thread) : List Bytes := [thread.extdata]

theorem fromJson_toJson (thread : Thread) : fromJson thread.toJson = some thread.reload := by
  have hfield {α : Type} (key : String) (get : Json → Option α) :
      thread.toJson.field key get = _ := Json.field_ofFields (by simp) key get
  simp [fromJson, hfield, Json.lookup_cons, reload]

theorem reload_reload (thread : Thread) : thread.reload.reload = thread.reload := by simp [reload]

theorem mentions_toJson (thread : Thread) (bytes : Bytes) :
    Json.Mentions bytes thread.toJson ↔ bytes ∈ thread.texts := by
  rw [toJson, Json.mentions_ofFields (by simp)]
  simp [texts]

theorem reload_eq_self_iff {thread : Thread} : thread.reload = thread ↔ FitsInt thread.threadId := by
  cases thread
  simp [reload, narrow_eq_self_iff]

def codec : Json.Codec Thread where
  toJson := toJson
  fromJson := fromJson
  reload := reload
  texts := texts
  fromJson_toJson := fromJson_toJson
  reload_reload := reload_reload
  mentions_toJson := mentions_toJson

end Thread

namespace Track

def reload (track : Track) : Track := { track with threadId := track.threadId.map narrow }

def texts (track : Track) : List Bytes := [track.trackName, track.extdata]

theorem fromJson_toJson (track : Track) : fromJson track.toJson = some track.reload := by
  have hfield {α : Type} (key : String) (get : Json → Option α) :
      track.toJson.field key get = _ := Json.field_ofFields (by simp) key get
  obtain ⟨trackName, threadId, extdata⟩ := track
  cases threadId with
  | none => simp [fromJson, hfield, Json.lookup_cons, reload, Json.getNullable]
  | some threadId => simp [fromJson, hfield, Json.lookup_cons, reload, Json.getNullable]

theorem reload_reload (track : Track) : track.reload.reload = track.reload := by
  obtain ⟨trackName, threadId, extdata⟩ := track
  cases threadId with
  | none => rfl
  | some threadId => simp [reload]

theorem mentions_toJson (track : Track) (bytes : Bytes) :
    Json.Mentions bytes track.toJson ↔ bytes ∈ track.texts := by
  rw [toJson, Json.mentions_ofFields (by simp)]
  obtain ⟨trackName, threadId, extdata⟩ := track
  cases threadId with
  | none => simp [texts]
  | some threadId => simp [texts]

theorem reload_eq_self_iff {track : Track} :
    track.reload = track ↔ ∀ threadId ∈ track.threadId, FitsInt threadId := by
  obtain ⟨trackName, threadId, extdata⟩ := track
  cases threadId with
  | none => simp [reload]
  | some threadId => simp [reload, narrow_eq_self_iff]

def codec : Json.Codec Track where
  toJson := toJson
  fromJson := fromJson
  reload := reload
  texts := texts
  fromJson_toJson := fromJson_toJson
  reload_reload := reload_reload
  mentions_toJson := mentions_toJson

end Track

namespace CodeObject

def texts (codeObject : CodeObject) : List Bytes := [codeObject.uri.bytes]

theorem fromJson_toJson (codeObject : CodeObject) : fromJson codeObject.toJson = some codeObject := by
  have hfield {α : Type} (key : String) (get : Json → Option α) :
      codeObject.toJson.field key get = _ := Json.field_ofFields (by simp) key get
  simp [fromJson, hfield, Json.lookup_cons]

theorem mentions_toJson (codeObject : CodeObject) (bytes : Bytes) :
    Json.Mentions bytes codeObject.toJson ↔ bytes ∈ codeObject.texts := by
  rw [toJson, Json.mentions_ofFields (by simp)]
  simp [texts]

def codec : Json.Codec CodeObject where
  toJson := toJson
  fromJson := fromJson
  reload := id
  texts := texts
  fromJson_toJson := fromJson_toJson
  reload_reload := fun _ => rfl
  mentions_toJson := mentions_toJson

end CodeObject

namespace KernelSymbol

def texts (kernelSymbol : KernelSymbol) : List Bytes := [kernelSymbol.kernelName.bytes]

theorem fromJson_toJson (kernelSymbol : KernelSymbol) : fromJson kernelSymbol.toJson = some kernelSymbol := by
  have hfield {α : Type} (key : String) (get : Json → Option α) :
      kernelSymbol.toJson.field key get = _ := Json.field_ofFields (by simp) key get
  simp [fromJson, hfield, Json.lookup_cons]

theorem mentions_toJson (kernelSymbol : KernelSymbol) (bytes : Bytes) :
    Json.Mentions bytes kernelSymbol.toJson ↔ bytes ∈ kernelSymbol.texts := by
  rw [toJson, Json.mentions_ofFields (by simp)]
  simp [texts]

def codec : Json.Codec KernelSymbol where
  toJson := toJson
  fromJson := fromJson
  reload := id
  texts := texts
  fromJson_toJson := fromJson_toJson
  reload_reload := fun _ => rfl
  mentions_toJson := mentions_toJson

end KernelSymbol

namespace Agent

/-- The database index and the serialized information are not saved. -/
def reload (agent : Agent) : Agent :=
  { agent with
    deviceId := narrow agent.deviceId
    deviceTypeIndex := narrow agent.deviceTypeIndex
    baseId := 0
    agentInfo := [] }

def texts (agent : Agent) : List Bytes :=
  [agent.name, agent.modelName, agent.vendorName, agent.productName]

theorem fromJson_toJson (agent : Agent) : fromJson agent.toJson = some agent.reload := by
  have hfield {α : Type} (key : String) (get : Json → Option α) :
      agent.toJson.field key get = _ := Json.field_ofFields (by simp) key get
  simp [fromJson, hfield, Json.lookup_cons, reload]

theorem reload_reload (agent : Agent) : agent.reload.reload = agent.reload := by simp [reload]

theorem mentions_toJson (agent : Agent) (bytes : Bytes) :
    Json.Mentions bytes agent.toJson ↔ bytes ∈ agent.texts := by
  rw [toJson, Json.mentions_ofFields (by simp)]
  simp [texts]

theorem reload_eq_self_iff {agent : Agent} : agent.reload = agent ↔ 
    FitsInt agent.deviceId ∧ FitsInt agent.deviceTypeIndex ∧ agent.baseId = 0 ∧
      agent.agentInfo = [] := by
  obtain ⟨_, _, _, _, _, _, _, _, _, _, _, baseId, agentInfo⟩ := agent
  have hbase : (0 : UInt64) = baseId ↔ baseId = 0 := eq_comm
  simp [reload, narrow_eq_self_iff, hbase]

def codec : Json.Codec Agent where
  toJson := toJson
  fromJson := fromJson
  reload := reload
  texts := texts
  fromJson_toJson := fromJson_toJson
  reload_reload := reload_reload
  mentions_toJson := mentions_toJson

end Agent

theorem handleFromJson_handleToJson (handle : UInt64) :
    handleFromJson (handleToJson handle) = some handle := by
  rw [handleToJson, handleFromJson, getInt64_castLongLong, Option.map_some, castUInt64_ofInt]

theorem mentions_handleToJson (handle : UInt64) (bytes : Bytes) :
    Json.Mentions bytes (handleToJson handle) ↔ bytes ∈ ([] : List Bytes) := by
  simp [handleToJson]

def handleCodec : Json.Codec UInt64 where
  toJson := handleToJson
  fromJson := handleFromJson
  reload := id
  texts _ := []
  fromJson_toJson := handleFromJson_handleToJson
  reload_reload _ := rfl
  mentions_toJson := mentions_handleToJson

def stringCodec : Json.Codec Bytes where
  toJson := Json.string
  fromJson := Json.getString
  reload := id
  texts bytes := [bytes]
  fromJson_toJson _ := rfl
  reload_reload _ := rfl
  mentions_toJson _ _ := Json.mentions_string.trans List.mem_singleton.symm

/-! ## The document -/

theorem keys_pushBackAll (key : String) (items : List Json) :
    ((pushBackAll key items).map Prod.fst).Sublist [key] := by
  cases items with
  | nil => exact List.nil_sublist _
  | cons item items => exact List.Sublist.refl _

theorem mentions_pushBackAll (key : String) (items : List Json) (bytes : Bytes) :
    (∃ entry ∈ pushBackAll key items, Json.Mentions bytes entry.2) ↔
      Json.Mentions bytes (.array items) := by
  cases items with
  | nil => simp [pushBackAll, Json.mentions_array]
  | cons item items => simp [pushBackAll]

theorem lookup_pushBackAll_of_ne {key name : String} (h : key ≠ name) (items : List Json) :
    (pushBackAll name items).lookup key = none := by
  cases items with
  | nil => rfl
  | cons item items => rw [pushBackAll, Json.lookup_cons, if_neg h, List.lookup_nil]

/-- What a loop over field `key` visits. -/
def itemsAt (fields : List (String × Json)) (key : String) : List Json :=
  (fields.lookup key).elim [] Json.items

theorem itemsAt_pushBackAll (key : String) (items : List Json) :
    itemsAt (pushBackAll key items) key = items := by
  cases items with
  | nil => rfl
  | cons item items => rw [itemsAt, pushBackAll, Json.lookup_cons, if_pos rfl]; rfl

theorem fillFromJson_ofFields {σ : Type} {fields : List (String × Json)}
    (h : (fields.map Prod.fst).Nodup) (key : String) (transformAndAdd : σ → Json → Option σ)
    (s : σ) : fillFromJson (.ofFields fields) key transformAndAdd s =
      (itemsAt fields key).foldlM transformAndAdd s := by
  rw [fillFromJson, Json.get?_ofFields h, itemsAt]
  cases fields.lookup key with
  | none => rfl
  | some value => rfl

/-- A loop that changes one field of the state by `add`. -/
theorem foldl_field {σ τ α : Type} (get : σ → τ) (set : σ → τ → σ) (add : τ → α → τ)
    (hget : ∀ s t, get (set s t) = t) (hset : ∀ s t u, set (set s t) u = set s u)
    (hself : ∀ s, set s (get s) = s) (xs : List α) (s : σ) :
    xs.foldl (fun s x => set s (add (get s) x)) s = set s (xs.foldl add (get s)) := by
  induction xs generalizing s with
  | nil => exact (hself s).symm
  | cons x xs ih => rw [List.foldl_cons, ih, hget, hset, List.foldl_cons]

namespace MetadataRegistry

variable (registry : MetadataRegistry) (agents : Agents)

theorem keys_fields : ((registry.fields agents).map Prod.fst).Sublist
    ["process", "pmc_infos", "threads", "tracks", "queues", "streams", "strings", "code_objects",
      "kernel_symbols", "agents"] := by
  simp only [fields, List.map_append]
  exact (((((List.Sublist.refl _).append (keys_pushBackAll _ _)).append
    (keys_pushBackAll _ _)).append (keys_pushBackAll _ _)).append
    (List.Sublist.refl _)).append (keys_pushBackAll _ _)

theorem nodup_fields : ((registry.fields agents).map Prod.fst).Nodup :=
  (keys_fields registry agents).nodup (by decide)

theorem itemsAt_pmcInfos : itemsAt (registry.fields agents) "pmc_infos" =
    registry.pmcInfos.entries.map Pmc.toJson := by
  simp [fields, itemsAt, Json.lookup_cons, Json.items]

theorem itemsAt_threads : itemsAt (registry.fields agents) "threads" =
    registry.threads.entries.map Thread.toJson := by
  simp [fields, itemsAt, Json.lookup_cons, Json.items]

theorem itemsAt_tracks : itemsAt (registry.fields agents) "tracks" =
    registry.tracks.entries.map Track.toJson := by
  simp [fields, itemsAt, Json.lookup_cons, Json.items]

theorem itemsAt_queues : itemsAt (registry.fields agents) "queues" =
    registry.queues.entries.map handleToJson := by
  have hitems : itemsAt (registry.fields agents) "queues" =
      itemsAt (pushBackAll "queues" (registry.queues.entries.map handleToJson)) "queues" := by
    simp [fields, itemsAt, List.lookup_append, Json.lookup_cons, lookup_pushBackAll_of_ne]
  rw [hitems, itemsAt_pushBackAll]

theorem itemsAt_streams : itemsAt (registry.fields agents) "streams" =
    registry.streams.entries.map handleToJson := by
  have hitems : itemsAt (registry.fields agents) "streams" =
      itemsAt (pushBackAll "streams" (registry.streams.entries.map handleToJson)) "streams" := by
    simp [fields, itemsAt, List.lookup_append, Json.lookup_cons, lookup_pushBackAll_of_ne]
  rw [hitems, itemsAt_pushBackAll]

theorem itemsAt_strings : itemsAt (registry.fields agents) "strings" =
    registry.strings.entries.map Json.string := by
  have hitems : itemsAt (registry.fields agents) "strings" =
      itemsAt (pushBackAll "strings" (registry.strings.entries.map Json.string)) "strings" := by
    simp [fields, itemsAt, List.lookup_append, Json.lookup_cons, lookup_pushBackAll_of_ne]
  rw [hitems, itemsAt_pushBackAll]

theorem itemsAt_codeObjects : itemsAt (registry.fields agents) "code_objects" =
    registry.codeObjects.entries.map CodeObject.toJson := by
  simp [fields, itemsAt, List.lookup_append, Json.lookup_cons, Json.items,
    lookup_pushBackAll_of_ne]

theorem itemsAt_kernelSymbols : itemsAt (registry.fields agents) "kernel_symbols" =
    registry.kernelSymbols.entries.map KernelSymbol.toJson := by
  simp [fields, itemsAt, List.lookup_append, Json.lookup_cons, Json.items,
    lookup_pushBackAll_of_ne]

theorem itemsAt_agents : itemsAt (registry.fields agents) "agents" =
    (presentAgents agents).map Agent.toJson := by
  have hitems : itemsAt (registry.fields agents) "agents" =
      itemsAt (pushBackAll "agents" ((presentAgents agents).map Agent.toJson)) "agents" := by
    simp [fields, itemsAt, List.lookup_append, Json.lookup_cons, lookup_pushBackAll_of_ne]
  rw [hitems, itemsAt_pushBackAll]

/-- One loop of `from_json` over the records that `to_json` put there. -/
theorem fillFromJson_toJson {σ α : Type} (codec : Json.Codec α) (key : String) {xs : List α}
    (h : itemsAt (registry.fields agents) key = xs.map codec.toJson) (add : σ → α → σ) (s : σ) :
    fillFromJson (registry.toJson agents) key
      (fun s item => (codec.fromJson item).map (add s)) s =
        some ((xs.map codec.reload).foldl add s) := by
  rw [toJson, fillFromJson_ofFields (nodup_fields registry agents), h, codec.foldlM_fromJson]

/-- A loop that adds to the set that `get` and `set` name. -/
theorem fillFromJson_addAll {α κ : Type} [DecidableEq κ] {keyOf : α → κ} (codec : Json.Codec α)
    (key : String) {xs : List α}
    (h : itemsAt (registry.fields agents) key = xs.map codec.toJson)
    (get : MetadataRegistry → KeyedSet keyOf)
    (set : MetadataRegistry → KeyedSet keyOf → MetadataRegistry)
    (hget : ∀ r s, get (set r s) = s) (hset : ∀ r s t, set (set r s) t = set r t)
    (hself : ∀ r, set r (get r) = r) (r : MetadataRegistry) :
    fillFromJson (registry.toJson agents) key
      (fun r item => (codec.fromJson item).map fun x => set r ((get r).add x)) r =
        some (set r ((get r).addAll (xs.map codec.reload))) := by
  rw [fillFromJson_toJson registry agents codec key h]
  exact congrArg some (foldl_field get set KeyedSet.add hget hset hself _ r)

theorem load_pmcInfos (r : MetadataRegistry) :
    fillFromJson (registry.toJson agents) "pmc_infos"
      (fun r item => (Pmc.fromJson item).map r.addPmcInfo) r =
        some { r with pmcInfos := r.pmcInfos.addAll (registry.pmcInfos.entries.map Pmc.reload) } :=
  fillFromJson_addAll registry agents Pmc.codec "pmc_infos" (itemsAt_pmcInfos registry agents)
    (·.pmcInfos) (fun r pmcInfos => { r with pmcInfos }) (fun _ _ => rfl) (fun _ _ _ => rfl)
    (fun _ => rfl) r

theorem load_threads (r : MetadataRegistry) :
    fillFromJson (registry.toJson agents) "threads"
      (fun r item => (Thread.fromJson item).map r.addThreadInfo) r =
        some { r with threads := r.threads.addAll (registry.threads.entries.map Thread.reload) } :=
  fillFromJson_addAll registry agents Thread.codec "threads" (itemsAt_threads registry agents)
    (·.threads) (fun r threads => { r with threads }) (fun _ _ => rfl) (fun _ _ _ => rfl)
    (fun _ => rfl) r

theorem load_tracks (r : MetadataRegistry) :
    fillFromJson (registry.toJson agents) "tracks"
      (fun r item => (Track.fromJson item).map r.addTrack) r =
        some { r with tracks := r.tracks.addAll (registry.tracks.entries.map Track.reload) } :=
  fillFromJson_addAll registry agents Track.codec "tracks" (itemsAt_tracks registry agents)
    (·.tracks) (fun r tracks => { r with tracks }) (fun _ _ => rfl) (fun _ _ _ => rfl)
    (fun _ => rfl) r

theorem load_queues (r : MetadataRegistry) :
    fillFromJson (registry.toJson agents) "queues"
      (fun r item => (handleFromJson item).map r.addQueue) r =
        some { r with queues := r.queues.addAll (registry.queues.entries.map id) } :=
  fillFromJson_addAll registry agents handleCodec "queues" (itemsAt_queues registry agents)
    (·.queues) (fun r queues => { r with queues }) (fun _ _ => rfl) (fun _ _ _ => rfl)
    (fun _ => rfl) r

theorem load_streams (r : MetadataRegistry) :
    fillFromJson (registry.toJson agents) "streams"
      (fun r item => (handleFromJson item).map r.addStream) r =
        some { r with streams := r.streams.addAll (registry.streams.entries.map id) } :=
  fillFromJson_addAll registry agents handleCodec "streams" (itemsAt_streams registry agents)
    (·.streams) (fun r streams => { r with streams }) (fun _ _ => rfl) (fun _ _ _ => rfl)
    (fun _ => rfl) r

theorem load_strings (r : MetadataRegistry) :
    fillFromJson (registry.toJson agents) "strings"
      (fun r item => (item.getString).map r.addString) r =
        some { r with strings := r.strings.addAll (registry.strings.entries.map id) } :=
  fillFromJson_addAll registry agents stringCodec "strings" (itemsAt_strings registry agents)
    (·.strings) (fun r strings => { r with strings }) (fun _ _ => rfl) (fun _ _ _ => rfl)
    (fun _ => rfl) r

theorem load_codeObjects (r : MetadataRegistry) :
    fillFromJson (registry.toJson agents) "code_objects"
      (fun r item => (CodeObject.fromJson item).map r.addCodeObject) r =
        some { r with codeObjects := r.codeObjects.addAll (registry.codeObjects.entries.map id) } :=
  fillFromJson_addAll registry agents CodeObject.codec "code_objects" (itemsAt_codeObjects registry agents)
    (·.codeObjects) (fun r codeObjects => { r with codeObjects }) (fun _ _ => rfl) (fun _ _ _ => rfl)
    (fun _ => rfl) r

theorem load_kernelSymbols (r : MetadataRegistry) :
    fillFromJson (registry.toJson agents) "kernel_symbols"
      (fun r item => (KernelSymbol.fromJson item).map r.addKernelSymbol) r =
        some { r with kernelSymbols := r.kernelSymbols.addAll (registry.kernelSymbols.entries.map id) } :=
  fillFromJson_addAll registry agents KernelSymbol.codec "kernel_symbols" (itemsAt_kernelSymbols registry agents)
    (·.kernelSymbols) (fun r kernelSymbols => { r with kernelSymbols }) (fun _ _ => rfl) (fun _ _ _ => rfl)
    (fun _ => rfl) r

/-- The registry that is loaded. -/
def reload : MetadataRegistry where
  process := registry.process
  pmcInfos := KeyedSet.addAll ∅ (registry.pmcInfos.entries.map Pmc.reload)
  threads := KeyedSet.addAll ∅ (registry.threads.entries.map Thread.reload)
  tracks := KeyedSet.addAll ∅ (registry.tracks.entries.map Track.reload)
  streams := KeyedSet.addAll ∅ (registry.streams.entries.map id)
  queues := KeyedSet.addAll ∅ (registry.queues.entries.map id)
  strings := KeyedSet.addAll ∅ (registry.strings.entries.map id)
  codeObjects := KeyedSet.addAll ∅ (registry.codeObjects.entries.map id)
  kernelSymbols := KeyedSet.addAll ∅ (registry.kernelSymbols.entries.map id)

theorem load_process :
    (registry.toJson agents).field "process" Process.fromJson = some registry.process := by
  have hlookup : (registry.fields agents).lookup "process" = some registry.process.toJson := by
    simp only [fields, List.cons_append, Json.lookup_cons, if_true]
  rw [toJson, Json.field_ofFields (nodup_fields registry agents), hlookup, Option.bind_some,
    Process.fromJson_toJson]

theorem load_agents :
    fillFromJson (registry.toJson agents) "agents"
      (fun agents item => (Agent.fromJson item).map fun agent => agents ++ [some agent]) [] =
        some (((presentAgents agents).map Agent.reload).map some) := by
  have happend (loaded : List Agent) (made : Agents) :
      loaded.foldl (fun agents agent => agents ++ [some agent]) made = made ++ loaded.map some := by
    induction loaded generalizing made with
    | nil => rw [List.map_nil, List.append_nil, List.foldl_nil]
    | cons agent loaded ih => rw [List.foldl_cons, ih, List.map_cons, List.append_assoc]; rfl
  rw [← List.nil_append (List.map some _), ← happend]
  exact fillFromJson_toJson registry agents Agent.codec "agents" (itemsAt_agents registry agents) _ []

theorem fromJson_toJson : empty.fromJson (registry.toJson agents) =
    some (registry.reload, ((presentAgents agents).map Agent.reload).map some) := by
  simp only [fromJson, load_process, load_pmcInfos, load_threads, load_tracks, load_queues,
    load_streams, load_strings, load_codeObjects, load_kernelSymbols, load_agents,
    Option.bind_eq_bind, Option.bind_some]
  rfl

/-- The strings that are saved. -/
def texts : List Bytes :=
  registry.process.texts ++ registry.pmcInfos.entries.flatMap Pmc.texts ++
    registry.threads.entries.flatMap Thread.texts ++
    registry.tracks.entries.flatMap Track.texts ++ registry.strings.entries ++
    registry.codeObjects.entries.flatMap CodeObject.texts ++
    registry.kernelSymbols.entries.flatMap KernelSymbol.texts ++
    (presentAgents agents).flatMap Agent.texts

theorem mentions_toJson (bytes : Bytes) :
    Json.Mentions bytes (registry.toJson agents) ↔ bytes ∈ registry.texts agents := by
  have hhandles (handles : List UInt64) :
      Json.Mentions bytes (.array (handles.map handleToJson)) ↔ False := by
    simp [Json.mentions_array, mentions_handleToJson]
  have hstrings : Json.Mentions bytes (.array (registry.strings.entries.map Json.string)) ↔
      bytes ∈ registry.strings.entries := by
    simp [Json.mentions_array]
  rw [toJson, Json.mentions_ofFields (nodup_fields registry agents)]
  simp only [fields, texts, List.mem_append, or_and_right, exists_or, mentions_pushBackAll,
    List.exists_mem_cons_iff, List.not_mem_nil, false_and, exists_false, or_false, or_assoc,
    false_or, Process.mentions_toJson, hhandles, hstrings]
  exact Iff.rfl.or ((Pmc.codec.mentions_array _).or ((Thread.codec.mentions_array _).or
    ((Track.codec.mentions_array _).or (Iff.rfl.or ((CodeObject.codec.mentions_array _).or
      ((KernelSymbol.codec.mentions_array _).or (Agent.codec.mentions_array _)))))))

/-- The two registries have the same entries. -/
structure Same (a b : MetadataRegistry) : Prop where
  process : a.process = b.process
  pmcInfos : a.pmcInfos.Same b.pmcInfos
  threads : a.threads.Same b.threads
  tracks : a.tracks.Same b.tracks
  streams : a.streams.Same b.streams
  queues : a.queues.Same b.queues
  strings : a.strings.Same b.strings
  codeObjects : a.codeObjects.Same b.codeObjects
  kernelSymbols : a.kernelSymbols.Same b.kernelSymbols

/-- Every entry and agent survives being saved: its strings are UTF-8, its 64-bit
indices and ids are `int` values, and the agents carry nothing that is not saved. -/
structure Portable (registry : MetadataRegistry) (agents : Agents) : Prop where
  texts : ∀ bytes ∈ registry.texts agents, IsUtf8 bytes
  pmcInfos : ∀ pmc ∈ registry.pmcInfos,
    FitsInt pmc.agentTypeIndex ∧ FitsInt pmc.eventCode ∧ FitsInt pmc.instanceId
  threads : ∀ thread ∈ registry.threads, FitsInt thread.threadId
  tracks : ∀ track ∈ registry.tracks, ∀ threadId ∈ track.threadId, FitsInt threadId
  agents : ∀ agent ∈ presentAgents agents, FitsInt agent.deviceId ∧
    FitsInt agent.deviceTypeIndex ∧ agent.baseId = 0 ∧ agent.agentInfo = []

theorem reload_same_iff : registry.reload.Same registry ↔
    (∀ pmc ∈ registry.pmcInfos,
      FitsInt pmc.agentTypeIndex ∧ FitsInt pmc.eventCode ∧ FitsInt pmc.instanceId) ∧
    (∀ thread ∈ registry.threads, FitsInt thread.threadId) ∧
    ∀ track ∈ registry.tracks, ∀ threadId ∈ track.threadId, FitsInt threadId := by
  have hpmcs : registry.reload.pmcInfos.Same registry.pmcInfos ↔ _ :=
    KeyedSet.same_addAll_map_iff Pmc.reload_reload registry.pmcInfos
  have hthreads : registry.reload.threads.Same registry.threads ↔ _ :=
    KeyedSet.same_addAll_map_iff Thread.reload_reload registry.threads
  have htracks : registry.reload.tracks.Same registry.tracks ↔ _ :=
    KeyedSet.same_addAll_map_iff Track.reload_reload registry.tracks
  simp only [Pmc.reload_eq_self_iff] at hpmcs
  simp only [Thread.reload_eq_self_iff] at hthreads
  simp only [Track.reload_eq_self_iff] at htracks
  constructor
  · intro h
    exact ⟨hpmcs.mp h.pmcInfos, hthreads.mp h.threads, htracks.mp h.tracks⟩
  · intro h
    obtain ⟨hp, ht, hk⟩ := h
    have hid {α κ : Type} [DecidableEq κ] {key : α → κ} (s : KeyedSet key) :
        (KeyedSet.addAll ∅ (s.entries.map id)).Same s :=
      (KeyedSet.same_addAll_map_iff (fun _ => rfl) s).mpr fun _ _ => rfl
    exact ⟨rfl, hpmcs.mpr hp, hthreads.mpr ht, htracks.mpr hk, hid _, hid _, hid _, hid _, hid _⟩

theorem reload_agents_iff :
    presentAgents (((presentAgents agents).map Agent.reload).map some) = presentAgents agents ↔
      ∀ agent ∈ presentAgents agents, FitsInt agent.deviceId ∧ FitsInt agent.deviceTypeIndex ∧
        agent.baseId = 0 ∧ agent.agentInfo = [] := by
  have hsome (loaded : List Agent) : presentAgents (loaded.map some) = loaded := by
    simp [presentAgents]
  have hid : (presentAgents agents).map Agent.reload = (presentAgents agents).map id ↔ _ :=
    List.map_inj_left
  rw [List.map_id] at hid
  rw [hsome, hid]
  simp only [id, Agent.reload_eq_self_iff]

/-- Loading what was saved gives the same entries and the same agents, null pointers
apart. -/
def RoundTrips (dump : Json → Option Bytes) (parse : Bytes → Option Json)
    (registry : MetadataRegistry) (agents : Agents) : Prop :=
  ∃ text loaded loadedAgents, registry.saveToFile dump agents = some text ∧
    empty.loadFromFile parse text = some (loaded, loadedAgents) ∧ loaded.Same registry ∧
    presentAgents loadedAgents = presentAgents agents

theorem validText_toJson : (registry.toJson agents).ValidText ↔
    ∀ bytes ∈ registry.texts agents, IsUtf8 bytes := by
  simp only [Json.ValidText, mentions_toJson]

section Library

/-! The JSON library throws when a string is not UTF-8, and reads back what it wrote. -/

variable {dump : Json → Option Bytes} {parse : Bytes → Option Json}
  {registry : MetadataRegistry} {agents : Agents}
  (hdump : (dump (registry.toJson agents)).isSome ↔ (registry.toJson agents).ValidText)
  (hparse : ∀ text, dump (registry.toJson agents) = some text →
    parse text = some (registry.toJson agents))

include hdump hparse

theorem portable_of_roundTrips (h : RoundTrips dump parse registry agents) :
    registry.Portable agents := by
  obtain ⟨text, loaded, loadedAgents, hsave, hload, hsame, hagents⟩ := h
  have hdumped : dump (registry.toJson agents) = some text := hsave
  have hsome : (dump (registry.toJson agents)).isSome := by
    rw [hdumped]
    rfl
  rw [loadFromFile, hparse text hdumped, Option.bind_some, fromJson_toJson, Option.some.injEq,
    Prod.mk.injEq] at hload
  obtain ⟨rfl, rfl⟩ := hload
  obtain ⟨hpmcs, hthreads, htracks⟩ := (reload_same_iff registry).mp hsame
  exact ⟨(validText_toJson registry agents).mp (hdump.mp hsome), hpmcs, hthreads, htracks,
    (reload_agents_iff agents).mp hagents⟩

theorem roundTrips_of_portable (h : registry.Portable agents) :
    RoundTrips dump parse registry agents := by
  obtain ⟨text, hdumped⟩ : ∃ text, dump (registry.toJson agents) = some text :=
    Option.isSome_iff_exists.mp (hdump.mpr ((validText_toJson registry agents).mpr h.texts))
  refine ⟨text, registry.reload, ((presentAgents agents).map Agent.reload).map some, hdumped, ?_,
    (reload_same_iff registry).mpr ⟨h.pmcInfos, h.threads, h.tracks⟩,
    (reload_agents_iff agents).mpr h.agents⟩
  rw [loadFromFile, hparse text hdumped, Option.bind_some, fromJson_toJson]

/-- The text of a registry exists exactly when its strings are UTF-8, and loading it
gives back the entries exactly when none of them is changed by the casts. -/
theorem roundTrips_iff : RoundTrips dump parse registry agents ↔ registry.Portable agents :=
  ⟨portable_of_roundTrips hdump hparse, roundTrips_of_portable hdump hparse⟩

end Library

/-! One thread in a registry, and the text that is saved of it. -/

def oneThread (threadId : UInt64) : MetadataRegistry :=
  { empty with threads := ⟨[⟨1, 7, threadId, 0, 0, []⟩], List.nodup_singleton _⟩ }

def oneThreadText (threadId : String) : Bytes :=
  ("\x7b\"code_objects\":[],\"kernel_symbols\":[],\"pmc_infos\":[],\"process\":\x7b\"command\":\"\"," ++
    "\"end\":0,\"pid\":0,\"ppid\":0,\"start\":0\x7d,\"threads\":[\x7b\"end\":0,\"extdata\":\"\"," ++
    "\"parent_process_id\":1,\"process_id\":7,\"start\":0,\"thread_id\":" ++ threadId ++
    "\x7d],\"tracks\":[]\x7d").toUTF8.toList

/-- `dump` and `parse` on this document. -/
def oneThreadDump (saved : String) : Json → Option Bytes := fun _ => some (oneThreadText saved)

def oneThreadParse (saved : String) (threadId : UInt64) : Bytes → Option Json := fun text =>
  if text = oneThreadText saved then some ((oneThread threadId).toJson []) else none

theorem isUtf8_of_mem_texts_oneThread (threadId : UInt64) :
    ∀ bytes ∈ (oneThread threadId).texts [], IsUtf8 bytes := by
  intro bytes h
  have hnil : bytes = [] := by
    simpa [texts, oneThread, empty, Process.texts, Thread.texts, KeyedSet.entries_empty,
      presentAgents] using h
  rw [hnil]
  exact isUtf8_nil

theorem isSome_oneThreadDump (saved : String) (threadId : UInt64) :
    (oneThreadDump saved ((oneThread threadId).toJson [])).isSome ↔
      ((oneThread threadId).toJson []).ValidText := by
  rw [validText_toJson]
  exact iff_of_true rfl (isUtf8_of_mem_texts_oneThread threadId)

theorem oneThreadParse_of_dump (saved : String) (threadId : UInt64) (text : Bytes)
    (h : oneThreadDump saved ((oneThread threadId).toJson []) = some text) :
    oneThreadParse saved threadId text = some ((oneThread threadId).toJson []) := by
  rw [oneThreadParse, if_pos (Option.some.inj h).symm]

theorem roundTrips_oneThread :
    RoundTrips (oneThreadDump "42") (oneThreadParse "42" 42) (oneThread 42) [] := by
  refine (roundTrips_iff (isSome_oneThreadDump "42" 42) (oneThreadParse_of_dump "42" 42)).mpr
    ⟨isUtf8_of_mem_texts_oneThread 42, nofun, ?_, nofun, nofun⟩
  intro thread hthread
  rw [List.mem_singleton.mp hthread]
  exact Or.inl (by decide)

/-- A thread id of `2 ^ 32` is saved as `0`. -/
theorem not_roundTrips_wideThread : ¬∀ (dump : Json → Option Bytes) (parse : Bytes → Option Json)
    (registry : MetadataRegistry) (agents : Agents),
    ((dump (registry.toJson agents)).isSome ↔ (registry.toJson agents).ValidText) →
    (∀ text, dump (registry.toJson agents) = some text →
      parse text = some (registry.toJson agents)) →
    RoundTrips dump parse registry agents := by
  intro h
  have hdump := isSome_oneThreadDump "0" (2 ^ 32)
  have hparse := oneThreadParse_of_dump "0" (2 ^ 32)
  have hportable := portable_of_roundTrips hdump hparse (h _ _ _ _ hdump hparse)
  have hfits : FitsInt (2 ^ 32) := hportable.threads _ List.mem_cons_self
  revert hfits
  unfold FitsInt
  decide

end MetadataRegistry

end TraceCache
end Rocprofsys
