import Rocprofsys.Rocpd.ProcessorState

namespace Rocprofsys
namespace Rocpd

open Base Base.Fallible
open TraceCache (Bytes MetadataRegistry)

/-! ## Loops over the metadata -/

def Listed.addAll (listed : Listed) (table : Table) (ids : List Nat) : Listed :=
  { listed with ids := fun t => if t = table then listed.ids t ++ ids else listed.ids t }

theorem addAll_ids_self (listed : Listed) (table : Table) (ids : List Nat) :
    (listed.addAll table ids).ids table = listed.ids table ++ ids := if_pos rfl

theorem addAll_ids_of_ne (listed : Listed) {table t : Table} (h : t ≠ table) (ids : List Nat) :
    (listed.addAll table ids).ids t = listed.ids t := if_neg h

theorem addAll_nil (listed : Listed) (table : Table) : listed.addAll table [] = listed := by
  have hids : (fun t => if t = table then listed.ids t ++ [] else listed.ids t) = listed.ids := by
    funext t
    split
    · exact List.append_nil _
    · rfl
  unfold Listed.addAll
  rw [hids]

theorem add_addAll (listed : Listed) (table : Table) (ids : List Nat) (id : Nat) :
    (listed.addAll table ids).add table id = listed.addAll table (ids ++ [id]) := by
  unfold Listed.add Listed.addAll
  congr 1
  funext t
  split
  · next h =>
    show (if t = table then listed.ids t ++ ids else listed.ids t) ++ [id] = _
    rw [if_pos h, List.append_assoc]
  · next h => exact if_neg h

theorem forall_split_iff {α : Type} {p : α → Prop} {items : List α} :
    (∀ done a behind, items = done ++ a :: behind → p a) ↔ ∀ a ∈ items, p a := by
  constructor
  · intro h a ha
    obtain ⟨done, behind, hsplit⟩ := List.append_of_mem ha
    exact h done a behind hsplit
  · intro h done a behind hsplit
    refine h a ?_
    rw [hsplit]
    exact List.mem_append_right _ List.mem_cons_self

section Loops

variable {α : Type} {body : α → Inserting Unit} {allowedAt : α → Prop} {items : List α}
  {listed : Listed} {held : List (Table × Nat)} {d : DataProcessor}

theorem finishes_each_same (h : Ready listed held d)
    (hbody : ∀ a t, Ready listed held t →
      Finishes (body a) t (allowedAt a) fun _ t => Ready listed held t) :
    Finishes (each body items) d (∀ a ∈ items, allowedAt a) fun _ t => Ready listed held t :=
  (@finishes_each DataProcessor α body items (fun _ => allowedAt) (fun _ t => Ready listed held t)
    [] d h fun _ a _ t _ ht => hbody a t ht).congr forall_split_iff

theorem finishes_each_always (h : Ready listed held d)
    (hbody : ∀ a t, Ready listed held t →
      Finishes (body a) t True fun _ t => Ready listed held t) :
    Finishes (each body items) d True fun _ t => Ready listed held t :=
  (finishes_each_same h hbody).congr ⟨fun _ => trivial, fun _ _ _ => trivial⟩

/-- A loop that lists one id with each item. -/
theorem finishes_each_add (h : Ready listed held d) (table : Table) (id : α → Nat)
    (hnone : listed.ids table = []) (hnodup : (items.map id).Nodup)
    (hbody : ∀ listed' a t, Ready listed' held t → id a ∉ listed'.ids table →
      (∀ t, t ≠ table → listed'.ids t = listed.ids t) →
        Finishes (body a) t (allowedAt a) fun _ t => Ready (listed'.add table (id a)) held t) :
    Finishes (each body items) d (∀ a ∈ items, allowedAt a)
      fun _ t => Ready (listed.addAll table (items.map id)) held t := by
  refine (@finishes_each DataProcessor α body items (fun _ => allowedAt)
    (fun done t => Ready (listed.addAll table (done.map id)) held t) [] d ?_
    fun done a behind t hsplit ht => ?_).congr forall_split_iff
  · rw [List.map_nil, addAll_nil]
    exact h
  · have hfresh : id a ∉ (listed.addAll table (done.map id)).ids table := by
      rw [addAll_ids_self, hnone, List.nil_append]
      rw [List.nil_append] at hsplit
      rw [hsplit, List.map_append, List.map_cons] at hnodup
      exact fun hmem => (List.nodup_append.mp hnodup).2.2 _ hmem _ List.mem_cons_self rfl
    have hone := hbody _ a t ht hfresh fun t ht => addAll_ids_of_ne listed ht _
    rw [add_addAll] at hone
    rw [List.map_append, List.map_singleton]
    exact hone

end Loops

/-! ## Agents -/

theorem isSome_baseIdOf {stored : StoredAgents} {agents : List TraceCache.Agent}
    (h : stored.map Prod.fst = agents) (is : TraceCache.Agent → Bool) :
    (stored.baseIdOf is).isSome = true ↔ ∃ agent ∈ agents, is agent = true := by
  rw [StoredAgents.baseIdOf, Option.isSome_map, List.find?_isSome, ← h]
  simp only [List.mem_map, exists_exists_and_eq_and]

theorem of_find_pmcAgent {stored : StoredAgents} {pmc : TraceCache.Pmc}
    {entry : TraceCache.Agent × Nat}
    (h : (stored.find? fun entry => entry.1.type == pmc.type &&
      entry.1.deviceTypeIndex == pmc.agentTypeIndex) = some entry) :
    entry.1.type = pmc.type ∧ entry.1.deviceTypeIndex = pmc.agentTypeIndex := by
  have hfound := List.find?_some h
  simp only [Bool.and_eq_true, beq_iff_eq] at hfound
  exact hfound

/-- Two descriptions are of one counter exactly if they name the same agent and the same text. -/
theorem pmcIdentifier_eq_iff {stored : StoredAgents} (hnodup : (stored.map Prod.snd).Nodup)
    {p q : TraceCache.Pmc} {identifier : PmcIdentifier} (h : pmcIdentifier stored p = some identifier) :
    pmcIdentifier stored q = some identifier ↔
      q.type = p.type ∧ q.agentTypeIndex = p.agentTypeIndex ∧ cStr q.name = cStr p.name := by
  obtain ⟨id, hid, rfl⟩ := Option.map_eq_some_iff.mp h
  obtain ⟨entry, hentry, hentryId⟩ := Option.map_eq_some_iff.mp hid
  obtain ⟨hptype, hpindex⟩ := of_find_pmcAgent hentry
  constructor
  · intro hq
    obtain ⟨id', hid', heq⟩ := Option.map_eq_some_iff.mp hq
    injection heq with hsame hname
    subst hsame
    obtain ⟨entry', hentry', hentryId'⟩ := Option.map_eq_some_iff.mp hid'
    obtain ⟨hqtype, hqindex⟩ := of_find_pmcAgent hentry'
    have hentries : entry' = entry := List.inj_on_of_nodup_map hnodup
      (List.mem_of_find?_eq_some hentry') (List.mem_of_find?_eq_some hentry)
      (hentryId'.trans hentryId.symm)
    rw [hentries] at hqtype hqindex
    exact ⟨hqtype.symm.trans hptype, hqindex.symm.trans hpindex, hname⟩
  · intro hsame
    rw [pmcIdentifier, hsame.1, hsame.2.1, hsame.2.2]
    exact h

/-! ## The metadata -/

/-- What the inserts find of a registry. -/
def listedOf (registry : MetadataRegistry) (stored : StoredAgents) : Listed where
  ids
    | .thread => registry.threads.entries.map fun thread => thread.threadId.toNat
    | .codeObject => registry.codeObjects.entries.map fun object => object.codeObjectId.toNat
    | .kernelSymbol => registry.kernelSymbols.entries.map fun symbol => symbol.kernelId.toNat
    | .queue => registry.queues.entries.map UInt64.toNat
    | .stream => registry.streams.entries.map UInt64.toNat
    | _ => []
  pmcs := registry.pmcInfos.entries.flatMap fun pmc => (pmcIdentifier stored pmc).toList

/-- A description passes its checks, or one of the same counter came before it. -/
def Described (before : List TraceCache.Pmc) (pmc : TraceCache.Pmc) : Prop :=
  pmcPasses pmc = true ∨ ∃ p ∈ before, p.type = pmc.type ∧
    p.agentTypeIndex = pmc.agentTypeIndex ∧ cStr p.name = cStr pmc.name

/-- What a registry refers to is there, and what it says passes the checks of the tables. -/
structure MetadataFits (host : Host) (registry : MetadataRegistry)
    (agents : List TraceCache.Agent) : Prop where
  tracks : ∀ track ∈ registry.tracks.entries, ∀ threadId ∈ track.threadId,
    threadId ∈ registry.threads.entries.map TraceCache.Thread.threadId
  codeObjects : ∀ object ∈ registry.codeObjects.entries,
    (∃ agent ∈ agents, agent.handle = object.agentIdHandle) ∧
      (object.storageType = host.fileStorage ∨ object.storageType = host.memoryStorage)
  kernelSymbols : ∀ symbol ∈ registry.kernelSymbols.entries,
    symbol.codeObjectId ∈ registry.codeObjects.entries.map TraceCache.CodeObject.codeObjectId
  pmcInfos : ∀ before pmc behind, registry.pmcInfos.entries = before ++ pmc :: behind →
    (∃ agent ∈ agents, agent.type = pmc.type ∧ agent.deviceTypeIndex = pmc.agentTypeIndex) ∧
      Described before pmc

theorem mem_map_toNat_iff {α : Type} {key : α → UInt64} {items : List α} {n : UInt64} :
    n.toNat ∈ items.map (fun a => (key a).toNat) ↔ n ∈ items.map key := by
  simp only [List.mem_map, UInt64.toNat_inj]

theorem nodup_map_toNat {α : Type} {key : α → UInt64} {items : List α}
    (h : (items.map key).Nodup) : (items.map fun a => (key a).toNat).Nodup := by
  have hmap : (items.map fun a => (key a).toNat) = (items.map key).map UInt64.toNat := by
    rw [List.map_map]
    rfl
  rw [hmap]
  exact h.map fun _ _ heq => UInt64.toNat_inj.mp heq

section Metadata

variable {host : Host} {registry : MetadataRegistry} {listed : Listed} {held : List (Table × Nat)}
  {d : DataProcessor} {stored : StoredAgents}

theorem finishes_insertNode (host : Host) :
    Finishes (inserting' fun d => d.insertNodeInfo host.nodeId host.nodeInfo) .empty True
      fun _ t => Ready ⟨fun _ => [], []⟩ [(.node, host.nodeId)] t ∧
        t.database = [(host.nodeId, .node host.nodeInfo)] := by
  have haccepts : Accepts DataProcessor.empty.database host.nodeId (.node host.nodeInfo) :=
    ⟨List.not_mem_nil, fun _ hr => absurd hr List.not_mem_nil, rfl,
      fun _ he => absurd he List.not_mem_nil⟩
  have hready := ready_empty.cons_of_not_handle haccepts
    (grows_of_unkeyed sound_empty haccepts.primaryKey (fun _ _ => rfl)
      (fun heq => by cases heq)).sound rfl rfl rfl rfl
  refine finishes_inserting_iff.imp ⟨fun _ => trivial, fun _ => hready.consistent⟩
    fun _ t _ hresult => ?_
  rw [hresult]
  exact ⟨hready, rfl⟩

theorem finishes_insertProcess (h : Ready listed held d) {columns : ProcessInfo}
    (hnode : (Table.node, columns.nid) ∈ held)
    (hnew : (Table.process, columns.pid) ∉ d.database.ids Row.table) :
    Finishes (inserting' fun d => d.insertProcessInfo columns) d True
      fun _ t => Ready listed ((.process, columns.pid) :: held) t := by
  have haccepts : Accepts d.database columns.pid (.process columns) := by
    refine ⟨hnew, fun r hr => ?_, rfl, fun _ _ => rfl⟩
    rw [List.mem_singleton.mp hr]
    exact h.held _ hnode
  exact finishes_inserting' (h.cons_of_not_handle haccepts
    (@grows_of_unkeyed d columns.pid (.process columns) h.sound hnew (fun _ _ => rfl)
      (fun heq => by cases heq)).sound rfl rfl rfl rfl)

/-- The loop over the descriptions. -/
theorem finishes_insertPmcInfos (hfresh : FreshRowIds host.rowId) (h : Ready listed held d)
    (howner : ∀ r ∈ owner host.nodeId (pid registry), r ∈ held)
    (hstored : ∀ r ∈ agentIds stored, r ∈ held) (hnodup : (stored.map Prod.snd).Nodup)
    (hnone : listed.pmcs = []) (pmcs : List TraceCache.Pmc) :
    Finishes (each (insertPmcInfo host registry stored) pmcs) d
      (∀ before pmc behind, pmcs = before ++ pmc :: behind →
        (∃ agent ∈ stored.map Prod.fst,
          agent.type = pmc.type ∧ agent.deviceTypeIndex = pmc.agentTypeIndex) ∧
            Described before pmc)
      fun _ t => Ready { listed with
        pmcs := pmcs.flatMap fun pmc => (pmcIdentifier stored pmc).toList } held t := by
  let inv (before : List TraceCache.Pmc) (t : DataProcessor) : Prop := Ready { listed with
    pmcs := before.flatMap fun pmc => (pmcIdentifier stored pmc).toList } held t
  refine @finishes_each DataProcessor TraceCache.Pmc (insertPmcInfo host registry stored) pmcs
    (fun before pmc => (∃ agent ∈ stored.map Prod.fst,
      agent.type = pmc.type ∧ agent.deviceTypeIndex = pmc.agentTypeIndex) ∧ Described before pmc)
    inv [] d ?_ fun before pmc behind t _ ht => ?_
  · cases listed
    cases hnone
    exact h
  · refine (finishes_insertPmcInfo hfresh ht howner hstored pmc).imp ?_ fun _ t _ hready => ?_
    · have hknown := @isSome_baseIdOf stored _ rfl fun agent =>
        agent.type == pmc.type && agent.deviceTypeIndex == pmc.agentTypeIndex
      simp only [Bool.and_eq_true, beq_iff_eq] at hknown
      rw [← hknown]
      constructor
      · intro hex
        obtain ⟨identifier, heq, hor⟩ := hex
        obtain ⟨id, hid, _⟩ := Option.map_eq_some_iff.mp heq
        refine ⟨by rw [hid]; rfl, hor.imp_right fun hmem => ?_⟩
        obtain ⟨p, hp, hmem⟩ := List.mem_flatMap.mp hmem
        exact ⟨p, hp, (pmcIdentifier_eq_iff hnodup heq).mp (Option.mem_toList.mp hmem)⟩
      · intro hboth
        obtain ⟨id, hid⟩ := Option.isSome_iff_exists.mp hboth.1
        have heq := pmcIdentifier_of_baseIdOf hid
        refine ⟨_, heq, hboth.2.imp_right fun hex => ?_⟩
        obtain ⟨p, hp, hsame⟩ := hex
        exact List.mem_flatMap.mpr
          ⟨p, hp, Option.mem_toList.mpr ((pmcIdentifier_eq_iff hnodup heq).mpr hsame)⟩
    · show Ready _ held t
      rw [List.flatMap_append, List.flatMap_singleton]
      exact hready

theorem finishes_insertRegistry (hfresh : FreshRowIds host.rowId)
    (h : Ready ⟨fun _ => [], []⟩ held d)
    (howner : ∀ r ∈ owner host.nodeId (pid registry), r ∈ held)
    (hstored : ∀ r ∈ agentIds stored, r ∈ held) (hnodup : (stored.map Prod.snd).Nodup) :
    Finishes (insertRegistry host registry stored) d
      (MetadataFits host registry (stored.map Prod.fst))
      fun _ t => Ready (listedOf registry stored) held t := by
  have hthreads := nodup_map_toNat registry.threads.nodup
  have hobjects := nodup_map_toNat registry.codeObjects.nodup
  have hsymbols := nodup_map_toNat registry.kernelSymbols.nodup
  have hqueues := nodup_map_toNat registry.queues.nodup
  have hstreams := nodup_map_toNat registry.streams.nodup
  refine ((finishes_each_always h fun str t ht => finishes_insertStringInfo hfresh ht _).bind
    fun _ t _ ht => (finishes_each_add ht .thread _ rfl hthreads fun _ a t ht _ _ =>
      finishes_insertThreadId hfresh ht howner a).bind
    fun _ t _ ht => (finishes_each_same ht fun a t ht =>
      finishes_insertTrackInfo hfresh ht howner a).bind
    fun _ t _ ht => (finishes_each_add ht .codeObject _ rfl hobjects fun _ a t ht hnew _ =>
      finishes_insertCodeObjectInfo ht howner hstored hnew).bind
    fun _ t _ ht => (finishes_each_add ht .kernelSymbol _ rfl hsymbols fun _ a t ht hnew hsame =>
      (finishes_insertKernelSymbolInfo hfresh ht howner hnew).congr
        (by rw [hsame .codeObject fun heq => by cases heq])).bind
    fun _ t _ ht => (finishes_each_add ht .queue _ rfl hqueues fun _ a t ht hnew _ =>
      finishes_insertQueueInfo ht howner hnew).bind
    fun _ t _ ht => (finishes_each_add ht .stream _ rfl hstreams fun _ a t ht hnew _ =>
      finishes_insertStreamInfo ht howner hnew).bind
    fun _ t _ ht => (finishes_each_always ht fun str t ht =>
      finishes_insertStringInfo hfresh ht str).bind
    fun _ t _ ht => (finishes_each_always ht fun str t ht =>
      finishes_insertStringInfo hfresh ht str).bind
    fun _ t _ ht => finishes_insertPmcInfos hfresh ht howner hstored hnodup rfl _).imp ?_ ?_
  · have hcode (object : TraceCache.CodeObject) :=
      @isSome_baseIdOf stored _ rfl fun agent => agent.handle == object.agentIdHandle
    simp only [beq_iff_eq] at hcode
    simp only [hcode, addAll_ids_self, List.nil_append, mem_map_toNat_iff, true_and,
      implies_true]
    constructor
    · intro hall
      refine ⟨hall.1, hall.2.1, fun symbol hsymbol => ?_, hall.2.2.2⟩
      have hmem := hall.2.2.1 symbol hsymbol
      rw [addAll_ids_of_ne _ fun heq => by cases heq] at hmem
      exact mem_map_toNat_iff.mp hmem
    · intro hfits
      refine ⟨hfits.tracks, hfits.codeObjects, fun symbol hsymbol => ?_, hfits.pmcInfos⟩
      rw [addAll_ids_of_ne _ fun heq => by cases heq]
      exact mem_map_toNat_iff.mpr (hfits.kernelSymbols symbol hsymbol)
  · intro _ t _ ht
    refine (congrArg (Ready · held t) ?_).mp ht
    unfold listedOf
    congr 1
    funext table
    cases table <;> rfl

/-- The process and the node, whose rows most rows refer to. -/
def ownerHeld (host : Host) (registry : MetadataRegistry) : List (Table × Nat) :=
  [(.process, pid registry), (.node, host.nodeId)]

theorem mem_ownerHeld {r : Table × Nat} (hr : r ∈ owner host.nodeId (pid registry)) :
    r ∈ ownerHeld host registry := List.mem_reverse.mp hr

/-- What the metadata leaves for the samples. -/
structure Prepared (host : Host) (registry : MetadataRegistry) (agents : List TraceCache.Agent)
    (stored : StoredAgents) (d : DataProcessor) : Prop where
  agents : stored.map Prod.fst = agents
  ready : Ready (listedOf registry stored) (agentIds stored ++ ownerHeld host registry) d

theorem finishes_loops (hfresh : FreshRowIds host.rowId) {agents : List TraceCache.Agent}
    {t : DataProcessor}
    (ht : Ready ⟨fun _ => [], []⟩ (agentIds stored ++ ownerHeld host registry) t)
    (hstores : Stores agents d stored) :
    Finishes (do
        insertRegistry host registry stored
        return stored) t (MetadataFits host registry agents) (Prepared host registry agents) := by
  rw [← hstores.agents]
  refine ((finishes_insertRegistry hfresh ht
    (fun r hr => List.mem_append_right _ (mem_ownerHeld hr))
    (fun r hr => List.mem_append_left _ hr) hstores.nodup).bind fun _ t' _ ht' =>
      finishes_pure ?_).congr (and_iff_left trivial)
  exact ⟨rfl, ht'⟩

theorem finishes_postProcessMetadata (hfresh : FreshRowIds host.rowId)
    (agents : List TraceCache.Agent) :
    Finishes (postProcessMetadata host registry agents) .empty (MetadataFits host registry agents)
      (Prepared host registry agents) := by
  refine ((finishes_insertNode host).bind fun _ t _ hnode => ?_).congr (and_iff_right trivial)
  have hnew : (Table.process, pid registry) ∉ t.database.ids Row.table := by
    rw [hnode.2]
    exact fun hmem => by cases List.mem_singleton.mp hmem
  refine ((@finishes_insertProcess _ _ t hnode.1 (processColumns host registry)
    List.mem_cons_self hnew).bind fun _ t _ hprocess => ?_).congr (and_iff_right trivial)
  refine ((finishes_insertAgents hfresh hprocess (fun r hr => mem_ownerHeld hr) 0 agents).bind
    fun stored t _ ht => ?_).congr (and_iff_right trivial)
  exact finishes_loops hfresh ht.1 ht.2

end Metadata

end Rocpd
end Rocprofsys
