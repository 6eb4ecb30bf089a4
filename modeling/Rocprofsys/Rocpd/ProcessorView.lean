import Rocprofsys.Rocpd.SampleIntegrity

namespace Rocprofsys
namespace Rocpd

open Base Base.Fallible
open TraceCache (Bytes MetadataRegistry)

/-! ## Rows of samples -/

/-- The tables that only samples fill, but for those of tracks and counters. -/
def Row.isSampled : Row → Bool
  | .arg _ => true
  | .region _ => true
  | .kernelDispatch _ => true
  | .memoryCopy _ => true
  | .memoryAllocate _ => true
  | _ => false

/-- Their rows, oldest first. -/
def sampledRows (db : Database) : List Row :=
  ((db.map Prod.snd).filter Row.isSampled).reverse

theorem sampledRows_cons (id : Nat) (row : Row) (db : Database) :
    sampledRows ((id, row) :: db) = sampledRows db ++ if row.isSampled then [row] else [] := by
  unfold sampledRows
  rw [List.map_cons, List.filter_cons]
  cases row.isSampled with
  | false => exact (List.append_nil _).symm
  | true => exact List.reverse_cons

/-! ## What a row says through its references -/

section Shows

variable (host : Host) (registry : MetadataRegistry) (agents : List TraceCache.Agent)
  (db : Database)

def ShowsThread (id : Nat) (threadId : UInt64) : Prop :=
  ∃ columns : ThreadInfo, (id, .thread columns) ∈ db ∧ columns.tid = threadId.toNat

/-- The first agent of the handle, with its place among the agents. -/
def ShowsAgent (id : Nat) (handle : UInt64) : Prop :=
  ∃ counter agent, agents[counter]? = some agent ∧
    agents.find? (fun agent => agent.handle == handle) = some agent ∧
      (id, .agent (agentColumns host registry counter agent)) ∈ db

/-- An event with the text of its category. -/
def ShowsEvent (id : Nat) (category : Bytes) (columns : Nat → Event) : Prop :=
  ∃ categoryId, (categoryId, .string category) ∈ db ∧ (id, .event (columns categoryId)) ∈ db

/-- The rows of a sample say what the sample says. -/
def Shows : TraceCache.Sample → List Row → Prop
  | .kernelDispatch kds, rows =>
    ∃ thread agent name event symbol, ShowsThread db thread kds.threadId ∧
      ShowsAgent host registry agents db agent kds.agentIdHandle ∧
        registry.kernelSymbols.entries.find? (fun s => s.kernelId == kds.kernelId) = some symbol ∧
          (name, .string (cStr (host.demangle symbol.kernelName.bytes))) ∈ db ∧
            ShowsEvent db event (text "rocm_kernel_dispatch") (fun categoryId =>
              ⟨categoryId, kds.correlationIdInternal.toNat, kds.correlationIdAncestor.toNat, 0,
                noData, noData, noData⟩) ∧
              rows = [.kernelDispatch (dispatchColumns host registry kds thread agent name event)]
  | .scratchMemory sms, rows =>
    ∃ name thread agent event, host.nameAt sms.kind sms.operation = some name ∧
      ShowsThread db thread sms.threadId ∧
        ShowsAgent host registry agents db agent sms.agentIdHandle ∧
          ShowsEvent db event (text "rocm_scratch_memory") (fun categoryId =>
            ⟨categoryId, sms.correlationIdInternal.toNat, sms.correlationIdAncestor.toNat, 0,
              noData, noData, noData⟩) ∧
            rows = [.memoryAllocate (scratchColumns host registry sms name thread agent event)]
  | .memoryCopy mcs, rows =>
    ∃ name nameId thread dst src event, host.nameAt mcs.kind mcs.operation = some name ∧
      (nameId, .string name) ∈ db ∧ ShowsThread db thread mcs.threadId ∧
        ShowsAgent host registry agents db dst mcs.dstAgentIdHandle ∧
          ShowsAgent host registry agents db src mcs.srcAgentIdHandle ∧
            ShowsEvent db event (text "rocm_memory_copy") (fun categoryId =>
              ⟨categoryId, mcs.correlationIdInternal.toNat, mcs.correlationIdAncestor.toNat, 0,
                noData, noData, noData⟩) ∧
              rows = [.memoryCopy (copyColumns host registry mcs thread nameId dst src event)]
  | .memoryAllocate mas, rows =>
    mas.agentIdHandle = host.invalidContext ∧ rows = [] ∨
      mas.agentIdHandle ≠ host.invalidContext ∧ ∃ name thread agent event,
        host.nameAt mas.kind mas.operation = some name ∧ ShowsThread db thread mas.threadId ∧
          ShowsAgent host registry agents db agent mas.agentIdHandle ∧
            ShowsEvent db event (text "rocm_memory_allocate") (fun categoryId =>
              ⟨categoryId, mas.correlationIdInternal.toNat, mas.correlationIdAncestor.toNat, 0,
                noData, noData, noData⟩) ∧
              rows = [.memoryAllocate (allocateColumns host registry mas name thread agent event)]
  | .region rs, rows =>
    ∃ thread name event args, ShowsThread db thread rs.threadId ∧
      (name, .string (cStr rs.name)) ∈ db ∧
        ShowsEvent db event (cStr rs.category) (fun categoryId =>
          ⟨categoryId, rs.correlationIdInternal.toNat, rs.correlationIdAncestor.toNat, 0,
            cStr rs.callStack, noData, noData⟩) ∧
          TraceCache.processArgumentsString rs.argsStr = .ok args ∧
            rows = args.map (fun arg => .arg (argColumns event arg)) ++
              [.region (regionColumns host registry thread rs.startTimestamp.toNat
                rs.endTimestamp.toNat name event)]
  | .backtraceRegion bts, rows =>
    ∃ thread name event, ShowsThread db thread bts.threadId ∧
      (name, .string (cStr bts.name)) ∈ db ∧
        ShowsEvent db event (cStr bts.category) (fun categoryId =>
          ⟨categoryId, 0, 0, 0, cStr bts.callStack, cStr bts.lineInfo, cStr bts.extdata⟩) ∧
          rows = [.region (regionColumns host registry thread bts.startTimestamp.toNat
            bts.endTimestamp.toNat name event)]
  | _, rows => rows = []

end Shows

section Mono

variable {host : Host} {registry : MetadataRegistry} {agents : List TraceCache.Agent}
  {db db' : Database} (hsub : ∀ e ∈ db, e ∈ db')

include hsub

theorem ShowsThread.mono {id : Nat} {threadId : UInt64} (h : ShowsThread db id threadId) :
    ShowsThread db' id threadId := by
  obtain ⟨columns, hmem, htid⟩ := h
  exact ⟨columns, hsub _ hmem, htid⟩

theorem ShowsAgent.mono {id : Nat} {handle : UInt64}
    (h : ShowsAgent host registry agents db id handle) :
    ShowsAgent host registry agents db' id handle := by
  obtain ⟨counter, agent, hplace, hfind, hmem⟩ := h
  exact ⟨counter, agent, hplace, hfind, hsub _ hmem⟩

theorem ShowsEvent.mono {id : Nat} {category : Bytes} {columns : Nat → Event}
    (h : ShowsEvent db id category columns) : ShowsEvent db' id category columns := by
  obtain ⟨categoryId, hcategory, hmem⟩ := h
  exact ⟨categoryId, hsub _ hcategory, hsub _ hmem⟩

/-- Rows that come later take nothing back. -/
theorem Shows.mono {sample : TraceCache.Sample} {rows : List Row}
    (h : Shows host registry agents db sample rows) :
    Shows host registry agents db' sample rows := by
  cases sample with
  | kernelDispatch kds =>
    obtain ⟨thread, agent, name, event, symbol, h1, h2, h3, h4, h5, h6⟩ := h
    exact ⟨thread, agent, name, event, symbol, h1.mono hsub, h2.mono hsub, h3, hsub _ h4,
      h5.mono hsub, h6⟩
  | scratchMemory sms =>
    obtain ⟨name, thread, agent, event, h1, h2, h3, h4, h5⟩ := h
    exact ⟨name, thread, agent, event, h1, h2.mono hsub, h3.mono hsub, h4.mono hsub, h5⟩
  | memoryCopy mcs =>
    obtain ⟨name, nameId, thread, dst, src, event, h1, h2, h3, h4, h5, h6, h7⟩ := h
    exact ⟨name, nameId, thread, dst, src, event, h1, hsub _ h2, h3.mono hsub, h4.mono hsub,
      h5.mono hsub, h6.mono hsub, h7⟩
  | memoryAllocate mas =>
    refine h.imp_right fun h => ⟨h.1, ?_⟩
    obtain ⟨name, thread, agent, event, h1, h2, h3, h4, h5⟩ := h.2
    exact ⟨name, thread, agent, event, h1, h2.mono hsub, h3.mono hsub, h4.mono hsub, h5⟩
  | region rs =>
    obtain ⟨thread, name, event, args, h1, h2, h3, h4, h5⟩ := h
    exact ⟨thread, name, event, args, h1.mono hsub, hsub _ h2, h3.mono hsub, h4, h5⟩
  | backtraceRegion bts =>
    obtain ⟨thread, name, event, h1, h2, h3, h4⟩ := h
    exact ⟨thread, name, event, h1.mono hsub, hsub _ h2, h3.mono hsub, h4⟩
  | _ => exact h

end Mono

/-! ## What an insert writes -/

/-- Rows are added only, and of the tables of samples these. -/
structure Writes (d t : DataProcessor) (rows : List Row) : Prop where
  sound : Sound t
  keeps : ∀ e ∈ d.database, e ∈ t.database
  sampled : sampledRows t.database = sampledRows d.database ++ rows

section Writes

variable {host : Host} {registry : MetadataRegistry} {stored : StoredAgents}
  {d t u : DataProcessor} {rows rows' : List Row}

theorem Writes.refl (h : Sound d) : Writes d d [] := ⟨h, fun _ he => he, (List.append_nil _).symm⟩

theorem Writes.trans (h : Writes d t rows) (h' : Writes t u rows') :
    Writes d u (rows ++ rows') := by
  refine ⟨h'.sound, fun e he => h'.keeps e (h.keeps e he), ?_⟩
  rw [h'.sampled, h.sampled, List.append_assoc]

/-- Rows of other tables in between. -/
theorem Writes.behind (h : Writes d t []) (h' : Writes t u rows) : Writes d u rows := h.trans h'

theorem writes_of_cons {id : Nat} {row : Row} (hsound : Sound t)
    (hdatabase : t.database = (id, row) :: d.database) :
    Writes d t (if row.isSampled then [row] else []) := by
  refine ⟨hsound, fun e he => ?_, ?_⟩
  · rw [hdatabase]
    exact List.mem_cons_of_mem _ he
  · rw [hdatabase]
    exact sampledRows_cons id row _

theorem Sound.mem_string (h : Sound d) {str : Bytes} {id : Nat}
    (hid : d.registered (.string str) = some id) : (id, .string str) ∈ d.database := by
  obtain ⟨row, hmem, hkey⟩ := h.registers.exists_row hid
  cases row with
  | string s =>
    have heq : s = str := eq_of_beq hkey
    rw [← heq]
    exact hmem
  | _ => cases hkey

theorem Sound.showsThread (h : Sound d) {threadId : UInt64} {id : Nat}
    (hid : d.registered (.thread threadId.toNat) = some id) :
    ShowsThread d.database id threadId := by
  obtain ⟨row, hmem, hkey⟩ := h.registers.exists_row hid
  cases row with
  | thread columns => exact ⟨columns, hmem, eq_of_beq hkey⟩
  | _ => cases hkey

theorem writes_insertString (hfresh : FreshRowIds host.rowId) (h : Sound d) (str : Bytes) :
    Writes d (d.insertString host.rowId str).1 [] := by
  have hsound := (insertString_answers hfresh h str).grows.sound
  unfold DataProcessor.insertString at hsound ⊢
  split at hsound
  · exact Writes.refl h
  · exact @writes_of_cons d _ _ (.string str) hsound rfl

theorem yields_inserting {α : Type} {insert : DataProcessor → DataProcessor × α}
    {post : α → DataProcessor → Prop} (h : post (insert d).2 (insert d).1) :
    Yields (inserting insert) d post := by
  intro a t hrun
  obtain ⟨ha, ht⟩ := yields_checked a t hrun
  rw [ha, ht]
  exact h

theorem yields_insertString (hfresh : FreshRowIds host.rowId) (h : Sound d) (str : Bytes) :
    Yields (insertString host str) d fun id t =>
      Writes d t [] ∧ (id, .string str) ∈ t.database := by
  have hanswers := insertString_answers hfresh h str
  exact yields_inserting ⟨writes_insertString hfresh h str, hanswers.grows.sound.mem_string hanswers.answer⟩

theorem yields_insertEvent (hfresh : FreshRowIds host.rowId) (h : Sound d) (columns : Event) :
    Yields (insertEvent host columns) d fun id t =>
      Writes d t [] ∧ (id, .event columns) ∈ t.database := by
  have hgrows := @grows_of_execute host.rowId d hfresh h (.event columns) (fun _ _ => rfl)
    fun heq => by cases heq
  exact yields_inserting ⟨@writes_of_cons d _ _ (.event columns) hgrows.sound rfl, List.mem_cons_self⟩

theorem yields_mapThreadId (h : Sound d) (threadId : UInt64) :
    Yields (mapThreadId threadId.toNat) d fun id t => ShowsThread d.database id threadId ∧ t = d := by
  intro id t hrun
  obtain ⟨id', hid, heq⟩ := Option.map_eq_some_iff.mp hrun
  cases heq
  exact ⟨h.showsThread hid, rfl⟩

/-- A row of a table of samples. -/
theorem yields_execute (hfresh : FreshRowIds host.rowId) (h : Sound d) {row : Row}
    (hsampled : row.isSampled = true) :
    Yields (inserting' fun d => (d.execute host.rowId row).1) d fun _ t => Writes d t [row] := by
  have hunkeyed (db : Database) (k : Key) : row.hasKey db k = false := by
    cases row <;> first | rfl | cases hsampled
  have htrack : row.table ≠ .track := fun heq => by
    cases row with
    | track columns => cases hsampled
    | _ => cases heq
  have hgrows := grows_of_execute hfresh h hunkeyed htrack
  have hwrites := @writes_of_cons d _ _ row hgrows.sound rfl
  rw [hsampled] at hwrites
  exact yields_inserting hwrites

theorem yields_insertSample (hfresh : FreshRowIds host.rowId) (h : Sound d) (track : Bytes)
    (timestamp eventId : Nat) :
    Yields (insertSample host track timestamp eventId) d fun _ t => Writes d t [] := by
  refine yields_inserting ?_
  have hsound := (insertSample_grows hfresh h track timestamp eventId noData).sound
  dsimp only
  unfold DataProcessor.insertSample at hsound ⊢
  split at hsound
  · exact Writes.refl h
  · next info hinfo => exact @writes_of_cons d _ _ (.sample _) hsound rfl

theorem yields_insertPmcEvent (hfresh : FreshRowIds host.rowId) (h : Sound d)
    (eventId agentId : Nat) (name : Bytes) (value : Double) :
    Yields (insertPmcEvent host eventId agentId name value) d fun _ t => Writes d t [] := by
  refine yields_inserting ?_
  have hsound := (insertPmcEvent_grows hfresh h eventId agentId name value noData).sound
  dsimp only
  unfold DataProcessor.insertPmcEvent at hsound ⊢
  split at hsound
  · exact Writes.refl h
  · next pmcId hpmc => exact @writes_of_cons d _ _ (.pmcEvent _) hsound rfl

/-- The agents that have their base ids, with the rows of these. -/
structure StoredIn (host : Host) (registry : MetadataRegistry) (agents : List TraceCache.Agent)
    (stored : StoredAgents) (db : Database) : Prop where
  agents : stored.map Prod.fst = agents
  rows : ∀ k entry, stored[k]? = some entry →
    (entry.2, .agent (agentColumns host registry k entry.1)) ∈ db

theorem StoredIn.mono {agents : List TraceCache.Agent} {db db' : Database}
    (h : StoredIn host registry agents stored db) (hsub : ∀ e ∈ db, e ∈ db') :
    StoredIn host registry agents stored db' :=
  ⟨h.agents, fun k entry hentry => hsub _ (h.rows k entry hentry)⟩

theorem StoredIn.showsAgent {agents : List TraceCache.Agent} {db : Database}
    (h : StoredIn host registry agents stored db) {handle : UInt64} {id : Nat}
    (hid : stored.baseIdOf (fun agent => agent.handle == handle) = some id) :
    ShowsAgent host registry agents db id handle := by
  obtain ⟨entry, hfind, rfl⟩ := Option.map_eq_some_iff.mp hid
  obtain ⟨k, hk⟩ := List.mem_iff_getElem?.mp (List.mem_of_find?_eq_some hfind)
  refine ⟨k, entry.1, ?_, ?_, h.rows k entry hk⟩
  · rw [← h.agents, List.getElem?_map, hk]
    rfl
  · rw [← h.agents, List.find?_map]
    show ((stored.find? fun entry => entry.1.handle == handle).map Prod.fst) = _
    rw [hfind]
    rfl

theorem yields_baseIdByHandle {agents : List TraceCache.Agent}
    (h : StoredIn host registry agents stored d.database) (handle : UInt64) :
    Yields (baseIdByHandle stored handle) d fun id t =>
      ShowsAgent host registry agents d.database id handle ∧ t = d :=
  (yields_ofOption _).mono fun _ _ hresult => ⟨h.showsAgent hresult.1, hresult.2⟩

end Writes

/-! ## Handlers -/

section Handlers

variable {host : Host} {registry : MetadataRegistry} {agents : List TraceCache.Agent}
  {stored : StoredAgents} {d : DataProcessor}

/-- A sample is written as rows that show it. -/
def WritesShown (host : Host) (registry : MetadataRegistry) (agents : List TraceCache.Agent)
    (sample : TraceCache.Sample) (d t : DataProcessor) : Prop :=
  ∃ rows, Writes d t rows ∧ Shows host registry agents t.database sample rows

theorem yields_handleKernelDispatch (hfresh : FreshRowIds host.rowId) (h : Sound d)
    (hstored : StoredIn host registry agents stored d.database)
    (kds : TraceCache.KernelDispatchSample) :
    Yields (handleKernelDispatch host registry stored kds) d fun _ t =>
      WritesShown host registry agents (.kernelDispatch kds) d t := by
  unfold handleKernelDispatch
  refine (yields_baseIdByHandle hstored kds.agentIdHandle).bind_same fun agent hagent => ?_
  refine (yields_mapThreadId h kds.threadId).bind_same fun thread hthread => ?_
  refine (yields_insertString hfresh h _).bind fun category t1 h1 => ?_
  refine (yields_ofOption _).bind_same fun symbol hsymbol => ?_
  refine (yields_insertString hfresh h1.1.sound _).bind fun name t2 h2 => ?_
  refine (yields_insertEvent hfresh h2.1.sound _).bind fun event t3 h3 => ?_
  refine (yields_execute hfresh h3.1.sound rfl).mono fun _ t h4 => ?_
  have hlast := h3.1.behind h4
  have hrest := h2.1.behind hlast
  have hall := h1.1.behind hrest
  exact ⟨_, hall, thread, agent, name, event, symbol, hthread.mono hall.keeps,
    hagent.mono hall.keeps, hsymbol, hlast.keeps _ h2.2,
    ⟨category, hrest.keeps _ h1.2, h4.keeps _ h3.2⟩, rfl⟩

theorem yields_handleScratchMemory (hfresh : FreshRowIds host.rowId) (h : Sound d)
    (hstored : StoredIn host registry agents stored d.database)
    (sms : TraceCache.ScratchMemorySample) :
    Yields (handleScratchMemory host registry stored sms) d fun _ t =>
      WritesShown host registry agents (.scratchMemory sms) d t := by
  unfold handleScratchMemory
  refine (yields_ofOption _).bind_same fun name hname => ?_
  refine (yields_baseIdByHandle hstored sms.agentIdHandle).bind_same fun agent hagent => ?_
  refine (yields_mapThreadId h sms.threadId).bind_same fun thread hthread => ?_
  refine (yields_insertString hfresh h _).bind fun category t1 h1 => ?_
  refine (yields_insertEvent hfresh h1.1.sound _).bind fun event t2 h2 => ?_
  refine (yields_execute hfresh h2.1.sound rfl).mono fun _ t h3 => ?_
  have hlast := h2.1.behind h3
  have hall := h1.1.behind hlast
  exact ⟨_, hall, name, thread, agent, event, hname, hthread.mono hall.keeps,
    hagent.mono hall.keeps, ⟨category, hlast.keeps _ h1.2, h3.keeps _ h2.2⟩, rfl⟩

theorem yields_handleMemoryCopy (hfresh : FreshRowIds host.rowId) (h : Sound d)
    (hstored : StoredIn host registry agents stored d.database)
    (mcs : TraceCache.MemoryCopySample) :
    Yields (handleMemoryCopy host registry stored mcs) d fun _ t =>
      WritesShown host registry agents (.memoryCopy mcs) d t := by
  unfold handleMemoryCopy
  refine (yields_ofOption _).bind_same fun name hname => ?_
  refine (yields_insertString hfresh h _).bind fun nameId t1 h1 => ?_
  refine (yields_insertString hfresh h1.1.sound _).bind fun category t2 h2 => ?_
  refine (yields_mapThreadId h2.1.sound mcs.threadId).bind_same fun thread hthread => ?_
  have hstored := (hstored.mono h1.1.keeps).mono h2.1.keeps
  refine (yields_baseIdByHandle hstored mcs.dstAgentIdHandle).bind_same fun dst hdst => ?_
  refine (yields_baseIdByHandle hstored mcs.srcAgentIdHandle).bind_same fun src hsrc => ?_
  refine (yields_insertEvent hfresh h2.1.sound _).bind fun event t3 h3 => ?_
  refine (yields_execute hfresh h3.1.sound rfl).mono fun _ t h4 => ?_
  have hlast := h3.1.behind h4
  have hrest := h2.1.behind hlast
  exact ⟨_, h1.1.behind hrest, name, nameId, thread, dst, src, event, hname, hrest.keeps _ h1.2,
    hthread.mono hlast.keeps, hdst.mono hlast.keeps, hsrc.mono hlast.keeps,
    ⟨category, hlast.keeps _ h2.2, h4.keeps _ h3.2⟩, rfl⟩

theorem yields_handleMemoryAllocate (hfresh : FreshRowIds host.rowId) (h : Sound d)
    (hstored : StoredIn host registry agents stored d.database)
    (mas : TraceCache.MemoryAllocateSample) :
    Yields (handleMemoryAllocate host registry stored mas) d fun _ t =>
      WritesShown host registry agents (.memoryAllocate mas) d t := by
  unfold handleMemoryAllocate
  refine (yields_mapThreadId h mas.threadId).bind_same fun thread hthread => ?_
  by_cases hnone : mas.agentIdHandle = host.invalidContext
  · rw [if_pos hnone]
    exact yields_pure ⟨[], Writes.refl h, Or.inl ⟨hnone, rfl⟩⟩
  rw [if_neg hnone]
  refine (yields_baseIdByHandle hstored mas.agentIdHandle).bind_same fun agent hagent => ?_
  refine (yields_ofOption _).bind_same fun name hname => ?_
  refine (yields_insertString hfresh h _).bind fun category t1 h1 => ?_
  refine (yields_insertEvent hfresh h1.1.sound _).bind fun event t2 h2 => ?_
  refine (yields_execute hfresh h2.1.sound rfl).mono fun _ t h3 => ?_
  have hlast := h2.1.behind h3
  have hall := h1.1.behind hlast
  exact ⟨_, hall, Or.inr ⟨hnone, name, thread, agent, event, hname, hthread.mono hall.keeps,
    hagent.mono hall.keeps, ⟨category, hlast.keeps _ h1.2, h3.keeps _ h2.2⟩, rfl⟩⟩

theorem yields_insertArgs (hfresh : FreshRowIds host.rowId) (h : Sound d) (event : Nat)
    (args : TraceCache.FunctionArgs) :
    Yields (each (fun arg => inserting' fun d => d.insertArgs host.rowId (argColumns event arg))
      args) d fun _ t => Writes d t (args.map fun arg => .arg (argColumns event arg)) := by
  refine @yields_each DataProcessor TraceCache.ArgumentInfo _
    (fun done t => Writes d t (done.map fun arg => .arg (argColumns event arg)))
    (fun done arg t ht => ?_) [] args d (Writes.refl h)
  refine (@yields_execute host t hfresh ht.sound (.arg (argColumns event arg)) rfl).mono
    fun _ u hu => ?_
  have hboth := ht.trans hu
  rw [List.map_append, List.map_singleton]
  exact hboth

theorem yields_handleRegion (hfresh : FreshRowIds host.rowId) (h : Sound d)
    (rs : TraceCache.RegionSample) :
    Yields (handleRegion host registry rs) d fun _ t =>
      WritesShown host registry agents (.region rs) d t := by
  unfold handleRegion
  refine (yields_mapThreadId h rs.threadId).bind_same fun thread hthread => ?_
  refine (yields_insertString hfresh h _).bind fun name t1 h1 => ?_
  refine (yields_insertString hfresh h1.1.sound _).bind fun category t2 h2 => ?_
  refine (yields_insertEvent hfresh h2.1.sound _).bind fun event t3 h3 => ?_
  refine (yields_ofOption _).bind_same fun args hargs => ?_
  refine (yields_insertArgs hfresh h3.1.sound event args).bind fun _ t4 h4 => ?_
  refine (@yields_execute host t4 hfresh h4.sound (.region _) rfl).mono fun _ t h5 => ?_
  have hrows := h4.trans h5
  have hlast := h3.1.behind hrows
  have hrest := h2.1.behind hlast
  have hall := h1.1.behind hrest
  have hparsed : TraceCache.processArgumentsString rs.argsStr = .ok args := by
    cases hresult : TraceCache.processArgumentsString rs.argsStr with
    | error e =>
      rw [hresult] at hargs
      cases hargs
    | ok parsed =>
      rw [hresult] at hargs
      cases hargs
      rfl
  exact ⟨_, hall, thread, name, event, args, hthread.mono hall.keeps, hrest.keeps _ h1.2,
    ⟨category, hlast.keeps _ h2.2, hrows.keeps _ h3.2⟩, hparsed, rfl⟩

theorem yields_handleBacktraceRegion (hfresh : FreshRowIds host.rowId) (h : Sound d)
    (bts : TraceCache.BacktraceRegionSample) :
    Yields (handleBacktraceRegion host registry bts) d fun _ t =>
      WritesShown host registry agents (.backtraceRegion bts) d t := by
  unfold handleBacktraceRegion
  refine (yields_mapThreadId h bts.threadId).bind_same fun thread hthread => ?_
  refine (yields_insertString hfresh h _).bind fun name t1 h1 => ?_
  refine (yields_insertString hfresh h1.1.sound _).bind fun category t2 h2 => ?_
  refine (yields_insertEvent hfresh h2.1.sound _).bind fun event t3 h3 => ?_
  refine Yields.bind (@yields_execute host t3 hfresh h3.1.sound (.region _) rfl) fun _ t4 h4 => ?_
  refine (yields_insertSample hfresh h4.sound _ _ _).mono fun _ t h5 => ?_
  have hrows := h4.trans h5
  have hlast := h3.1.behind hrows
  have hrest := h2.1.behind hlast
  have hall := h1.1.behind hrest
  exact ⟨_, hall, thread, name, event, hthread.mono hall.keeps, hrest.keeps _ h1.2,
    ⟨category, hlast.keeps _ h2.2, hrows.keeps _ h3.2⟩, rfl⟩

theorem yields_handleInTime (hfresh : FreshRowIds host.rowId) (h : Sound d)
    (its : TraceCache.InTimeSample) :
    Yields (handleInTime host its) d fun _ t => Writes d t [] := by
  unfold handleInTime
  refine (yields_insertString hfresh h _).bind fun track t1 h1 => ?_
  refine (yields_insertEvent hfresh h1.1.sound _).bind fun event t2 h2 => ?_
  refine (yields_insertSample hfresh h2.1.sound _ _ _).mono fun _ t h3 => ?_
  exact h1.1.behind (h2.1.behind h3)

theorem yields_handlePmcEventWith (hfresh : FreshRowIds host.rowId) (h : Sound d)
    (pmc : TraceCache.PmcEventWithSample) :
    Yields (handlePmcEventWith host stored pmc) d fun _ t => Writes d t [] := by
  unfold handlePmcEventWith
  refine (yields_insertString hfresh h _).bind fun track t1 h1 => ?_
  refine (yields_ofOption _).bind fun agent t2 h2 => ?_
  rw [h2.2]
  refine (yields_insertEvent hfresh h1.1.sound _).bind fun event t3 h3 => ?_
  refine (yields_insertSample hfresh h3.1.sound _ _ _).bind fun _ t4 h4 => ?_
  refine (yields_insertPmcEvent hfresh h4.sound _ _ _ _).mono fun _ t h5 => ?_
  exact h1.1.behind (h3.1.behind (h4.behind h5))

/-- The loop over counters. -/
theorem yields_eachCounter {α : Type} (hfresh : FreshRowIds host.rowId) (h : Sound d)
    (event : Nat) (baseId timestamp : Nat) (pmc track : α → Bytes) (value : α → Double)
    (counters : List α) :
    Yields (each (fun a => insertEventAndSample host event baseId timestamp (pmc a) (track a)
      (value a)) counters) d fun _ t => Writes d t [] := by
  refine @yields_each DataProcessor α _ (fun _ t => Writes d t []) (fun _ a t ht => ?_) [] counters
    d (Writes.refl h)
  unfold insertEventAndSample
  refine (yields_insertPmcEvent hfresh ht.sound _ _ _ _).bind fun _ t1 h1 => ?_
  exact (yields_insertSample hfresh h1.sound _ _ _).mono fun _ t2 h2 =>
    ht.behind (h1.behind h2)

theorem yields_handleAmdSmi (hfresh : FreshRowIds host.rowId) (h : Sound d)
    (amdSmi : TraceCache.AmdSmiSample) :
    Yields (handleAmdSmi host stored amdSmi) d fun _ t => Writes d t [] := by
  unfold handleAmdSmi
  refine (yields_insertString hfresh h _).bind fun name t1 h1 => ?_
  refine (yields_insertEvent hfresh h1.1.sound _).bind fun event t2 h2 => ?_
  refine (yields_ofOption _).bind fun baseId t3 h3 => ?_
  rw [h3.2]
  refine (yields_ofOption _).bind fun values t4 h4 => ?_
  rw [h4.2]
  exact (yields_eachCounter hfresh h2.1.sound event baseId _ _ _ _ values).mono fun _ t h5 =>
    h1.1.behind (h2.1.behind h5)

theorem yields_handleCpuFreq (hfresh : FreshRowIds host.rowId) (h : Sound d)
    (cpuFreq : TraceCache.CpuFreqSample) :
    Yields (handleCpuFreq host stored cpuFreq) d fun _ t => Writes d t [] := by
  unfold handleCpuFreq
  refine (yields_insertString hfresh h _).bind fun name t1 h1 => ?_
  refine (yields_insertEvent hfresh h1.1.sound _).bind fun event t2 h2 => ?_
  refine (yields_ofOption _).bind fun baseId t3 h3 => ?_
  rw [h3.2]
  refine (yields_eachCounter hfresh h2.1.sound event baseId _ _ _ _ _).bind fun _ t4 h4 => ?_
  exact (yields_eachCounter hfresh h4.sound event baseId _ _ _ _ _).mono fun _ t h5 =>
    h1.1.behind (h2.1.behind (h4.behind h5))

theorem yields_handle (hfresh : FreshRowIds host.rowId) (h : Sound d)
    (hstored : StoredIn host registry agents stored d.database) (sample : TraceCache.Sample) :
    Yields (handle host registry stored sample) d fun _ t =>
      WritesShown host registry agents sample d t := by
  have hnone {t : DataProcessor} (ht : Writes d t []) : ∃ rows, Writes d t rows ∧ rows = [] :=
    ⟨[], ht, rfl⟩
  cases sample with
  | kernelDispatch item => exact yields_handleKernelDispatch hfresh h hstored item
  | scratchMemory item => exact yields_handleScratchMemory hfresh h hstored item
  | memoryCopy item => exact yields_handleMemoryCopy hfresh h hstored item
  | memoryAllocate item => exact yields_handleMemoryAllocate hfresh h hstored item
  | region item => exact yields_handleRegion hfresh h item
  | inTime item => exact (yields_handleInTime hfresh h item).mono fun _ _ => hnone
  | pmcEventWith item => exact (yields_handlePmcEventWith hfresh h item).mono fun _ _ => hnone
  | amdSmi item => exact (yields_handleAmdSmi hfresh h item).mono fun _ _ => hnone
  | cpuFreq item => exact (yields_handleCpuFreq hfresh h item).mono fun _ _ => hnone
  | backtraceRegion item => exact yields_handleBacktraceRegion hfresh h item

/-- What is written for the samples so far. -/
structure Written (host : Host) (registry : MetadataRegistry) (agents : List TraceCache.Agent)
    (stored : StoredAgents) (samples : List TraceCache.Sample) (d : DataProcessor) : Prop where
  sound : Sound d
  stored : StoredIn host registry agents stored d.database
  shown : ∃ blocks, List.Forall₂ (Shows host registry agents d.database) samples blocks ∧
    sampledRows d.database = blocks.flatten

theorem Written.step {samples : List TraceCache.Sample} {sample : TraceCache.Sample}
    {t : DataProcessor} (h : Written host registry agents stored samples d)
    (ht : WritesShown host registry agents sample d t) :
    Written host registry agents stored (samples ++ [sample]) t := by
  obtain ⟨rows, hwrites, hshows⟩ := ht
  obtain ⟨blocks, hblocks, hrows⟩ := h.shown
  refine ⟨hwrites.sound, h.stored.mono hwrites.keeps, blocks ++ [rows], ?_, ?_⟩
  · exact List.rel_append (hblocks.imp fun _ _ hshown => hshown.mono hwrites.keeps)
      (.cons hshows .nil)
  · rw [hwrites.sampled, hrows, List.flatten_append, List.flatten_singleton]

end Handlers

/-! ## Metadata -/

/-- Rows are added only, and none of the tables of samples. -/
structure Extends (d t : DataProcessor) : Prop where
  keeps : ∀ e ∈ d.database, e ∈ t.database
  sampled : sampledRows t.database = sampledRows d.database

section Extends

variable {host : Host} {registry : MetadataRegistry} {stored : StoredAgents}
  {d t u : DataProcessor}

theorem Extends.refl (d : DataProcessor) : Extends d d := ⟨fun _ he => he, rfl⟩

theorem Extends.trans (h : Extends d t) (h' : Extends t u) : Extends d u :=
  ⟨fun e he => h'.keeps e (h.keeps e he), h'.sampled.trans h.sampled⟩

theorem extends_of_cons {id : Nat} {row : Row} (hsampled : row.isSampled = false)
    (hdatabase : t.database = (id, row) :: d.database) : Extends d t := by
  refine ⟨fun e he => ?_, ?_⟩
  · rw [hdatabase]
    exact List.mem_cons_of_mem _ he
  · rw [hdatabase, sampledRows_cons, hsampled]
    exact List.append_nil _

theorem extends_insertString (d : DataProcessor) (str : Bytes) :
    Extends d (d.insertString host.rowId str).1 := by
  unfold DataProcessor.insertString
  split
  · exact Extends.refl d
  · exact @extends_of_cons d _ _ (.string str) rfl rfl

theorem extends_insertThreadInfo (d : DataProcessor) (columns : ThreadInfo) :
    Extends d (d.insertThreadInfo host.rowId columns).1 := by
  unfold DataProcessor.insertThreadInfo
  split
  · exact Extends.refl d
  · exact @extends_of_cons d _ _ (.thread columns) rfl rfl

theorem extends_insertPmcDescription (d : DataProcessor) (columns : PmcInfo) :
    Extends d (d.insertPmcDescription host.rowId columns) := by
  unfold DataProcessor.insertPmcDescription
  split
  · exact Extends.refl d
  · exact @extends_of_cons d _ _ (.pmc columns) rfl rfl

theorem extends_insertTrack (d : DataProcessor) (name : Bytes) (nid pid : Nat) (tid : Option Nat)
    (extdata : Bytes) : Extends d (d.insertTrack host.rowId name nid pid tid extdata) := by
  unfold DataProcessor.insertTrack
  split
  · exact Extends.refl d
  · exact (@extends_insertString host d name).trans
      (@extends_of_cons (d.insertString host.rowId name).1 _ _ (.track _) rfl rfl)

theorem yields_extends {insert : DataProcessor → DataProcessor} (h : Extends d (insert d)) :
    Yields (inserting' insert) d fun _ t => Extends d t :=
  yields_inserting h

theorem yields_executeWithId {id : Nat} {row : Row} (hsampled : row.isSampled = false) :
    Yields (inserting' fun d => d.executeWithId id row) d fun _ t => Extends d t :=
  yields_extends (extends_of_cons hsampled rfl)

theorem yields_insertAgents (counter : Nat) (agents : List TraceCache.Agent) :
    Yields (insertAgents host registry counter agents) d fun stored t =>
      Extends d t ∧ stored.map Prod.fst = agents ∧ ∀ k entry, stored[k]? = some entry →
        (entry.2, .agent (agentColumns host registry (counter + k) entry.1)) ∈ t.database := by
  induction agents generalizing counter d with
  | nil => exact yields_pure ⟨Extends.refl d, rfl, fun _ _ hentry => by cases hentry⟩
  | cons agent agents ih =>
    have hfirst : Yields (inserting fun d =>
        d.insertAgent host.rowId (agentColumns host registry counter agent)) d fun id t =>
          Extends d t ∧ (id, .agent (agentColumns host registry counter agent)) ∈ t.database :=
      yields_inserting ⟨@extends_of_cons d _ _ (.agent _) rfl rfl, List.mem_cons_self⟩
    refine hfirst.bind fun id t ht => (ih (counter + 1)).bind fun stored u hu => yields_pure ?_
    refine ⟨ht.1.trans hu.1, congrArg (agent :: ·) hu.2.1, fun k entry hentry => ?_⟩
    cases k with
    | zero =>
      cases hentry
      exact hu.1.keeps _ ht.2
    | succ k =>
      have hplace : counter + (k + 1) = counter + 1 + k := by omega
      rw [hplace]
      exact hu.2.2 k entry hentry

theorem yields_eachExtends {α : Type} {body : α → Inserting Unit}
    (hbody : ∀ a d, Yields (body a) d fun _ t => Extends d t) (items : List α) :
    Yields (each body items) d fun _ t => Extends d t :=
  @yields_each DataProcessor α body (fun _ t => Extends d t)
    (fun _ a t ht => (hbody a t).mono fun _ _ hu => ht.trans hu) [] items d (Extends.refl d)

theorem yields_insertTrackInfo (track : TraceCache.Track) :
    Yields (insertTrackInfo host registry track) d fun _ t => Extends d t := by
  have hlast (tid : Option Nat) (t : DataProcessor) : Yields (inserting' fun d =>
      d.insertTrack host.rowId (cStr track.trackName) host.nodeId (pid registry) tid noData) t
        fun _ u => Extends t u := yields_extends (extends_insertTrack t _ _ _ _ _)
  unfold insertTrackInfo
  cases track.threadId with
  | none => exact hlast none d
  | some threadId =>
    have hmap : Yields (some <$> mapThreadId threadId.toNat) d fun _ t => t = d := by
      intro tid t hrun
      obtain ⟨r, hr, heq⟩ := Option.bind_eq_some_iff.mp hrun
      obtain ⟨id, _, hsame⟩ := Option.map_eq_some_iff.mp hr
      cases hsame
      cases heq
      rfl
    refine hmap.bind fun tid t ht => ?_
    rw [ht]
    exact hlast tid d

theorem yields_insertRegistry :
    Yields (insertRegistry host registry stored) d fun _ t => Extends d t := by
  have hstring (str : Bytes) (d : DataProcessor) :
      Yields (insertStringInfo host str) d fun _ t => Extends d t :=
    yields_extends (extends_insertString d str)
  unfold insertRegistry
  refine (yields_eachExtends (fun str => hstring (cStr str)) _).bind fun _ t1 h1 => ?_
  refine (yields_eachExtends (fun thread d =>
    yields_extends (extends_insertThreadInfo d _)) _).bind fun _ t2 h2 => ?_
  refine (yields_eachExtends (fun track d => yields_insertTrackInfo track) _).bind
    fun _ t3 h3 => ?_
  refine (yields_eachExtends (fun object d => (yields_ofOption _).bind_same fun _ _ =>
    @yields_executeWithId d _ (.codeObject _) rfl) _).bind fun _ t4 h4 => ?_
  refine (yields_eachExtends (fun symbol d => (@yields_executeWithId d _ (.kernelSymbol _)
    rfl).bind fun _ t ht => (hstring _ t).mono fun _ _ hu => ht.trans hu) _).bind
      fun _ t5 h5 => ?_
  refine (yields_eachExtends (fun handle d => @yields_executeWithId d _ (.queue _) rfl) _).bind
    fun _ t6 h6 => ?_
  refine (yields_eachExtends (fun handle d => @yields_executeWithId d _ (.stream _) rfl) _).bind
    fun _ t7 h7 => ?_
  refine (yields_eachExtends hstring _).bind fun _ t8 h8 => ?_
  refine (yields_eachExtends hstring _).bind fun _ t9 h9 => ?_
  refine (yields_eachExtends (fun pmc d => (yields_ofOption _).bind_same fun _ _ =>
    yields_extends (extends_insertPmcDescription d _)) _).mono fun _ t h => ?_
  exact h1.trans (h2.trans (h3.trans (h4.trans (h5.trans (h6.trans (h7.trans (h8.trans
    (h9.trans h))))))))

theorem yields_postProcessMetadata (agents : List TraceCache.Agent) :
    Yields (postProcessMetadata host registry agents) d fun stored t =>
      Extends d t ∧ StoredIn host registry agents stored t.database := by
  unfold postProcessMetadata
  refine Yields.bind (@yields_executeWithId d _ (.node _) rfl) fun _ t1 h1 => ?_
  refine Yields.bind (@yields_executeWithId t1 _ (.process _) rfl) fun _ t2 h2 => ?_
  refine (yields_insertAgents 0 agents).bind fun stored t3 h3 => ?_
  refine yields_insertRegistry.bind fun _ t h => yields_pure ?_
  refine ⟨h1.trans (h2.trans (h3.1.trans h)), StoredIn.mono ⟨h3.2.1, fun k entry hentry => ?_⟩
    h.keeps⟩
  have hrow := h3.2.2 k entry hentry
  rw [Nat.zero_add] at hrow
  exact hrow

end Extends

theorem yields_process {host : Host} (hfresh : FreshRowIds host.rowId)
    (registry : MetadataRegistry) (agents : List TraceCache.Agent)
    (samples : List TraceCache.Sample) :
    Yields (process host registry agents samples) .empty fun _ t =>
      ∃ stored, Written host registry agents stored samples t := by
  have hmetadata : Yields (postProcessMetadata host registry agents) .empty fun stored t =>
      Written host registry agents stored [] t := by
    intro stored t hrun
    obtain ⟨hextends, hstored⟩ := yields_postProcessMetadata agents stored t hrun
    have hprepared := ((finishes_postProcessMetadata hfresh agents).of_run hrun).2
    exact ⟨hprepared.ready.sound, hstored, [], .nil, hextends.sampled⟩
  exact hmetadata.bind fun stored t ht => (@yields_each DataProcessor TraceCache.Sample _
    (Written host registry agents stored) (fun done sample t ht =>
      (yields_handle hfresh ht.sound ht.stored sample).mono fun _ _ hu => ht.step hu)
    [] samples t ht).mono fun _ _ hwritten => ⟨stored, hwritten⟩

end Rocpd
end Rocprofsys
