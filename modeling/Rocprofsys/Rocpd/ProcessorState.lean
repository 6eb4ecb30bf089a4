import Rocprofsys.Rocpd.Processor

namespace Rocprofsys
namespace Rocpd

open Base Base.Fallible
open TraceCache (Bytes)

/-! ## What is there while the processor works -/

/-- The tables whose ids are handles that the caller gives. -/
def Table.isHandle : Table → Bool
  | .queue => true
  | .stream => true
  | .codeObject => true
  | .kernelSymbol => true
  | _ => false

/-- The handles that were inserted with the system ids of the threads, and the counters that were
described. -/
structure Listed where
  ids : Table → List Nat
  pmcs : List PmcIdentifier

def Listed.add (listed : Listed) (table : Table) (id : Nat) : Listed :=
  { listed with ids := fun t => if t = table then listed.ids t ++ [id] else listed.ids t }

/-- `held` are ids of rows, besides the handles. -/
structure Ready (listed : Listed) (held : List (Table × Nat)) (d : DataProcessor) : Prop where
  sound : Sound d
  consistent : Consistent d.database = true
  handles : ∀ table, table.isHandle = true → ∀ id,
    (table, id) ∈ d.database.ids Row.table ↔ id ∈ listed.ids table
  threads : ∀ threadId,
    (d.threadIdMap.lookup threadId).isSome = true ↔ threadId ∈ listed.ids .thread
  pmcs : ∀ k, (d.pmcDescriptorMap.lookup k).isSome = true ↔ k ∈ listed.pmcs
  held : ∀ r ∈ held, r ∈ d.database.ids Row.table

section Ready

variable {listed : Listed} {held held' : List (Table × Nat)} {d d' : DataProcessor} {row : Row}
  {id : Nat}

theorem ready_empty : Ready ⟨fun _ => [], []⟩ [] .empty :=
  ⟨sound_empty, rfl, fun _ _ _ => ⟨fun h => (by cases h), fun h => (by cases h)⟩,
    fun _ => ⟨fun h => (by cases h), fun h => (by cases h)⟩,
    fun _ => ⟨fun h => (by cases h), fun h => (by cases h)⟩, fun _ h => absurd h List.not_mem_nil⟩

theorem Ready.weaken (h : Ready listed held d) (hsub : ∀ r ∈ held', r ∈ held) :
    Ready listed held' d :=
  ⟨h.sound, h.consistent, h.handles, h.threads, h.pmcs, fun r hr => h.held r (hsub r hr)⟩

theorem Ready.drop {r : Table × Nat} (h : Ready listed (r :: held) d) : Ready listed held d :=
  h.weaken fun _ hr => List.mem_cons_of_mem _ hr

theorem Ready.hold {r : Table × Nat} (h : Ready listed held d)
    (hr : r ∈ d.database.ids Row.table) : Ready listed (r :: held) d := by
  refine ⟨h.sound, h.consistent, h.handles, h.threads, h.pmcs, fun r' hr' => ?_⟩
  rcases List.mem_cons.mp hr' with rfl | hr'
  · exact hr
  · exact h.held r' hr'

theorem mem_add_iff {table t : Table} {n : Nat} :
    n ∈ (listed.add table id).ids t ↔ n ∈ listed.ids t ∨ (t = table ∧ n = id) := by
  unfold Listed.add
  dsimp only
  split
  · next h => rw [List.mem_append, List.mem_singleton, and_iff_right h]
  · next h => exact ⟨Or.inl, fun hor => hor.resolve_right fun hand => h hand.1⟩

/-- A row in front of the others. -/
theorem Ready.cons (h : Ready listed held d) (haccepts : Accepts d.database id row)
    (hsound : Sound d') (hdatabase : d'.database = (id, row) :: d.database) {listed' : Listed}
    (hhandles : ∀ table, table.isHandle = true → ∀ i,
      i ∈ listed'.ids table ↔ i ∈ listed.ids table ∨ (table = row.table ∧ i = id))
    (hthreads : ∀ t, (d'.threadIdMap.lookup t).isSome = true ↔ t ∈ listed'.ids .thread)
    (hpmcs : ∀ k, (d'.pmcDescriptorMap.lookup k).isSome = true ↔ k ∈ listed'.pmcs) :
    Ready listed' ((row.table, id) :: held) d' := by
  refine ⟨hsound, ?_, fun table htable i => ?_, hthreads, hpmcs, fun r hr => ?_⟩
  · rw [hdatabase]
    exact (consistent_cons h.consistent id row).mpr haccepts
  · rw [hdatabase, hhandles table htable i, ← h.handles table htable i]
    show (table, i) ∈ (row.table, id) :: d.database.ids Row.table ↔ _
    rw [List.mem_cons, Prod.mk.injEq]
    exact or_comm
  · rw [hdatabase]
    rcases List.mem_cons.mp hr with rfl | hr
    · exact Rows.mem_ids_cons_self _ _
    · exact Rows.mem_ids_cons _ (h.held r hr)

/-- A row of no handle and no thread. -/
theorem Ready.cons_of_not_handle (h : Ready listed held d) (haccepts : Accepts d.database id row)
    (hsound : Sound d') (hdatabase : d'.database = (id, row) :: d.database)
    (hthreads : d'.threadIdMap = d.threadIdMap)
    (hpmcs : d'.pmcDescriptorMap = d.pmcDescriptorMap) (hhandle : row.table.isHandle = false) :
    Ready listed ((row.table, id) :: held) d' := by
  refine h.cons haccepts hsound hdatabase (fun table htable i => ?_) (fun t => ?_) fun k => ?_
  · rw [or_iff_left fun hand => ?_]
    rw [hand.1, hhandle] at htable
    cases htable
  · rw [hthreads]
    exact h.threads t
  · rw [hpmcs]
    exact h.pmcs k

/-- A row that is under no key, in no `UNIQUE` column and no handle. -/
def Row.isPlain : Row → Bool
  | .agent _ => true
  | .event _ => true
  | .arg _ => true
  | .pmcEvent _ => true
  | .region _ => true
  | .sample _ => true
  | .kernelDispatch _ => true
  | .memoryCopy _ => true
  | .memoryAllocate _ => true
  | _ => false

theorem hasKey_of_isPlain (h : row.isPlain = true) (db : Database) (k : Key) :
    row.hasKey db k = false := by
  cases row <;> first | rfl | cases h

theorem clashes_of_isPlain (h : row.isPlain = true) (other : Row) : row.clashes other = false := by
  cases row <;> first | rfl | cases h

theorem isHandle_of_isPlain (h : row.isPlain = true) : row.table.isHandle = false := by
  cases row <;> first | rfl | cases h

theorem ne_track_of_isPlain (h : row.isPlain = true) : row.table ≠ .track := by
  intro htable
  cases row with
  | track columns => cases h
  | _ => exact absurd htable fun heq => by cases heq

end Ready

/-! ## Inserts -/

section Inserts

variable {host : Host} {listed : Listed} {held : List (Table × Nat)} {d : DataProcessor}

theorem finishes_inserting {α : Type} {insert : DataProcessor → DataProcessor × α}
    (h : Ready listed held (insert d).1) :
    Finishes (inserting insert) d True fun a t => a = (insert d).2 ∧ t = (insert d).1 :=
  finishes_checked.congr ⟨fun _ => trivial, fun _ => h.consistent⟩

theorem finishes_inserting_iff {insert : DataProcessor → DataProcessor} :
    Finishes (inserting' insert) d (Consistent (insert d).database = true)
      fun _ t => t = insert d :=
  (@finishes_checked _ _ d (fun d => (insert d, ())) fun d => Consistent d.database).mono
    fun _ _ hresult => hresult.2

theorem finishes_inserting' {insert : DataProcessor → DataProcessor}
    (h : Ready listed held (insert d)) :
    Finishes (inserting' insert) d True fun _ t => Ready listed held t := by
  refine finishes_inserting_iff.imp ⟨fun _ => trivial, fun _ => h.consistent⟩ fun _ t _ hresult => ?_
  rw [hresult]
  exact h

theorem accepts_execute_iff (hfresh : FreshRowIds host.rowId) {row : Row}
    (hunique : ∀ e ∈ d.database, row.clashes e.2 = false) :
    Accepts d.database (host.rowId d.database row.table) row ↔
      (∀ r ∈ row.references, r ∈ d.database.ids Row.table) ∧ row.passesChecks = true :=
  ⟨fun h => ⟨h.foreignKeys, h.checks⟩, fun h => ⟨hfresh _ _, h.1, h.2, hunique⟩⟩

/-- A plain row needs what it refers to, and its checks. -/
theorem finishes_execute (hfresh : FreshRowIds host.rowId) (h : Ready listed held d) {row : Row}
    (hplain : row.isPlain = true) :
    Finishes (inserting fun d => d.execute host.rowId row) d
      ((∀ r ∈ row.references, r ∈ d.database.ids Row.table) ∧ row.passesChecks = true)
      fun id t => Ready listed ((row.table, id) :: held) t ∧
        (row.table, id) ∉ d.database.ids Row.table ∧
          ∀ r ∈ d.database.ids Row.table, r ∈ t.database.ids Row.table := by
  have hiff := (consistent_cons h.consistent (host.rowId d.database row.table) row).trans
    (accepts_execute_iff hfresh fun e _ => clashes_of_isPlain hplain e.2)
  refine finishes_checked.imp hiff fun id t hconsistent hresult => ?_
  have haccepts := (consistent_cons h.consistent _ _).mp hconsistent
  have hgrows := grows_of_execute hfresh h.sound (hasKey_of_isPlain hplain)
    (ne_track_of_isPlain hplain)
  rw [hresult.1, hresult.2]
  exact ⟨h.cons_of_not_handle haccepts hgrows.sound rfl rfl rfl (isHandle_of_isPlain hplain),
    hfresh _ _, hgrows.ids⟩

theorem finishes_execute' (hfresh : FreshRowIds host.rowId) (h : Ready listed held d) {row : Row}
    (hplain : row.isPlain = true) :
    Finishes (inserting' fun d => (d.execute host.rowId row).1) d
      ((∀ r ∈ row.references, r ∈ d.database.ids Row.table) ∧ row.passesChecks = true)
      fun _ t => Ready listed held t :=
  (finishes_execute hfresh h hplain).forget.mono fun _ _ hpost => hpost.1.drop

theorem ready_insertString (hfresh : FreshRowIds host.rowId) (h : Ready listed held d)
    (str : Bytes) :
    Ready listed ((.string, (d.insertString host.rowId str).2) :: held)
      (d.insertString host.rowId str).1 := by
  have hanswers := insertString_answers hfresh h.sound str
  unfold DataProcessor.insertString at hanswers ⊢
  split at hanswers
  · next id hid => exact h.hold (@Sound.mem_ids d h.sound (.string str) id hid)
  · next hnone =>
    have haccepts : Accepts d.database (host.rowId d.database .string) (.string str) := by
      refine ⟨hfresh _ _, fun _ hr => absurd hr List.not_mem_nil, rfl, fun e he => ?_⟩
      rw [Bool.eq_false_iff]
      intro hclash
      obtain ⟨i, row⟩ := e
      cases row with
      | string s =>
        have hkey := h.sound.registers.of_mem he (k := .string str)
          ((hasKey_string_iff _ _ _).mpr (congrArg Key.string (beq_iff_eq.mp hclash)))
        have hlookup : d.stringMap.lookup str = some i := hkey
        rw [hnone] at hlookup
        cases hlookup
      | _ => cases hclash
    exact h.cons_of_not_handle haccepts hanswers.grows.sound rfl rfl rfl rfl

theorem finishes_insertString (hfresh : FreshRowIds host.rowId) (h : Ready listed held d)
    (str : Bytes) :
    Finishes (insertString host str) d True fun id t => Ready listed ((.string, id) :: held) t := by
  have hready := ready_insertString hfresh h str
  refine (finishes_inserting hready).mono fun id t hresult => ?_
  rw [hresult.1, hresult.2]
  exact hready

theorem finishes_insertStringInfo (hfresh : FreshRowIds host.rowId) (h : Ready listed held d)
    (str : Bytes) :
    Finishes (insertStringInfo host str) d True fun _ t => Ready listed held t :=
  finishes_inserting' (ready_insertString hfresh h str).drop

theorem finishes_insertEvent (hfresh : FreshRowIds host.rowId) (h : Ready listed held d)
    {columns : Event} (hcategory : (Table.string, columns.categoryId) ∈ held) :
    Finishes (insertEvent host columns) d True fun id t => Ready listed ((.event, id) :: held) t := by
  refine (@finishes_execute host listed held d hfresh h (.event columns) rfl).imp
    ⟨fun _ => trivial, fun _ => ⟨fun r hr => ?_, rfl⟩⟩ fun _ _ _ hpost => hpost.1
  rw [List.mem_singleton.mp hr]
  exact h.held _ hcategory

theorem finishes_mapThreadId (h : Ready listed held d) (threadId : Nat) :
    Finishes (mapThreadId threadId) d (threadId ∈ listed.ids .thread)
      fun id t => Ready listed ((.thread, id) :: held) t := by
  unfold Finishes mapThreadId
  have hiff := h.threads threadId
  cases hlookup : d.threadIdMap.lookup threadId with
  | none =>
    rw [hlookup] at hiff
    rw [DataProcessor.mapThreadIdToPrimaryKey, hlookup]
    exact fun hmem => by cases hiff.mpr hmem
  | some id =>
    rw [hlookup] at hiff
    rw [DataProcessor.mapThreadIdToPrimaryKey, hlookup]
    exact ⟨hiff.mp rfl, h.hold (@Sound.mem_ids d h.sound (.thread threadId) id hlookup)⟩

theorem finishes_insertSample (hfresh : FreshRowIds host.rowId) (h : Ready listed held d)
    (track : Bytes) (timestamp : Nat) {eventId : Nat} (hevent : (Table.event, eventId) ∈ held) :
    Finishes (insertSample host track timestamp eventId) d True fun _ t => Ready listed held t := by
  have hready : Ready listed held (d.insertSample host.rowId track timestamp eventId noData) := by
    have hgrows := insertSample_grows hfresh h.sound track timestamp eventId noData
    unfold DataProcessor.insertSample at hgrows ⊢
    split at hgrows
    · exact h
    · next info hinfo =>
      have htrack : d.registered (.track track) = some info.trackId := by
        rw [DataProcessor.registered, hinfo]
        rfl
      have haccepts := (@accepts_execute_iff host d hfresh
        (.sample ⟨info.trackId, timestamp, eventId, noData⟩) (fun _ _ => rfl)).mpr
          ⟨fun r hr => ?_, rfl⟩
      · exact (h.cons_of_not_handle haccepts hgrows.sound rfl rfl rfl rfl).drop
      · rcases List.mem_cons.mp hr with rfl | hr
        · exact h.sound.mem_ids htrack
        · rw [List.mem_singleton.mp hr]
          exact h.held _ hevent
  exact finishes_inserting' hready

theorem finishes_insertPmcEvent (hfresh : FreshRowIds host.rowId) (h : Ready listed held d)
    {eventId : Nat} (agentId : Nat) (name : Bytes) (value : Double)
    (hevent : (Table.event, eventId) ∈ held) :
    Finishes (insertPmcEvent host eventId agentId name value) d True
      fun _ t => Ready listed held t := by
  have hready : Ready listed held
      (d.insertPmcEvent host.rowId eventId agentId name value noData) := by
    have hgrows := insertPmcEvent_grows hfresh h.sound eventId agentId name value noData
    unfold DataProcessor.insertPmcEvent at hgrows ⊢
    split at hgrows
    · exact h
    · next pmcId hpmc =>
      have haccepts := (@accepts_execute_iff host d hfresh
        (.pmcEvent ⟨eventId, pmcId, value, noData⟩) (fun _ _ => rfl)).mpr
          ⟨fun r hr => ?_, rfl⟩
      · exact (h.cons_of_not_handle haccepts hgrows.sound rfl rfl rfl rfl).drop
      · rcases List.mem_cons.mp hr with rfl | hr
        · exact @Sound.mem_ids d h.sound (.pmc agentId name) pmcId hpmc
        · rw [List.mem_singleton.mp hr]
          exact h.held _ hevent
  exact finishes_inserting' hready

/-! ### Metadata -/

theorem threads_add_iff {tid : Nat}
    (hthreads : ∀ t, (d.threadIdMap.lookup t).isSome = true ↔ t ∈ listed.ids .thread)
    {threadIdMap : AList fun _ : Nat => Nat}
    (hself : (threadIdMap.lookup tid).isSome = true)
    (hother : ∀ t, t ≠ tid → threadIdMap.lookup t = d.threadIdMap.lookup t) (t : Nat) :
    (threadIdMap.lookup t).isSome = true ↔ t ∈ (listed.add .thread tid).ids .thread := by
  rw [mem_add_iff, ← hthreads t, and_iff_right rfl]
  by_cases heq : t = tid
  · rw [heq]
    exact ⟨fun _ => Or.inr rfl, fun _ => hself⟩
  · rw [hother t heq, or_iff_left heq]

theorem ready_insertThreadInfo (hfresh : FreshRowIds host.rowId) (h : Ready listed held d)
    {columns : ThreadInfo} (howner : ∀ r ∈ owner columns.nid columns.pid, r ∈ held) :
    Ready (listed.add .thread columns.tid) held (d.insertThreadInfo host.rowId columns).1 := by
  have hanswers := insertThreadInfo_answers hfresh h.sound columns
  have hne (t : Table) (ht : t.isHandle = true) : t ≠ .thread := fun heq => by
    rw [heq] at ht
    cases ht
  have hhandles (t : Table) (ht : t.isHandle = true) (i : Nat) :
      i ∈ (listed.add .thread columns.tid).ids t ↔ i ∈ listed.ids t := by
    rw [mem_add_iff, or_iff_left fun hand => hne t ht hand.1]
  unfold DataProcessor.insertThreadInfo at hanswers ⊢
  split at hanswers
  · next id hid =>
    have hself : (d.threadIdMap.lookup columns.tid).isSome = true := by
      rw [hid]
      rfl
    exact ⟨h.sound, h.consistent, fun t ht i => (h.handles t ht i).trans (hhandles t ht i).symm,
      threads_add_iff h.threads hself fun _ _ => rfl, h.pmcs, h.held⟩
  · next hnone =>
    have haccepts := (@accepts_execute_iff host d hfresh (.thread columns) (fun _ _ => rfl)).mpr
      ⟨fun r hr => h.held r (howner r hr), rfl⟩
    refine (h.cons haccepts hanswers.grows.sound rfl (fun t ht i => ?_)
      (threads_add_iff h.threads ?_ fun t ht => AList.lookup_insert_ne ht) h.pmcs).drop
    · rw [hhandles t ht i, or_iff_left fun hand => hne t ht hand.1]
    · rw [AList.lookup_insert]
      rfl

theorem finishes_insertThreadId (hfresh : FreshRowIds host.rowId)
    {registry : TraceCache.MetadataRegistry} (h : Ready listed held d)
    (howner : ∀ r ∈ owner host.nodeId (pid registry), r ∈ held) (thread : TraceCache.Thread) :
    Finishes (insertThreadId host registry thread) d True
      fun _ t => Ready (listed.add .thread thread.threadId.toNat) held t :=
  finishes_inserting' (@ready_insertThreadInfo host listed held d hfresh h
    (threadColumns host registry thread) howner)

theorem ready_insertTrack (hfresh : FreshRowIds host.rowId) (h : Ready listed held d)
    (name : Bytes) {nid pid : Nat} {tid : Option Nat} (extdata : Bytes)
    (howner : ∀ r ∈ owner nid pid, r ∈ held) (htid : ∀ id ∈ tid, (Table.thread, id) ∈ held) :
    Ready listed held (d.insertTrack host.rowId name nid pid tid extdata) := by
  have hgrows := (insertTrack_grows hfresh h.sound name nid pid tid extdata).1
  have hnamed := ready_insertString hfresh h name
  unfold DataProcessor.insertTrack at hgrows ⊢
  split at hgrows
  · exact h
  · generalize d.insertString host.rowId name = named at hgrows hnamed
    obtain ⟨d', nameId⟩ := named
    dsimp only at hgrows hnamed ⊢
    have haccepts := (@accepts_execute_iff host d' hfresh (.track ⟨nid, pid, tid, nameId, extdata⟩)
      (fun _ _ => rfl)).mpr ⟨fun r hr => hnamed.held r ?_, rfl⟩
    · exact (hnamed.cons_of_not_handle haccepts hgrows.sound rfl rfl rfl rfl).drop.drop
    · rcases List.mem_append.mp hr with hr | hr
      · rcases List.mem_append.mp hr with hr | hr
        · exact List.mem_cons_of_mem _ (howner r hr)
        · obtain ⟨id, hid, rfl⟩ := List.mem_map.mp hr
          exact List.mem_cons_of_mem _ (htid id (Option.mem_toList.mp hid))
      · rw [List.mem_singleton.mp hr]
        exact List.mem_cons_self

theorem finishes_insertTrackInfo (hfresh : FreshRowIds host.rowId)
    {registry : TraceCache.MetadataRegistry} (h : Ready listed held d)
    (howner : ∀ r ∈ owner host.nodeId (pid registry), r ∈ held) (track : TraceCache.Track) :
    Finishes (insertTrackInfo host registry track) d
      (∀ threadId ∈ track.threadId, threadId.toNat ∈ listed.ids .thread)
      fun _ t => Ready listed held t := by
  have hinsert (tid : Option Nat) (held' : List (Table × Nat)) (t : DataProcessor)
      (ht : Ready listed held' t) (hsub : ∀ r ∈ held, r ∈ held')
      (htid : ∀ id ∈ tid, (Table.thread, id) ∈ held') :
      Finishes (inserting' fun d => d.insertTrack host.rowId (cStr track.trackName) host.nodeId
        (pid registry) tid noData) t True fun _ t => Ready listed held t :=
    finishes_inserting' ((ready_insertTrack hfresh ht (cStr track.trackName) noData
      (fun r hr => hsub r (howner r hr)) htid).weaken hsub)
  unfold insertTrackInfo
  cases track.threadId with
  | none =>
    refine (hinsert none held d h (fun _ hr => hr) fun id hid => absurd hid (by simp)).congr
      ⟨fun _ id hid => absurd hid (by simp), fun _ => trivial⟩
  | some threadId =>
    refine ((finishes_mapThreadId h threadId.toNat).map.bind fun tid t _ ht => ?_).congr
      ⟨fun hmem id hid => ?_, fun hall => ⟨hall threadId rfl, trivial⟩⟩
    · obtain ⟨id, rfl, hready⟩ := ht
      refine hinsert (some id) _ t hready (fun _ hr => List.mem_cons_of_mem _ hr) fun i hi => ?_
      cases hi
      exact List.mem_cons_self
    · cases hid
      exact hmem.1

theorem finishes_executeWithId (h : Ready listed held d) {row : Row} {id : Nat}
    (hhandle : row.table.isHandle = true) (hnew : id ∉ listed.ids row.table) :
    Finishes (inserting' fun d => d.executeWithId id row) d
      ((∀ r ∈ row.references, r ∈ d.database.ids Row.table) ∧ row.passesChecks = true)
      fun _ t => Ready (listed.add row.table id) held t := by
  have hfresh : (row.table, id) ∉ d.database.ids Row.table := fun hmem =>
    hnew ((h.handles _ hhandle id).mp hmem)
  have hunkeyed (db : Database) (k : Key) : row.hasKey db k = false := by
    cases row <;> first | rfl | cases hhandle
  have hunique (e : Nat × Row) : row.clashes e.2 = false := by
    cases row <;> first | rfl | cases hhandle
  have htrack : row.table ≠ .track := fun heq => by
    rw [heq] at hhandle
    cases hhandle
  have hthread : row.table ≠ .thread := fun heq => by
    rw [heq] at hhandle
    cases hhandle
  have hiff : Consistent (d.executeWithId id row).database = true ↔
      (∀ r ∈ row.references, r ∈ d.database.ids Row.table) ∧ row.passesChecks = true :=
    (consistent_cons h.consistent id row).trans
      ⟨fun ha => ⟨ha.foreignKeys, ha.checks⟩, fun ha => ⟨hfresh, ha.1, ha.2, fun e _ => hunique e⟩⟩
  refine finishes_inserting_iff.imp hiff fun _ t hconsistent hresult => ?_
  have haccepts := (consistent_cons h.consistent id row).mp hconsistent
  rw [hresult]
  refine (h.cons haccepts (grows_of_unkeyed h.sound hfresh hunkeyed htrack).sound rfl
    (fun t ht i => mem_add_iff) (fun t => ?_) h.pmcs).drop
  rw [mem_add_iff, or_iff_left fun hand => hthread hand.1.symm]
  exact h.threads t

/-- Where the other ids are held, the references ask for the handles that were inserted. -/
theorem Ready.forall_mem_iff (h : Ready listed held d) {refs : List (Table × Nat)}
    (hheld : ∀ r ∈ refs, r.1.isHandle = false → r ∈ held) :
    (∀ r ∈ refs, r ∈ d.database.ids Row.table) ↔
      ∀ r ∈ refs, r.1.isHandle = true → r.2 ∈ listed.ids r.1 := by
  constructor
  · intro hall r hr hhandle
    exact (h.handles r.1 hhandle r.2).mp (hall r hr)
  · intro hall r hr
    cases hhandle : r.1.isHandle with
    | false => exact h.held r (hheld r hr hhandle)
    | true => exact (h.handles r.1 hhandle r.2).mpr (hall r hr hhandle)

theorem Ready.owner {nid pid : Nat} (h : Ready listed held d) (howner : ∀ r ∈ owner nid pid, r ∈ held) :
    ∀ r ∈ owner nid pid, r ∈ d.database.ids Row.table := fun r hr => h.held r (howner r hr)

section Registry

variable {registry : TraceCache.MetadataRegistry}

theorem finishes_insertQueueInfo (h : Ready listed held d)
    (howner : ∀ r ∈ owner host.nodeId (pid registry), r ∈ held) {handle : UInt64}
    (hnew : handle.toNat ∉ listed.ids .queue) :
    Finishes (insertQueueInfo host registry handle) d True
      fun _ t => Ready (listed.add .queue handle.toNat) held t :=
  (@finishes_executeWithId listed held d h (.queue _) _ rfl hnew).congr
    ⟨fun _ => trivial, fun _ => ⟨h.owner howner, rfl⟩⟩

theorem finishes_insertStreamInfo (h : Ready listed held d)
    (howner : ∀ r ∈ owner host.nodeId (pid registry), r ∈ held) {handle : UInt64}
    (hnew : handle.toNat ∉ listed.ids .stream) :
    Finishes (insertStreamInfo host registry handle) d True
      fun _ t => Ready (listed.add .stream handle.toNat) held t :=
  (@finishes_executeWithId listed held d h (.stream _) _ rfl hnew).congr
    ⟨fun _ => trivial, fun _ => ⟨h.owner howner, rfl⟩⟩

/-! The agents that have their base ids. -/

def agentIds (stored : StoredAgents) : List (Table × Nat) :=
  stored.map fun entry => (.agent, entry.2)

theorem mem_agentIds {stored : StoredAgents} {is : TraceCache.Agent → Bool} {id : Nat}
    (h : stored.baseIdOf is = some id) : (Table.agent, id) ∈ agentIds stored := by
  obtain ⟨entry, hfind, rfl⟩ := Option.map_eq_some_iff.mp h
  exact List.mem_map.mpr ⟨entry, List.mem_of_find?_eq_some hfind, rfl⟩

theorem passesChecks_storageText (storageType : Int32) :
    isOneOf ["FILE", "MEMORY"] (text (storageText host storageType)) = true ↔
      storageType = host.fileStorage ∨ storageType = host.memoryStorage := by
  have hfile : isOneOf ["FILE", "MEMORY"] (text "FILE") = true := by decide +kernel
  have hmemory : isOneOf ["FILE", "MEMORY"] (text "MEMORY") = true := by decide +kernel
  have hunknown : isOneOf ["FILE", "MEMORY"] (text "UNKNOWN") = false := by decide +kernel
  unfold storageText
  split
  · next h => exact ⟨fun _ => Or.inl h, fun _ => hfile⟩
  · next h =>
    split
    · next h' => exact ⟨fun _ => Or.inr h', fun _ => hmemory⟩
    · next h' =>
      rw [hunknown]
      exact ⟨fun heq => (by cases heq), fun hor => (hor.elim h h').elim⟩

theorem finishes_insertCodeObjectInfo (h : Ready listed held d)
    (howner : ∀ r ∈ owner host.nodeId (pid registry), r ∈ held) {stored : StoredAgents}
    (hstored : ∀ r ∈ agentIds stored, r ∈ held) {codeObject : TraceCache.CodeObject}
    (hnew : codeObject.codeObjectId.toNat ∉ listed.ids .codeObject) :
    Finishes (insertCodeObjectInfo host registry stored codeObject) d
      ((stored.baseIdOf fun agent => agent.handle == codeObject.agentIdHandle).isSome = true ∧
        (codeObject.storageType = host.fileStorage ∨ codeObject.storageType = host.memoryStorage))
      fun _ t => Ready (listed.add .codeObject codeObject.codeObjectId.toNat) held t := by
  refine (finishes_ofOption _).bind fun devId t _ hdev => ?_
  rw [hdev.2]
  refine (@finishes_executeWithId listed held d h (.codeObject _) _ rfl hnew).congr ?_
  refine Iff.trans ?_ (passesChecks_storageText codeObject.storageType)
  refine ⟨fun hboth => hboth.2, fun hchecks => ⟨fun r hr => ?_, hchecks⟩⟩
  rcases List.mem_append.mp hr with hr | hr
  · exact h.owner howner r hr
  · rw [List.mem_singleton.mp hr]
    exact h.held _ (hstored _ (mem_agentIds hdev.1))

theorem finishes_insertKernelSymbolInfo (hfresh : FreshRowIds host.rowId)
    (h : Ready listed held d) (howner : ∀ r ∈ owner host.nodeId (pid registry), r ∈ held)
    {kernelSymbol : TraceCache.KernelSymbol}
    (hnew : kernelSymbol.kernelId.toNat ∉ listed.ids .kernelSymbol) :
    Finishes (insertKernelSymbolInfo host registry kernelSymbol) d
      (kernelSymbol.codeObjectId.toNat ∈ listed.ids .codeObject)
      fun _ t => Ready (listed.add .kernelSymbol kernelSymbol.kernelId.toNat) held t := by
  refine ((@finishes_executeWithId listed held d h (.kernelSymbol _) _ rfl hnew).bind
    fun _ t _ ht => finishes_insertStringInfo hfresh ht _).congr ?_
  rw [and_iff_left trivial]
  rw [← h.handles .codeObject rfl]
  constructor
  · intro hboth
    exact hboth.1 _ (List.mem_append_right _ List.mem_cons_self)
  · intro hmem
    refine ⟨fun r hr => ?_, rfl⟩
    rcases List.mem_append.mp hr with hr | hr
    · exact h.owner howner r hr
    · rw [List.mem_singleton.mp hr]
      exact hmem

/-! The descriptions of counters. -/

/-- The `CHECK` constraints of a description. -/
def pmcPasses (pmc : TraceCache.Pmc) : Bool :=
  isOneOf ["CPU", "GPU"] (cStr pmc.targetArch) &&
    isOneOf ["ABS", "ACCUM", "RELATIVE"] (cStr pmc.valueType)

/-- What a description is registered under, if its agent is there. -/
def pmcIdentifier (stored : StoredAgents) (pmc : TraceCache.Pmc) : Option PmcIdentifier :=
  (stored.baseIdOf fun agent =>
    agent.type == pmc.type && agent.deviceTypeIndex == pmc.agentTypeIndex).map fun id =>
      ⟨id, cStr pmc.name⟩

def Listed.describe (listed : Listed) (identifier : Option PmcIdentifier) : Listed :=
  { listed with pmcs := listed.pmcs ++ identifier.toList }

theorem mem_describe_iff {k identifier : PmcIdentifier} :
    k ∈ (listed.describe (some identifier)).pmcs ↔ k ∈ listed.pmcs ∨ k = identifier := by
  show k ∈ listed.pmcs ++ [identifier] ↔ _
  rw [List.mem_append, List.mem_singleton]

/-- A description that is there already stays as it is. -/
theorem insertPmcDescription_of_some {columns : PmcInfo} {id : Nat}
    (h : d.pmcDescriptorMap.lookup ⟨columns.agentId, columns.name⟩ = some id) :
    d.insertPmcDescription host.rowId columns = d := by
  rw [DataProcessor.insertPmcDescription, h]

theorem insertPmcDescription_of_none {columns : PmcInfo}
    (h : d.pmcDescriptorMap.lookup ⟨columns.agentId, columns.name⟩ = none) :
    d.insertPmcDescription host.rowId columns =
      { d with
        database := (host.rowId d.database .pmc, .pmc columns) :: d.database
        pmcDescriptorMap := d.pmcDescriptorMap.insert ⟨columns.agentId, columns.name⟩
          (host.rowId d.database .pmc) } := by
  rw [DataProcessor.insertPmcDescription, h]
  rfl

theorem finishes_insertPmcDescription (hfresh : FreshRowIds host.rowId) (h : Ready listed held d)
    {columns : PmcInfo} (howner : ∀ r ∈ owner columns.nid columns.pid, r ∈ held)
    (hagent : (Table.agent, columns.agentId) ∈ held) :
    Finishes (inserting' fun d => d.insertPmcDescription host.rowId columns) d
      ((Row.pmc columns).passesChecks = true ∨ ⟨columns.agentId, columns.name⟩ ∈ listed.pmcs)
      fun _ t => Ready (listed.describe (some ⟨columns.agentId, columns.name⟩)) held t := by
  have hgrows := (insertPmcDescription_grows hfresh h.sound columns).1
  have hpmcs := h.pmcs ⟨columns.agentId, columns.name⟩
  refine finishes_inserting_iff.imp ?_ fun _ t hconsistent hresult => ?_
  all_goals cases hlookup : d.pmcDescriptorMap.lookup ⟨columns.agentId, columns.name⟩
  · have hnot : ⟨columns.agentId, columns.name⟩ ∉ listed.pmcs := fun hmem => by
      rw [hlookup] at hpmcs
      cases hpmcs.mpr hmem
    rw [or_iff_left hnot, insertPmcDescription_of_none hlookup]
    refine ((consistent_cons h.consistent _ (.pmc columns)).trans
      (@accepts_execute_iff host d hfresh (.pmc columns) fun _ _ => rfl)).trans
        (and_iff_right fun r hr => ?_)
    rcases List.mem_append.mp hr with hr | hr
    · exact h.owner howner r hr
    · rw [List.mem_singleton.mp hr]
      exact h.held _ hagent
  · rw [hlookup] at hpmcs
    rw [insertPmcDescription_of_some hlookup]
    exact ⟨fun _ => Or.inr (hpmcs.mp rfl), fun _ => h.consistent⟩
  · rw [insertPmcDescription_of_none hlookup] at hconsistent hresult hgrows
    have haccepts := (consistent_cons h.consistent _ (.pmc columns)).mp hconsistent
    rw [hresult]
    let listed' := listed.describe (some ⟨columns.agentId, columns.name⟩)
    have hcons := @Ready.cons listed held d _ (.pmc columns) _ h haccepts hgrows.sound rfl listed'
    refine (hcons (fun t ht i => ?_) h.threads fun k => ?_).drop
    · refine ⟨Or.inl, fun hor => hor.resolve_right fun hand => ?_⟩
      rw [hand.1] at ht
      cases ht
    · rw [mem_describe_iff, ← h.pmcs k]
      by_cases hk : k = ⟨columns.agentId, columns.name⟩
      · rw [hk, AList.lookup_insert]
        exact ⟨fun _ => Or.inr rfl, fun _ => rfl⟩
      · rw [AList.lookup_insert_ne hk, or_iff_left hk]
  · rw [hlookup] at hpmcs
    rw [hresult, insertPmcDescription_of_some hlookup]
    refine ⟨h.sound, h.consistent, h.handles, h.threads, fun k => ?_, h.held⟩
    rw [mem_describe_iff, h.pmcs k]
    refine ⟨Or.inl, fun hor => hor.elim (fun hk => hk) fun hk => ?_⟩
    rw [hk]
    exact hpmcs.mp rfl

theorem pmcIdentifier_of_baseIdOf {stored : StoredAgents} {pmc : TraceCache.Pmc} {id : Nat}
    (h : (stored.baseIdOf fun agent =>
      agent.type == pmc.type && agent.deviceTypeIndex == pmc.agentTypeIndex) = some id) :
    pmcIdentifier stored pmc = some ⟨id, cStr pmc.name⟩ := by
  rw [pmcIdentifier, h]
  rfl

theorem finishes_insertPmcInfo (hfresh : FreshRowIds host.rowId) (h : Ready listed held d)
    (howner : ∀ r ∈ owner host.nodeId (pid registry), r ∈ held) {stored : StoredAgents}
    (hstored : ∀ r ∈ agentIds stored, r ∈ held) (pmc : TraceCache.Pmc) :
    Finishes (insertPmcInfo host registry stored pmc) d
      (∃ identifier, pmcIdentifier stored pmc = some identifier ∧
        (pmcPasses pmc = true ∨ identifier ∈ listed.pmcs))
      fun _ t => Ready (listed.describe (pmcIdentifier stored pmc)) held t := by
  let allowed := ∃ identifier, pmcIdentifier stored pmc = some identifier ∧
    (pmcPasses pmc = true ∨ identifier ∈ listed.pmcs)
  have hknown : allowed → (stored.baseIdOf fun agent =>
      agent.type == pmc.type && agent.deviceTypeIndex == pmc.agentTypeIndex).isSome = true := by
    intro hex
    obtain ⟨identifier, heq, _⟩ := hex
    obtain ⟨id, hid, _⟩ := Option.map_eq_some_iff.mp heq
    rw [hid]
    rfl
  refine ((finishes_ofOption _).bind fun id t _ hid => ?_).congr (and_iff_right_of_imp hknown)
  rw [hid.2]
  have hidentifier := pmcIdentifier_of_baseIdOf hid.1
  rw [hidentifier]
  refine (finishes_insertPmcDescription hfresh h howner (hstored _ (mem_agentIds hid.1))).congr ?_
  constructor
  · exact fun hor => ⟨_, rfl, hor⟩
  · intro hex
    obtain ⟨identifier, heq, hor⟩ := hex
    cases heq
    exact hor

/-! The agents. -/

theorem typeText_passes (agent : TraceCache.Agent) :
    isOneOf ["CPU", "GPU"] (text (if agent.type = Core.agentTypeGpu then "GPU" else "CPU")) =
      true := by
  have hgpu : isOneOf ["CPU", "GPU"] (text "GPU") = true := by decide +kernel
  have hcpu : isOneOf ["CPU", "GPU"] (text "CPU") = true := by decide +kernel
  split
  · exact hgpu
  · exact hcpu

/-- The agents keep their order, and their ids are new. -/
structure Stores (agents : List TraceCache.Agent) (d : DataProcessor) (stored : StoredAgents) :
    Prop where
  agents : stored.map Prod.fst = agents
  nodup : (stored.map Prod.snd).Nodup
  fresh : ∀ r ∈ agentIds stored, r ∉ d.database.ids Row.table

theorem finishes_insertAgents (hfresh : FreshRowIds host.rowId) (h : Ready listed held d)
    (howner : ∀ r ∈ owner host.nodeId (pid registry), r ∈ held) (counter : Nat)
    (agents : List TraceCache.Agent) :
    Finishes (insertAgents host registry counter agents) d True fun stored t =>
      Ready listed (agentIds stored ++ held) t ∧ Stores agents d stored := by
  induction agents generalizing counter held d with
  | nil =>
    exact finishes_pure ⟨h, rfl, List.nodup_nil, fun _ hr => absurd hr List.not_mem_nil⟩
  | cons agent agents ih =>
    have hfirst := @finishes_execute host listed held d hfresh h
      (.agent (agentColumns host registry counter agent)) rfl
    have hallowed : (∀ r ∈ owner host.nodeId (pid registry), r ∈ d.database.ids Row.table) ∧
        isOneOf ["CPU", "GPU"] (text (if agent.type = Core.agentTypeGpu then "GPU" else "CPU")) =
          true := ⟨h.owner howner, typeText_passes agent⟩
    refine (hfirst.bind fun id t _ ht => ?_).congr (and_iff_right hallowed)
    have hrest := ih ht.1 (fun r hr => List.mem_cons_of_mem _ (howner r hr)) (counter + 1)
    refine (hrest.bind fun stored t' _ ht' => finishes_pure ?_).congr (and_iff_left trivial)
    obtain ⟨hready, hstores⟩ := ht'
    refine ⟨hready.weaken fun r hr => ?_, congrArg (agent :: ·) hstores.agents,
      List.nodup_cons.mpr ⟨fun hmem => ?_, hstores.nodup⟩, fun r hr => ?_⟩
    · rcases List.mem_cons.mp hr with rfl | hr
      · exact List.mem_append_right _ List.mem_cons_self
      · rcases List.mem_append.mp hr with hr | hr
        · exact List.mem_append_left _ hr
        · exact List.mem_append_right _ (List.mem_cons_of_mem _ hr)
    · obtain ⟨entry, hentry, heq⟩ := List.mem_map.mp hmem
      refine hstores.fresh _ (List.mem_map.mpr ⟨entry, hentry, rfl⟩) ?_
      rw [heq]
      exact ht.1.held _ List.mem_cons_self
    · rcases List.mem_cons.mp hr with rfl | hr
      · exact ht.2.1
      · exact fun hmem => hstores.fresh r hr (ht.2.2 r hmem)

end Registry

end Inserts

end Rocpd
end Rocprofsys
