import Rocprofsys.Rocpd.DataProcessor

namespace Rocprofsys
namespace Rocpd

open Base
open TraceCache (Bytes)

/-! ## Calls -/

inductive Call where
  | insertString (str : Bytes)
  | insertNodeInfo (id : Nat) (columns : NodeInfo)
  | insertProcessInfo (columns : ProcessInfo)
  | insertAgent (columns : AgentInfo)
  | insertTrack (name : Bytes) (nid pid : Nat) (tid : Option Nat) (extdata : Bytes)
  | insertPmcDescription (columns : PmcInfo)
  | insertPmcEvent (eventId agentId : Nat) (name : Bytes) (value : Double) (extdata : Bytes)
  | insertSample (track : Bytes) (timestamp eventId : Nat) (extdata : Bytes)
  | insertEvent (columns : Event)
  | insertArgs (columns : Arg)
  | insertStreamInfo (id : Nat) (columns : HandleInfo)
  | insertQueueInfo (id : Nat) (columns : HandleInfo)
  | insertCodeObject (id : Nat) (columns : CodeObject)
  | insertKernelSymbol (id : Nat) (columns : KernelSymbol)
  | insertRegion (columns : Region)
  | insertKernelDispatch (columns : KernelDispatch)
  | insertMemoryCopy (columns : MemoryCopy)
  | insertMemoryAlloc (columns : MemoryAllocate)
  | insertThreadInfo (columns : ThreadInfo)
  | mapThreadId (threadId : Nat)

/-- The ids of rows that the caller passes. -/
def Call.references : Call → List (Table × Nat)
  | .insertString _ => []
  | .insertNodeInfo _ _ => []
  | .insertProcessInfo columns => (Row.process columns).references
  | .insertAgent columns => (Row.agent columns).references
  | .insertTrack _ nid pid tid _ => owner nid pid ++ tid.toList.map fun tid => (.thread, tid)
  | .insertPmcDescription columns => (Row.pmc columns).references
  | .insertPmcEvent eventId _ _ _ _ => [(.event, eventId)]
  | .insertSample _ _ eventId _ => [(.event, eventId)]
  | .insertEvent columns => (Row.event columns).references
  | .insertArgs columns => (Row.arg columns).references
  | .insertStreamInfo _ columns => (Row.stream columns).references
  | .insertQueueInfo _ columns => (Row.queue columns).references
  | .insertCodeObject _ columns => (Row.codeObject columns).references
  | .insertKernelSymbol _ columns => (Row.kernelSymbol columns).references
  | .insertRegion columns => (Row.region columns).references
  | .insertKernelDispatch columns => (Row.kernelDispatch columns).references
  | .insertMemoryCopy columns => (Row.memoryCopy columns).references
  | .insertMemoryAlloc columns => (Row.memoryAllocate columns).references
  | .insertThreadInfo columns => (Row.thread columns).references
  | .mapThreadId _ => []

/-- A processor, the keys it was asked to insert, the ids it answered for keys (returned to the
caller, or written to a row), and the ids the callers hold. -/
structure Session where
  processor : DataProcessor
  asked : List Key
  answered : List (Key × Nat)
  held : List (Table × Nat)

namespace Session

def initial : Session := ⟨.empty, [], [], []⟩

def after (s : Session) (d : DataProcessor) (asked : List Key) (answered : List (Key × Nat))
    (held : List (Table × Nat)) : Session :=
  ⟨d, asked ++ s.asked, answered ++ s.answered, held ++ s.held⟩

/-- The database accepts an id that its table does not have yet. -/
def accepted (s : Session) (table : Table) (id : Nat) (d : DataProcessor) : Option Session :=
  if (table, id) ∈ s.processor.database.ids Row.table then none
  else some (s.after d [] [] [(table, id)])

def step (rowId : Database → Table → Nat) (s : Session) : Call → Option Session
  | .insertString str =>
    let r := s.processor.insertString rowId str
    some (s.after r.1 [.string str] [(.string str, r.2)] [(.string, r.2)])
  | .insertNodeInfo id columns => s.accepted .node id (s.processor.insertNodeInfo id columns)
  | .insertProcessInfo columns =>
    s.accepted .process columns.pid (s.processor.insertProcessInfo columns)
  | .insertAgent columns =>
    let r := s.processor.insertAgent rowId columns
    some (s.after r.1 [] [] [(.agent, r.2)])
  | .insertTrack name nid pid tid extdata =>
    some (s.after (s.processor.insertTrack rowId name nid pid tid extdata)
      [.track name, .string name] [] [])
  | .insertPmcDescription columns =>
    some (s.after (s.processor.insertPmcDescription rowId columns)
      [.pmc columns.agentId columns.name] [] [])
  | .insertPmcEvent eventId agentId name value extdata =>
    some (s.after (s.processor.insertPmcEvent rowId eventId agentId name value extdata) []
      ((s.processor.pmcDescriptorMap.lookup ⟨agentId, name⟩).toList.map fun id =>
        (.pmc agentId name, id)) [])
  | .insertSample track timestamp eventId extdata =>
    some (s.after (s.processor.insertSample rowId track timestamp eventId extdata) []
      ((s.processor.tracks.lookup track).toList.map fun info => (.track track, info.trackId)) [])
  | .insertEvent columns =>
    let r := s.processor.insertEvent rowId columns
    some (s.after r.1 [] [] [(.event, r.2)])
  | .insertArgs columns => some (s.after (s.processor.insertArgs rowId columns) [] [] [])
  | .insertStreamInfo id columns =>
    s.accepted .stream id (s.processor.insertStreamInfo id columns)
  | .insertQueueInfo id columns => s.accepted .queue id (s.processor.insertQueueInfo id columns)
  | .insertCodeObject id columns =>
    s.accepted .codeObject id (s.processor.insertCodeObject id columns)
  | .insertKernelSymbol id columns =>
    s.accepted .kernelSymbol id (s.processor.insertKernelSymbol id columns)
  | .insertRegion columns => some (s.after (s.processor.insertRegion rowId columns) [] [] [])
  | .insertKernelDispatch columns =>
    some (s.after (s.processor.insertKernelDispatch rowId columns) [] [] [])
  | .insertMemoryCopy columns =>
    some (s.after (s.processor.insertMemoryCopy rowId columns) [] [] [])
  | .insertMemoryAlloc columns =>
    some (s.after (s.processor.insertMemoryAlloc rowId columns) [] [] [])
  | .insertThreadInfo columns =>
    let r := s.processor.insertThreadInfo rowId columns
    some (s.after r.1 [.thread columns.tid] [(.thread columns.tid, r.2)] [(.thread, r.2)])
  | .mapThreadId threadId =>
    let ids := (s.processor.mapThreadIdToPrimaryKey threadId).toList
    some (s.after s.processor [] (ids.map fun id => (.thread threadId, id))
      (ids.map fun id => (.thread, id)))

/-- The caller passes ids that it was given by, or gave to, calls before. -/
def Uses (s : Session) (call : Call) : Prop := ∀ r ∈ call.references, r ∈ s.held

end Session

/-! ## Registries and rows -/

def DataProcessor.registered (d : DataProcessor) : Key → Option Nat
  | .string str => d.stringMap.lookup str
  | .track name => (d.tracks.lookup name).map TrackNameMap.trackId
  | .pmc agentId name => d.pmcDescriptorMap.lookup ⟨agentId, name⟩
  | .thread threadId => d.threadIdMap.lookup threadId

/-- The registries hold the id of the only row of each of their keys. -/
structure Sound (d : DataProcessor) : Prop where
  registers : Rows.Registers Row.hasKey d.database d.registered
  nodup : (d.database.ids Row.table).Nodup
  trackNames : ∀ e ∈ d.database, ∀ r, e.2 = .track r →
    (.string, r.nameId) ∈ d.database.ids Row.table

theorem sound_empty : Sound .empty := by
  refine ⟨fun k => ?_, List.nodup_nil, fun _ h => absurd h List.not_mem_nil⟩
  cases k <;> rfl

section Insert

variable {d : DataProcessor} {id : Nat} {row : Row}

theorem eq_string_of_isString {name : Bytes} (h : row.isString name = true) :
    row = .string name := by
  cases row with
  | string s => exact congrArg Row.string (beq_iff_eq.mp h)
  | _ => cases h

theorem hasKey_track_cons {r : Track} {name : Bytes} (db : Database)
    (hne : (Table.string, r.nameId) ≠ (row.table, id)) :
    Row.hasKey ((id, row) :: db) (.track r) (.track name) =
      Row.hasKey db (.track r) (.track name) := by
  show (((id == r.nameId) && row.isString name) || _) = _
  cases hmatch : (id == r.nameId) && row.isString name with
  | false => rfl
  | true =>
    obtain ⟨hid, hstring⟩ := (Bool.and_eq_true _ _).mp hmatch
    rw [eq_string_of_isString hstring, ← beq_iff_eq.mp hid] at hne
    exact absurd rfl hne

/-- A new row changes no key of the rows before. -/
theorem Sound.keeps (h : Sound d) (hfresh : (row.table, id) ∉ d.database.ids Row.table) :
    Rows.Keeps Row.hasKey (id, row) d.database := by
  rintro ⟨i, r⟩ hmem k
  cases r with
  | track r =>
    cases k with
    | track name =>
      refine hasKey_track_cons _ fun heq => hfresh ?_
      rw [← heq]
      exact h.trackNames _ hmem r rfl
    | _ => rfl
  | _ => cases k <;> rfl

/-- What an insert leaves, where the rows have the ids that were passed to it. -/
structure Grows (passed : List (Table × Nat)) (d d' : DataProcessor) : Prop where
  sound : Sound d'
  registered : ∀ k i, d.registered k = some i → d'.registered k = some i
  ids : ∀ r ∈ d.database.ids Row.table, r ∈ d'.database.ids Row.table
  referential : (∀ r ∈ passed, r ∈ d.database.ids Row.table) →
    d.database.Referential Row.table Row.references →
      d'.database.Referential Row.table Row.references

theorem Grows.refl (h : Sound d) (passed : List (Table × Nat)) : Grows passed d d :=
  ⟨h, fun _ _ hk => hk, fun _ hr => hr, fun _ hdb => hdb⟩

theorem Grows.of_nil {d' : DataProcessor} (h : Grows [] d d') (passed : List (Table × Nat)) :
    Grows passed d d' :=
  ⟨h.sound, h.registered, h.ids, fun _ => h.referential fun _ hr => absurd hr List.not_mem_nil⟩

theorem Grows.trans {passed passed' : List (Table × Nat)} {d' d'' : DataProcessor}
    (h : Grows passed d d') (h' : Grows passed' d' d'')
    (hpassed : ∀ r ∈ passed', r ∈ passed ∨ r ∈ d'.database.ids Row.table) :
    Grows passed d d'' := by
  refine ⟨h'.sound, fun k i hk => h'.registered k i (h.registered k i hk),
    fun r hr => h'.ids r (h.ids r hr), fun hin hdb => ?_⟩
  refine h'.referential (fun r hr => ?_) (h.referential hin hdb)
  rcases hpassed r hr with hr | hr
  · exact h.ids r (hin r hr)
  · exact hr

/-- A row of no key. -/
theorem grows_of_unkeyed (h : Sound d) (hfresh : (row.table, id) ∉ d.database.ids Row.table)
    (hunkeyed : ∀ db k, row.hasKey db k = false) (htrack : row.table ≠ .track) :
    Grows row.references d (d.executeWithId id row) := by
  refine ⟨⟨h.registers.cons_of_none (h.keeps hfresh) fun k => hunkeyed _ k,
    List.nodup_cons.mpr ⟨hfresh, h.nodup⟩, ?_⟩, fun _ _ h => h,
    fun r hr => Rows.mem_ids_cons _ hr,
    fun hin hdb => Rows.referential_cons Row.table Row.references hdb hin⟩
  intro e he r hr
  rcases List.mem_cons.mp he with rfl | he
  · exact absurd (congrArg Row.table hr) htrack
  · exact Rows.mem_ids_cons _ (h.trackNames e he r hr)

/-- A row of a key that is registered from then on. -/
theorem grows_of_keyed (h : Sound d) (hfresh : (row.table, id) ∉ d.database.ids Row.table)
    {k : Key} (hnew : d.registered k = none)
    (hkey : ∀ k', row.hasKey ((id, row) :: d.database) k' = true ↔ k' = k)
    (htrack : ∀ r, row = .track r → (.string, r.nameId) ∈ d.database.ids Row.table)
    {d' : DataProcessor} (hdatabase : d'.database = (id, row) :: d.database)
    (hself : d'.registered k = some id)
    (hother : ∀ k', k' ≠ k → d'.registered k' = d.registered k') :
    Grows row.references d d' := by
  have hregisters := h.registers.cons_of_new (h.keeps hfresh) hnew hkey hself hother
  rw [← hdatabase] at hregisters
  refine ⟨⟨hregisters, ?_, ?_⟩, ?_, ?_, ?_⟩
  · rw [hdatabase]
    exact List.nodup_cons.mpr ⟨hfresh, h.nodup⟩
  · rw [hdatabase]
    intro e he r hr
    rcases List.mem_cons.mp he with rfl | he
    · exact Rows.mem_ids_cons _ (htrack r hr)
    · exact Rows.mem_ids_cons _ (h.trackNames e he r hr)
  · intro k' i hk'
    have hne : k' ≠ k := by
      intro heq
      subst heq
      rw [hnew] at hk'
      cases hk'
    rw [hother k' hne]
    exact hk'
  · rw [hdatabase]
    exact fun r hr => Rows.mem_ids_cons _ hr
  · rw [hdatabase]
    exact fun hin hdb => Rows.referential_cons Row.table Row.references hdb hin

def Key.table : Key → Table
  | .string _ => .string
  | .track _ => .track
  | .pmc _ _ => .pmc
  | .thread _ => .thread

theorem table_of_hasKey {db : Database} {k : Key} (h : row.hasKey db k = true) :
    row.table = k.table := by
  cases row <;> cases k <;> first | rfl | cases h

/-- A registered id is the id of a row. -/
theorem Sound.mem_ids (h : Sound d) {k : Key} {i : Nat} (hk : d.registered k = some i) :
    (k.table, i) ∈ d.database.ids Row.table := by
  obtain ⟨row, hmem, hkey⟩ := h.registers.exists_row hk
  rw [← table_of_hasKey hkey]
  exact Rows.mem_ids_of_mem hmem

end Insert

/-! ## Inserts -/

section RowId

variable {rowId : Database → Table → Nat} {d : DataProcessor}

/-- Every row id that the database hands out is new in its table. -/
def FreshRowIds (rowId : Database → Table → Nat) : Prop :=
  ∀ (db : Database) table, (table, rowId db table) ∉ db.ids Row.table

theorem grows_of_execute (hfresh : FreshRowIds rowId) (h : Sound d) {row : Row}
    (hunkeyed : ∀ db k, row.hasKey db k = false) (htrack : row.table ≠ .track) :
    Grows row.references d (d.execute rowId row).1 :=
  grows_of_unkeyed h (hfresh d.database row.table) hunkeyed htrack

/-- What an insert of a key answers is registered for the key. -/
structure Answers (passed : List (Table × Nat)) (d : DataProcessor) (k : Key)
    (r : DataProcessor × Nat) : Prop where
  grows : Grows passed d r.1
  answer : r.1.registered k = some r.2

theorem hasKey_string_iff (db : Database) (str : Bytes) (k : Key) :
    Row.hasKey db (.string str) k = true ↔ k = .string str := by
  cases k with
  | string s =>
    show (str == s) = true ↔ _
    rw [beq_iff_eq, Key.string.injEq]
    exact eq_comm
  | _ =>
    constructor
    · intro h
      cases h
    · intro h
      cases h

theorem hasKey_thread_iff (db : Database) (columns : ThreadInfo) (k : Key) :
    Row.hasKey db (.thread columns) k = true ↔ k = .thread columns.tid := by
  cases k with
  | thread t =>
    show (columns.tid == t) = true ↔ _
    rw [beq_iff_eq, Key.thread.injEq]
    exact eq_comm
  | _ =>
    constructor
    · intro h
      cases h
    · intro h
      cases h

theorem hasKey_pmc_iff (db : Database) (columns : PmcInfo) (k : Key) :
    Row.hasKey db (.pmc columns) k = true ↔ k = .pmc columns.agentId columns.name := by
  cases k with
  | pmc agentId name =>
    show ((columns.agentId == agentId) && (columns.name == name)) = true ↔ _
    rw [Bool.and_eq_true, beq_iff_eq, beq_iff_eq, Key.pmc.injEq]
    exact and_congr eq_comm eq_comm
  | _ =>
    constructor
    · intro h
      cases h
    · intro h
      cases h

theorem insertString_answers (hfresh : FreshRowIds rowId) (h : Sound d) (str : Bytes) :
    Answers [] d (.string str) (d.insertString rowId str) := by
  unfold DataProcessor.insertString
  split
  · next id hid => exact ⟨Grows.refl h [], hid⟩
  · next hnone =>
    refine ⟨@grows_of_keyed d (rowId d.database .string) (.string str) h (hfresh _ _)
      (.string str) hnone (hasKey_string_iff _ str) ?_ _ rfl (AList.lookup_insert _) ?_,
      AList.lookup_insert _⟩
    · intro _ hr
      cases hr
    · intro k' hne
      cases k' with
      | string s => exact AList.lookup_insert_ne fun heq => hne (congrArg Key.string heq)
      | _ => rfl

theorem insertThreadInfo_answers (hfresh : FreshRowIds rowId) (h : Sound d)
    (columns : ThreadInfo) :
    Answers (Row.thread columns).references d (.thread columns.tid)
      (d.insertThreadInfo rowId columns) := by
  unfold DataProcessor.insertThreadInfo
  split
  · next id hid => exact ⟨Grows.refl h _, hid⟩
  · next hnone =>
    refine ⟨@grows_of_keyed d (rowId d.database .thread) (.thread columns) h (hfresh _ _)
      (.thread columns.tid) hnone (hasKey_thread_iff _ columns) ?_ _ rfl
      (AList.lookup_insert _) ?_, AList.lookup_insert _⟩
    · intro _ hr
      cases hr
    · intro k' hne
      cases k' with
      | thread t => exact AList.lookup_insert_ne fun heq => hne (congrArg Key.thread heq)
      | _ => rfl

theorem insertPmcDescription_grows (hfresh : FreshRowIds rowId) (h : Sound d)
    (columns : PmcInfo) :
    Grows (Row.pmc columns).references d (d.insertPmcDescription rowId columns) ∧
      ∃ id, (d.insertPmcDescription rowId columns).registered
        (.pmc columns.agentId columns.name) = some id := by
  unfold DataProcessor.insertPmcDescription
  split
  · next id hid => exact ⟨Grows.refl h _, id, hid⟩
  · next hnone =>
    refine ⟨@grows_of_keyed d (rowId d.database .pmc) (.pmc columns) h (hfresh _ _)
      (.pmc columns.agentId columns.name) hnone (hasKey_pmc_iff _ columns) ?_ _ rfl
      (AList.lookup_insert _) ?_, _, AList.lookup_insert _⟩
    · intro _ hr
      cases hr
    · intro k' hne
      cases k' with
      | pmc agentId name =>
        refine AList.lookup_insert_ne fun heq => hne ?_
        injection heq with hagent hname
        rw [hagent, hname]
      | _ => rfl

/-- A track has the key of the string whose id it was given, and no other. -/
theorem hasKey_track_iff (h : Sound d) {name : Bytes} {id : Nat} {r : Track}
    (hname : d.registered (.string name) = some r.nameId) (k : Key) :
    Row.hasKey ((id, .track r) :: d.database) (.track r) k = true ↔ k = .track name := by
  cases k with
  | track name' =>
    have hne : (Table.string, r.nameId) ≠ (Table.track, id) := fun heq => by cases heq
    rw [@hasKey_track_cons id (.track r) r name' d.database hne, Key.track.injEq]
    obtain ⟨row, hmem, hkey⟩ := h.registers.exists_row hname
    have hrow : row.isString name = true := by
      cases row with
      | string s => exact hkey
      | _ => cases hkey
    constructor
    · intro hany
      obtain ⟨e, he, hmatch⟩ := List.any_eq_true.mp hany
      obtain ⟨hid, hstring⟩ := (Bool.and_eq_true _ _).mp hmatch
      have htable : e.2.table = row.table := by
        rw [eq_string_of_isString hstring, eq_string_of_isString hrow]
        rfl
      have heq := Rows.eq_of_mem_of_nodup h.nodup he hmem htable (beq_iff_eq.mp hid)
      have hstrings : Row.string name' = .string name := by
        rw [← eq_string_of_isString hstring, ← eq_string_of_isString hrow, heq]
      injection hstrings
    · intro heq
      subst heq
      refine List.any_eq_true.mpr ⟨_, hmem, ?_⟩
      rw [Bool.and_eq_true]
      exact ⟨beq_self_eq_true _, hrow⟩
  | _ =>
    constructor
    · intro h
      cases h
    · intro h
      cases h

/-- The name of a track is registered as a string. -/
theorem Sound.string_of_track (h : Sound d) {name : Bytes} {id : Nat}
    (htrack : d.registered (.track name) = some id) :
    ∃ nameId, d.registered (.string name) = some nameId := by
  obtain ⟨row, -, hkey⟩ := h.registers.exists_row htrack
  cases row with
  | track r =>
    obtain ⟨e, he, hmatch⟩ := List.any_eq_true.mp hkey
    have hstring := eq_string_of_isString ((Bool.and_eq_true _ _).mp hmatch).2
    refine ⟨e.1, h.registers.of_mem he ?_⟩
    rw [hstring]
    exact (hasKey_string_iff _ name _).mpr rfl
  | _ => cases hkey

theorem tracks_insertString (d : DataProcessor) (str : Bytes) :
    (d.insertString rowId str).1.tracks = d.tracks := by
  unfold DataProcessor.insertString
  split
  · rfl
  · rfl

/-- The track row of a name that has its string, registered. -/
theorem track_answers (hfresh : FreshRowIds rowId) (h : Sound d) {name : Bytes} {r : Track}
    (hname : d.registered (.string name) = some r.nameId) (hnew : d.tracks.lookup name = none) :
    Answers (Row.track r).references d (.track name)
      ({ (d.execute rowId (.track r)).1 with
        tracks := d.tracks.insert name ⟨rowId d.database .track, r.nameId⟩ },
        rowId d.database .track) := by
  have hnone : d.registered (.track name) = none := by
    rw [DataProcessor.registered, hnew]
    rfl
  have hself : ((d.tracks.insert name ⟨rowId d.database .track, r.nameId⟩).lookup name).map
      TrackNameMap.trackId = some (rowId d.database .track) := by
    rw [AList.lookup_insert]
    rfl
  refine ⟨@grows_of_keyed d (rowId d.database .track) (.track r) h (hfresh _ _) (.track name)
    hnone (hasKey_track_iff h hname) ?_ _ rfl hself ?_, hself⟩
  · intro r' hr
    cases hr
    exact h.mem_ids hname
  · intro k' hne
    cases k' with
    | track name' =>
      show ((d.tracks.insert name _).lookup name').map _ = (d.tracks.lookup name').map _
      rw [AList.lookup_insert_ne fun heq => hne (congrArg Key.track heq)]
    | _ => rfl

theorem insertTrack_grows (hfresh : FreshRowIds rowId) (h : Sound d) (name : Bytes)
    (nid pid : Nat) (tid : Option Nat) (extdata : Bytes) :
    Grows (owner nid pid ++ tid.toList.map fun tid => (.thread, tid)) d
        (d.insertTrack rowId name nid pid tid extdata) ∧
      ∀ k ∈ [Key.track name, .string name],
        ∃ id, (d.insertTrack rowId name nid pid tid extdata).registered k = some id := by
  have hstring := insertString_answers hfresh h name
  have htracks := @tracks_insertString rowId d name
  unfold DataProcessor.insertTrack
  split
  · next info hinfo =>
    have htrack : d.registered (.track name) = some info.trackId := by
      rw [DataProcessor.registered, hinfo]
      rfl
    refine ⟨Grows.refl h _, fun k hk => ?_⟩
    rcases List.mem_cons.mp hk with rfl | hk
    · exact ⟨_, htrack⟩
    · rw [List.mem_singleton.mp hk]
      exact h.string_of_track htrack
  · next hnone =>
    generalize d.insertString rowId name = named at hstring htracks
    obtain ⟨d', nameId⟩ := named
    have hsound := hstring.grows.sound
    have hname := hstring.answer
    dsimp only at hsound hname htracks ⊢
    have htrack := @track_answers rowId d' hfresh hsound name
      ⟨nid, pid, tid, nameId, extdata⟩ hname (htracks ▸ hnone)
    refine ⟨(hstring.grows.of_nil _).trans htrack.grows fun r hr => ?_, fun k hk => ?_⟩
    · rcases List.mem_append.mp hr with hr | hr
      · exact Or.inl hr
      · rw [List.mem_singleton.mp hr]
        exact Or.inr (hsound.mem_ids hname)
    · rcases List.mem_cons.mp hk with rfl | hk
      · exact ⟨_, htrack.answer⟩
      · rw [List.mem_singleton.mp hk]
        exact ⟨_, htrack.grows.registered _ _ hname⟩

/-- An event of a description that is registered. -/
theorem insertPmcEvent_grows (hfresh : FreshRowIds rowId) (h : Sound d) (eventId agentId : Nat)
    (name : Bytes) (value : Double) (extdata : Bytes) :
    Grows [(.event, eventId)] d (d.insertPmcEvent rowId eventId agentId name value extdata) := by
  unfold DataProcessor.insertPmcEvent
  split
  · exact Grows.refl h _
  · next pmcId hpmc =>
    have hrow := @grows_of_execute rowId d hfresh h
      (.pmcEvent ⟨eventId, pmcId, value, extdata⟩) (fun _ _ => rfl) (fun heq => by cases heq)
    refine (Grows.refl h _).trans hrow fun r hr => ?_
    rcases List.mem_cons.mp hr with rfl | hr
    · exact Or.inr (@Sound.mem_ids d h (.pmc agentId name) pmcId hpmc)
    · exact Or.inl hr

theorem insertSample_grows (hfresh : FreshRowIds rowId) (h : Sound d) (track : Bytes)
    (timestamp eventId : Nat) (extdata : Bytes) :
    Grows [(.event, eventId)] d (d.insertSample rowId track timestamp eventId extdata) := by
  unfold DataProcessor.insertSample
  split
  · exact Grows.refl h _
  · next info hinfo =>
    have hrow := @grows_of_execute rowId d hfresh h
      (.sample ⟨info.trackId, timestamp, eventId, extdata⟩) (fun _ _ => rfl)
      (fun heq => by cases heq)
    have htrack : d.registered (.track track) = some info.trackId := by
      rw [DataProcessor.registered, hinfo]
      rfl
    refine (Grows.refl h _).trans hrow fun r hr => ?_
    rcases List.mem_cons.mp hr with rfl | hr
    · exact Or.inr (h.mem_ids htrack)
    · exact Or.inl hr

end RowId

/-! ## Sessions -/

/-- What was asked for is registered, what was answered is registered for its key, and what is
held is there. -/
structure Session.Kept (s : Session) : Prop where
  sound : Sound s.processor
  asked : ∀ k ∈ s.asked, ∃ id, s.processor.registered k = some id
  answered : ∀ a ∈ s.answered, s.processor.registered a.1 = some a.2
  held : ∀ r ∈ s.held, r ∈ s.processor.database.ids Row.table

theorem kept_initial : Session.initial.Kept :=
  ⟨sound_empty, fun _ h => absurd h List.not_mem_nil, fun _ h => absurd h List.not_mem_nil,
    fun _ h => absurd h List.not_mem_nil⟩

section Step

variable {rowId : Database → Table → Nat} {s : Session}

/-- A session in which every row refers to rows before it. -/
def Session.Referential (s : Session) : Prop :=
  s.processor.database.Referential Row.table Row.references

/-- What a step leaves. -/
structure Session.Leaves (passed : List (Table × Nat)) (s s' : Session) : Prop where
  kept : s'.Kept
  referential : (∀ r ∈ passed, r ∈ s.held) → s.Referential → s'.Referential

theorem leaves_after (hs : s.Kept) {passed : List (Table × Nat)} {d : DataProcessor}
    (h : Grows passed s.processor d) {asked : List Key} {answered : List (Key × Nat)}
    {held : List (Table × Nat)} (hasked : ∀ k ∈ asked, ∃ id, d.registered k = some id)
    (hanswered : ∀ a ∈ answered, d.registered a.1 = some a.2)
    (hheld : ∀ r ∈ held, r ∈ d.database.ids Row.table) :
    Session.Leaves passed s (s.after d asked answered held) := by
  refine ⟨⟨h.sound, fun k hk => ?_, fun a ha => ?_, fun r hr => ?_⟩, fun hpassed hdb => ?_⟩
  · rcases List.mem_append.mp hk with hk | hk
    · exact hasked k hk
    · obtain ⟨id, hid⟩ := hs.asked k hk
      exact ⟨id, h.registered k id hid⟩
  · rcases List.mem_append.mp ha with ha | ha
    · exact hanswered a ha
    · exact h.registered _ _ (hs.answered a ha)
  · rcases List.mem_append.mp hr with hr | hr
    · exact hheld r hr
    · exact h.ids r (hs.held r hr)
  · exact h.referential (fun r hr => hs.held r (hpassed r hr)) hdb

/-- A step that asks for and answers nothing. -/
theorem leaves_after_held (hs : s.Kept) {passed : List (Table × Nat)} {d : DataProcessor}
    (h : Grows passed s.processor d) {held : List (Table × Nat)}
    (hheld : ∀ r ∈ held, r ∈ d.database.ids Row.table) :
    Session.Leaves passed s (s.after d [] [] held) :=
  leaves_after hs h (fun _ hk => absurd hk List.not_mem_nil)
    (fun _ ha => absurd ha List.not_mem_nil) hheld

theorem leaves_execute (hfresh : FreshRowIds rowId) (hs : s.Kept) {row : Row}
    (hunkeyed : ∀ db k, row.hasKey db k = false) (htrack : row.table ≠ .track) :
    Session.Leaves row.references s (s.after (s.processor.execute rowId row).1 [] [] []) :=
  leaves_after_held hs (grows_of_execute hfresh hs.sound hunkeyed htrack)
    (fun _ hr => absurd hr List.not_mem_nil)

/-- A row whose id the caller gets. -/
theorem leaves_execute_held (hfresh : FreshRowIds rowId) (hs : s.Kept) {row : Row}
    (hunkeyed : ∀ db k, row.hasKey db k = false) (htrack : row.table ≠ .track) :
    Session.Leaves row.references s (s.after (s.processor.execute rowId row).1 [] []
      [(row.table, (s.processor.execute rowId row).2)]) := by
  refine leaves_after_held hs (grows_of_execute hfresh hs.sound hunkeyed htrack) fun r hr => ?_
  rw [List.mem_singleton.mp hr]
  exact Rows.mem_ids_cons_self _ _

/-- A row whose id the caller gives. -/
theorem leaves_accepted (hs : s.Kept) {row : Row} {id : Nat} {s' : Session}
    (haccepted : s.accepted row.table id (s.processor.executeWithId id row) = some s')
    (hunkeyed : ∀ db k, row.hasKey db k = false) (htrack : row.table ≠ .track) :
    Session.Leaves row.references s s' := by
  unfold Session.accepted at haccepted
  split at haccepted
  · cases haccepted
  · next hfresh =>
    cases haccepted
    refine leaves_after_held hs (grows_of_unkeyed hs.sound hfresh hunkeyed htrack) fun r hr => ?_
    rw [List.mem_singleton.mp hr]
    exact Rows.mem_ids_cons_self _ _

/-- An insert of a key that answers its id. -/
theorem leaves_of_answers (hs : s.Kept) {passed : List (Table × Nat)} {k : Key}
    {r : DataProcessor × Nat} (h : Answers passed s.processor k r) :
    Session.Leaves passed s (s.after r.1 [k] [(k, r.2)] [(k.table, r.2)]) := by
  refine leaves_after hs h.grows (fun k' hk' => ?_) (fun a ha => ?_) fun r' hr' => ?_
  · rw [List.mem_singleton.mp hk']
    exact ⟨_, h.answer⟩
  · rw [List.mem_singleton.mp ha]
    exact h.answer
  · rw [List.mem_singleton.mp hr']
    exact h.grows.sound.mem_ids h.answer

theorem leaves_step (hfresh : FreshRowIds rowId) (hs : s.Kept) {call : Call} {s' : Session}
    (hstep : s.step rowId call = some s') : Session.Leaves call.references s s' := by
  cases call with
  | insertString str =>
    cases hstep
    exact leaves_of_answers hs (insertString_answers hfresh hs.sound str)
  | insertNodeInfo id columns =>
    exact @leaves_accepted s hs (.node columns) id s' hstep (fun _ _ => rfl)
      (fun heq => by cases heq)
  | insertProcessInfo columns =>
    exact @leaves_accepted s hs (.process columns) columns.pid s' hstep (fun _ _ => rfl)
      (fun heq => by cases heq)
  | insertAgent columns =>
    cases hstep
    exact @leaves_execute_held rowId s hfresh hs (.agent columns) (fun _ _ => rfl)
      (fun heq => by cases heq)
  | insertTrack name nid pid tid extdata =>
    cases hstep
    obtain ⟨hgrows, hasked⟩ := insertTrack_grows hfresh hs.sound name nid pid tid extdata
    exact leaves_after hs hgrows hasked (fun _ ha => absurd ha List.not_mem_nil)
      (fun _ hr => absurd hr List.not_mem_nil)
  | insertPmcDescription columns =>
    cases hstep
    obtain ⟨hgrows, hasked⟩ := insertPmcDescription_grows hfresh hs.sound columns
    refine leaves_after hs hgrows (fun k hk => ?_) (fun _ ha => absurd ha List.not_mem_nil)
      (fun _ hr => absurd hr List.not_mem_nil)
    rw [List.mem_singleton.mp hk]
    exact hasked
  | insertPmcEvent eventId agentId name value extdata =>
    cases hstep
    have hgrows := insertPmcEvent_grows hfresh hs.sound eventId agentId name value extdata
    refine leaves_after hs hgrows (fun _ hk => absurd hk List.not_mem_nil) (fun a ha => ?_)
      (fun _ hr => absurd hr List.not_mem_nil)
    obtain ⟨id, hid, rfl⟩ := List.mem_map.mp ha
    exact hgrows.registered (.pmc agentId name) id (Option.mem_toList.mp hid)
  | insertSample track timestamp eventId extdata =>
    cases hstep
    have hgrows := insertSample_grows hfresh hs.sound track timestamp eventId extdata
    refine leaves_after hs hgrows (fun _ hk => absurd hk List.not_mem_nil) (fun a ha => ?_)
      (fun _ hr => absurd hr List.not_mem_nil)
    obtain ⟨info, hinfo, rfl⟩ := List.mem_map.mp ha
    refine hgrows.registered (.track track) info.trackId ?_
    rw [DataProcessor.registered, Option.mem_toList.mp hinfo]
    rfl
  | insertEvent columns =>
    cases hstep
    exact @leaves_execute_held rowId s hfresh hs (.event columns) (fun _ _ => rfl)
      (fun heq => by cases heq)
  | insertArgs columns =>
    cases hstep
    exact @leaves_execute rowId s hfresh hs (.arg columns) (fun _ _ => rfl)
      (fun heq => by cases heq)
  | insertStreamInfo id columns =>
    exact @leaves_accepted s hs (.stream columns) id s' hstep (fun _ _ => rfl)
      (fun heq => by cases heq)
  | insertQueueInfo id columns =>
    exact @leaves_accepted s hs (.queue columns) id s' hstep (fun _ _ => rfl)
      (fun heq => by cases heq)
  | insertCodeObject id columns =>
    exact @leaves_accepted s hs (.codeObject columns) id s' hstep (fun _ _ => rfl)
      (fun heq => by cases heq)
  | insertKernelSymbol id columns =>
    exact @leaves_accepted s hs (.kernelSymbol columns) id s' hstep (fun _ _ => rfl)
      (fun heq => by cases heq)
  | insertRegion columns =>
    cases hstep
    exact @leaves_execute rowId s hfresh hs (.region columns) (fun _ _ => rfl)
      (fun heq => by cases heq)
  | insertKernelDispatch columns =>
    cases hstep
    exact @leaves_execute rowId s hfresh hs (.kernelDispatch columns) (fun _ _ => rfl)
      (fun heq => by cases heq)
  | insertMemoryCopy columns =>
    cases hstep
    exact @leaves_execute rowId s hfresh hs (.memoryCopy columns) (fun _ _ => rfl)
      (fun heq => by cases heq)
  | insertMemoryAlloc columns =>
    cases hstep
    exact @leaves_execute rowId s hfresh hs (.memoryAllocate columns) (fun _ _ => rfl)
      (fun heq => by cases heq)
  | insertThreadInfo columns =>
    cases hstep
    exact leaves_of_answers hs (insertThreadInfo_answers hfresh hs.sound columns)
  | mapThreadId threadId =>
    cases hstep
    refine leaves_after hs (Grows.refl hs.sound []) (fun _ hk => absurd hk List.not_mem_nil)
      (fun a ha => ?_) fun r hr => ?_
    · obtain ⟨id, hid, rfl⟩ := List.mem_map.mp ha
      exact Option.mem_toList.mp hid
    · obtain ⟨id, hid, rfl⟩ := List.mem_map.mp hr
      exact @Sound.mem_ids s.processor hs.sound (.thread threadId) id (Option.mem_toList.mp hid)

end Step

/-! ## Runs -/

/-- One more than the largest id of the table. -/
def autoincrement (db : Database) (table : Table) : Nat :=
  ((db.filter fun e => e.2.table == table).map Prod.fst).foldr max 0 + 1

theorem le_foldr_max {l : List Nat} {n : Nat} (h : n ∈ l) : n ≤ l.foldr max 0 := by
  induction l with
  | nil => cases h
  | cons m l ih =>
    show n ≤ max m (l.foldr max 0)
    rcases List.mem_cons.mp h with rfl | h
    · omega
    · have hle := ih h
      omega

theorem autoincrement_fresh : FreshRowIds autoincrement := by
  intro db table hmem
  obtain ⟨e, he, heq⟩ := List.mem_map.mp hmem
  have htable : (e.2.table == table) = true := beq_iff_eq.mpr (congrArg Prod.fst heq)
  have hid : e.1 = autoincrement db table := congrArg Prod.snd heq
  have hle : e.1 ≤ ((db.filter fun e => e.2.table == table).map Prod.fst).foldr max 0 :=
    le_foldr_max (List.mem_map.mpr ⟨e, List.mem_filter.mpr ⟨he, htable⟩, rfl⟩)
  unfold autoincrement at hid
  omega

instance (s : Session) (call : Call) : Decidable (s.Uses call) :=
  inferInstanceAs (Decidable (∀ r ∈ call.references, r ∈ s.held))

/-- A thread with a region and a sample of the same event. -/
def regionAndSample : List Call :=
  [.insertNodeInfo 1 ⟨0, [], [], [], [], [], [], []⟩,
    .insertProcessInfo ⟨1, 1, 7, 0, 0, 0, 0, [], [], []⟩,
    .insertThreadInfo ⟨1, 1, 7, 9, [], 0, 0, []⟩,
    .insertTrack [97] 1 7 (some 1) [],
    .insertString [97],
    .insertEvent ⟨1, 0, 0, 0, [], [], []⟩,
    .insertRegion ⟨1, 7, 1, 3, 5, 1, 1, []⟩,
    .insertSample [97] 3 1 []]

end Rocpd
end Rocprofsys
