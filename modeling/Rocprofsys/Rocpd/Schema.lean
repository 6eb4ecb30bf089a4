import Rocprofsys.Base.Completion
import Rocprofsys.Rocpd.IdRegistries

namespace Rocprofsys
namespace Rocpd

open Base
open TraceCache (Bytes)

/-! ## Constraints of the tables -/

def isOneOf (texts : List String) (text : Bytes) : Bool :=
  texts.any fun t => t.toUTF8.toList == text

/-- The `CHECK` constraints of `rocpd_tables.sql`. -/
def Row.passesChecks : Row → Bool
  | .agent r => isOneOf ["CPU", "GPU"] r.type
  | .pmc r => isOneOf ["CPU", "GPU"] r.targetArch && isOneOf ["ABS", "ACCUM", "RELATIVE"] r.valueType
  | .codeObject r => isOneOf ["FILE", "MEMORY"] r.storageType
  | .memoryAllocate r =>
    isOneOf ["ALLOC", "FREE", "REALLOC", "RECLAIM"] r.type &&
      isOneOf ["REAL", "VIRTUAL", "SCRATCH"] r.level
  | _ => true

/-- A column of `rocpd_tables.sql` that is `UNIQUE` has the same value in both. -/
def Row.clashes : Row → Row → Bool
  | .string s, .string s' => s == s'
  | .node r, .node r' => r.hash == r'.hash || r.machineId == r'.machineId
  | _, _ => false

/-- An insert that violates no constraint, with `PRAGMA foreign_keys = ON`. -/
structure Accepts (rows : Database) (id : Nat) (row : Row) : Prop where
  primaryKey : (row.table, id) ∉ rows.ids Row.table
  foreignKeys : ∀ r ∈ row.references, r ∈ rows.ids Row.table
  checks : row.passesChecks = true
  unique : ∀ e ∈ rows, row.clashes e.2 = false

/-- The same as a test. -/
def accepts (rows : Database) (id : Nat) (row : Row) : Bool :=
  !(rows.ids Row.table).elem (row.table, id) &&
    (row.references.all fun r => (rows.ids Row.table).elem r) && row.passesChecks &&
      rows.all fun e => !row.clashes e.2

theorem accepts_iff (rows : Database) (id : Nat) (row : Row) :
    accepts rows id row = true ↔ Accepts rows id row := by
  have hid : (!(rows.ids Row.table).elem (row.table, id)) = true ↔
      (row.table, id) ∉ rows.ids Row.table := by
    rw [Bool.not_eq_true', Bool.eq_false_iff, ne_eq, List.elem_iff]
  simp only [accepts, Bool.and_eq_true, hid, List.all_eq_true, List.elem_iff, Bool.not_eq_true']
  exact ⟨fun h => ⟨h.1.1.1, h.1.1.2, h.1.2, h.2⟩,
    fun h => ⟨⟨⟨h.primaryKey, h.foreignKeys⟩, h.checks⟩, h.unique⟩⟩

/-- Every row was accepted behind those before it. -/
def Consistent : Database → Bool
  | [] => true
  | e :: rows => accepts rows e.1 e.2 && Consistent rows

theorem consistent_cons {rows : Database} (h : Consistent rows = true) (id : Nat) (row : Row) :
    Consistent ((id, row) :: rows) = true ↔ Accepts rows id row := by
  unfold Consistent
  rw [h, Bool.and_true, accepts_iff]

theorem referential_of_consistent {rows : Database} (h : Consistent rows = true) :
    rows.Referential Row.table Row.references := by
  induction rows with
  | nil => exact trivial
  | cons e rows ih =>
    obtain ⟨haccepts, hrows⟩ := (Bool.and_eq_true _ _).mp h
    exact ⟨((accepts_iff _ _ _).mp haccepts).foreignKeys, ih hrows⟩

/-- What the constraints say of the rows as a whole. -/
structure Valid (rows : Database) : Prop where
  primaryKeys : (rows.ids Row.table).Nodup
  foreignKeys : rows.Referential Row.table Row.references
  checks : ∀ e ∈ rows, e.2.passesChecks = true
  unique : rows.Pairwise fun later earlier => later.2.clashes earlier.2 = false

theorem valid_of_consistent {rows : Database} (h : Consistent rows = true) : Valid rows := by
  refine ⟨?_, referential_of_consistent h, ?_, ?_⟩
  all_goals induction rows with
  | nil => simp [Rows.ids]
  | cons e rows ih =>
    obtain ⟨haccepts, hrows⟩ := (Bool.and_eq_true _ _).mp h
    have haccepts := (accepts_iff _ _ _).mp haccepts
    first
    | exact List.nodup_cons.mpr ⟨haccepts.primaryKey, ih hrows⟩
    | exact List.forall_mem_cons.mpr ⟨haccepts.checks, ih hrows⟩
    | exact List.pairwise_cons.mpr ⟨haccepts.unique, ih hrows⟩

/-! ## Inserts that may fail

A statement that violates a constraint makes the insert throw. -/

abbrev Inserting (α : Type) := Fallible DataProcessor α

/-- The statements of an insert. -/
def inserting {α : Type} (insert : DataProcessor → DataProcessor × α) : Inserting α :=
  Fallible.checked insert fun d => Consistent d.database

/-- An insert that answers nothing. -/
def inserting' (insert : DataProcessor → DataProcessor) : Inserting Unit :=
  inserting fun d => (insert d, ())

def mapThreadId (threadId : Nat) : Inserting Nat := fun d =>
  (d.mapThreadIdToPrimaryKey threadId).map fun id => (id, d)

end Rocpd
end Rocprofsys
