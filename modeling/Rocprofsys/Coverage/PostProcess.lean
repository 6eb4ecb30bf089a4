import Mathlib.Algebra.Order.Field.Rat
import Rocprofsys.Base.Agreeing
import Rocprofsys.Base.Tally
import Rocprofsys.Base.WeakOrder
import Rocprofsys.Coverage.Summary

namespace Rocprofsys
namespace Coverage

open Base

/-! ## Rows of the report -/

/-- `data_tuple_t`: the file, the function and the address. -/
abbrev Triple := String × String × ℕ

/-- `coverage_data`. -/
structure Row where
  count : ℕ
  address : ℕ
  line : ℕ
  module : String
  function : String
  source : String
  deriving DecidableEq, Repr

namespace Row

def triple (r : Row) : Triple := (r.module, r.function, r.address)

/-- `operator<`. -/
def less (a b : Row) : Bool :=
  if a.count ≠ b.count then a.count < b.count
  else if a.module ≠ b.module then a.module < b.module
  else if a.function ≠ b.function then a.function < b.function
  else if a.address ≠ b.address then a.address < b.address
  else if a.line ≠ b.line then a.line < b.line
  else a.source < b.source

/-- `operator>`, made of `operator!=` on the triples and of `operator<`. -/
def greater (a b : Row) : Bool := a.triple ≠ b.triple && !less a b

end Row

/-! ## Registration -/

structure State where
  /-- `get_coverage_data`. -/
  rows : List Row := []
  /-- `get_code_coverage`. -/
  coverage : CodeCoverage := {}
  /-- `get_coverage_count` of each thread. -/
  threads : List (Tally Triple ℕ) := []

inductive ToolState where
  | preInit
  | init
  | active
  | finalized
  | disabled
  deriving DecidableEq, Repr

def ToolState.toNat : ToolState → ℕ
  | .preInit => 0
  | .init => 1
  | .active => 2
  | .finalized => 3
  | .disabled => 4

/-- `emplace` of an amount of 0. -/
def emplaceZero (m : Tally Triple ℕ) (t : Triple) : Tally Triple ℕ :=
  if t ∈ m then m else m.insert t 0

def sourceRow (file func : String) (line address : ℕ) (source : Option String) : Row :=
  ⟨0, address, line, file, func,
    match source with
    | some text => if text ≠ "" then text else func
    | none => func⟩

def Data.emplace (d : Data) (t : Triple) : Data where
  addresses := insert t.2.2 d.addresses
  modules := insert t.1 d.modules
  functions := insert t.2.1 d.functions

/-- `rocprofsys_register_source_hidden`; the source may be null. -/
def registerSource (s : State) (file func : String) (line address : ℕ) (source : Option String) :
    State where
  rows := s.rows ++ [sourceRow file func line address source]
  coverage := { s.coverage with
    size := s.coverage.size + 1
    possible := s.coverage.possible.emplace (file, func, address) }
  threads := s.threads.map fun m => emplaceZero m (file, func, address)

/-- The data of the threads, with that of a thread that is new. -/
def threadsWith (threads : List (Tally Triple ℕ)) (tid : ℕ) : List (Tally Triple ℕ) :=
  threads ++ List.replicate (tid + 1 - threads.length) ∅

/-- `rocprofsys_register_coverage_hidden`; `initTooling` is what
`rocprofsys_init_tooling_hidden` returns. -/
def registerCoverage (s : State) (tid : ℕ) (state : ToolState) (initTooling : Bool)
    (file func : String) (address : ℕ) : State :=
  if state.toNat < ToolState.active.toNat ∧ initTooling = false then s
  else if state.toNat ≥ ToolState.finalized.toNat then s
  else
    let threads := threadsWith s.threads tid
    { s with
      threads := threads.set tid
        ((threads.getD tid ∅).update (file, func, address) (· + 1)) }

/-! ## post_process -/

/-- Adds to the row that `_find` finds, the first of its triple. -/
def bump : List Row → Triple → ℕ → List Row
  | [], _, _ => []
  | r :: rows, t, n =>
    if r.triple = t then { r with count := r.count + n } :: rows else r :: bump rows t n

/-- The counts of all threads in the rows. -/
def countRows (s : State) : List Row :=
  s.threads.foldl (fun rows m => m.foldl bump rows) s.rows

/-- `_data`. -/
def countData (s : State) : Tally Triple ℕ := Tally.sum s.threads

def cover (c : CodeCoverage) (t : Triple) (n : ℕ) : CodeCoverage :=
  if n > 0 then { c with count := c.count + 1, covered := c.covered.emplace t } else c

/-- The summary. -/
def countCoverage (s : State) : CodeCoverage := (countData s).foldl cover s.coverage

/-- `_find_in_tmp` for a row that is not in the cache. -/
def findInTmp (tmp : List Row) (v : Row) : Bool :=
  tmp.any fun titr => titr.source == v.source && titr.address != v.address && titr.count == v.count

/-- One turn of the loop over the sorted rows, with the triples in the cache. -/
def deduplicateStep (s : List Row × List Triple) (itr : Row) : List Row × List Triple :=
  if itr.triple ∈ s.2 then s
  else if findInTmp s.1 itr then (s.1, itr.triple :: s.2)
  else (s.1 ++ [itr], s.2)

def deduplicate (rows : List Row) : List Row := (rows.foldl deduplicateStep ([], [])).1

/-- What the two sorts and the loop between them may make of the rows. -/
def Details (rows details : List Row) : Prop :=
  ∃ sorted, SortedOf (fun a b => Row.greater a b) rows sorted ∧
    SortedOf (fun a b => Row.greater a b) (deduplicate sorted) details

/-- Of `code_coverage::operator()`. -/
inductive Category where
  | standard
  | address
  | module
  | function
  deriving DecidableEq, Repr

/-- `code_coverage::operator()`, as an exact quotient. -/
def CodeCoverage.get (c : CodeCoverage) : Category → ℚ
  | .standard => c.count / c.size
  | .address => c.covered.addresses.card / c.possible.addresses.card
  | .module => c.covered.modules.card / c.possible.modules.card
  | .function => c.covered.functions.card / c.possible.functions.card

/-! ## Runs -/

inductive Call where
  | source (file func : String) (line address : ℕ) (source : Option String)
  | coverage (tid : ℕ) (state : ToolState) (initTooling : Bool) (file func : String) (address : ℕ)

def step (s : State) : Call → State
  | .source file func line address source => registerSource s file func line address source
  | .coverage tid state initTooling file func address =>
    registerCoverage s tid state initTooling file func address

def run (calls : List Call) : State := calls.foldl step {}

/-- The row that a call registers. -/
def Call.row? : Call → Option Row
  | .source file func line address text => some (sourceRow file func line address text)
  | .coverage _ _ _ _ _ _ => none

/-- The triple of a hit that is not turned away. -/
def Call.hit? : Call → Option Triple
  | .source _ _ _ _ _ => none
  | .coverage _ state initTooling file func address =>
    if state.toNat < ToolState.active.toNat ∧ initTooling = false then none
    else if state.toNat ≥ ToolState.finalized.toNat then none
    else some (file, func, address)

def registrations (calls : List Call) : List Row := calls.filterMap Call.row?

/-- The number of hits of a triple, by all threads. -/
def hits (calls : List Call) (t : Triple) : ℕ := (calls.filterMap Call.hit?).count t

variable {calls : List Call} {s : State} {t : Triple}

theorem get_emplaceZero (m : Tally Triple ℕ) (t t' : Triple) :
    (emplaceZero m t).get t' = m.get t' := by
  unfold emplaceZero
  split
  · rfl
  · rename_i hnew
    by_cases heq : t' = t
    · rw [heq, Tally.get_insert_self, Tally.get, AList.lookup_eq_none.mpr hnew, Option.getD_none]
    · rw [Tally.get_insert_of_ne m heq]

theorem total_threadsWith (threads : List (Tally Triple ℕ)) (tid : ℕ) :
    Tally.total (threadsWith threads tid) t = Tally.total threads t := by
  rw [threadsWith, Tally.total_append, Tally.total_replicate_empty, add_zero]

/-- What the calls have made. -/
structure Tracks (calls : List Call) (s : State) : Prop where
  rows : s.rows = registrations calls
  total : ∀ t, Tally.total s.threads t = hits calls t
  size : s.coverage.size = (registrations calls).length
  count : s.coverage.count = 0
  covered : s.coverage.covered = {}
  addresses : ∀ r ∈ registrations calls, r.address ∈ s.coverage.possible.addresses
  modules : ∀ r ∈ registrations calls, r.module ∈ s.coverage.possible.modules
  functions : ∀ r ∈ registrations calls, r.function ∈ s.coverage.possible.functions

theorem registrations_append (c : Call) :
    registrations (calls ++ [c]) = registrations calls ++ c.row?.toList := by
  rw [registrations, List.filterMap_append, ← registrations]
  cases h : c.row? with
  | none => rw [List.filterMap_cons_none h, List.filterMap_nil, Option.toList_none]
  | some r => rw [List.filterMap_cons_some h, List.filterMap_nil, Option.toList_some]

theorem hits_append (c : Call) (t : Triple) :
    hits (calls ++ [c]) t = hits calls t + c.hit?.toList.count t := by
  rw [hits, List.filterMap_append, List.count_append, ← hits]
  cases h : c.hit? with
  | none => rw [List.filterMap_cons_none h, List.filterMap_nil, Option.toList_none]
  | some r => rw [List.filterMap_cons_some h, List.filterMap_nil, Option.toList_some]

theorem tracks_source (h : Tracks calls s) (file func : String) (line address : ℕ)
    (source : Option String) :
    Tracks (calls ++ [.source file func line address source])
      (registerSource s file func line address source) := by
  have hreg : registrations (calls ++ [.source file func line address source]) =
      registrations calls ++ [sourceRow file func line address source] := registrations_append _
  have hinsert {κ : Type} [DecidableEq κ] {field : Row → κ} {possible : Finset κ}
      (hold : ∀ r ∈ registrations calls, field r ∈ possible) (r : Row)
      (hr : r ∈ registrations calls ++ [sourceRow file func line address source]) :
      field r ∈ insert (field (sourceRow file func line address source)) possible := by
    rcases List.mem_append.mp hr with hr | hr
    · exact Finset.mem_insert_of_mem (hold r hr)
    · rw [List.mem_singleton.mp hr]
      exact Finset.mem_insert_self _ _
  constructor
  · rw [hreg, ← h.rows]
    rfl
  · intro t
    rw [hits_append, ← h.total t]
    exact Tally.total_map (fun m k => get_emplaceZero m _ k) s.threads t
  · rw [hreg, List.length_append, ← h.size]
    rfl
  · exact h.count
  · exact h.covered
  · rw [hreg]
    exact hinsert h.addresses
  · rw [hreg]
    exact hinsert h.modules
  · rw [hreg]
    exact hinsert h.functions

/-- A hit changes nothing but the counts of the threads. -/
theorem Tracks.of_hit (h : Tracks calls s) {c : Call} (hrow : c.row? = none)
    {threads : List (Tally Triple ℕ)}
    (htotal : ∀ t, Tally.total threads t = hits (calls ++ [c]) t) :
    Tracks (calls ++ [c]) { s with threads } := by
  have hreg : registrations (calls ++ [c]) = registrations calls := by
    rw [registrations_append, hrow, Option.toList_none, List.append_nil]
  exact
    { rows := h.rows.trans hreg.symm
      total := htotal
      size := by rw [hreg]; exact h.size
      count := h.count
      covered := h.covered
      addresses := by rw [hreg]; exact h.addresses
      modules := by rw [hreg]; exact h.modules
      functions := by rw [hreg]; exact h.functions }

theorem total_update {threads : List (Tally Triple ℕ)} {tid : ℕ} (htid : tid < threads.length)
    (t t' : Triple) :
    Tally.total (threads.set tid ((threads.getD tid ∅).update t (· + 1))) t' =
      Tally.total threads t' + [t].count t' := by
  have hget : threads[tid]? = some (threads.getD tid ∅) := by
    rw [List.getD_eq_getElem?_getD, List.getElem?_eq_getElem htid, Option.getD_some]
  apply Tally.total_set hget
  by_cases heq : t' = t
  · subst heq
    rw [Tally.get_update_self, List.count_singleton_self]
  · rw [Tally.get_update_of_ne _ heq, List.count_singleton, if_neg (by simpa using Ne.symm heq),
      add_zero]

theorem tracks_coverage (h : Tracks calls s) (tid : ℕ) (state : ToolState) (initTooling : Bool)
    (file func : String) (address : ℕ) :
    Tracks (calls ++ [.coverage tid state initTooling file func address])
      (registerCoverage s tid state initTooling file func address) := by
  have hignored (hnone : (Call.coverage tid state initTooling file func address).hit? = none)
      (t : Triple) : Tally.total s.threads t =
        hits (calls ++ [.coverage tid state initTooling file func address]) t := by
    rw [hits_append, hnone, h.total t]
    rfl
  unfold registerCoverage
  split
  · rename_i hearly
    exact h.of_hit rfl (hignored (if_pos hearly))
  · rename_i hearly
    split
    · rename_i hlate
      exact h.of_hit rfl (hignored ((if_neg hearly).trans (if_pos hlate)))
    · rename_i hlate
      refine h.of_hit rfl fun t => ?_
      have hhit : (Call.coverage tid state initTooling file func address).hit? =
          some (file, func, address) := (if_neg hearly).trans (if_neg hlate)
      have htid : tid < (threadsWith s.threads tid).length := by
        rw [threadsWith, List.length_append, List.length_replicate]
        omega
      rw [total_update htid, total_threadsWith, h.total t, hits_append, hhit]
      rfl

theorem tracks_run (calls : List Call) : Tracks calls (run calls) := by
  induction calls using List.reverseRecOn with
  | nil => exact ⟨rfl, fun _ => rfl, rfl, rfl, rfl, nofun, nofun, nofun⟩
  | append_singleton calls c ih =>
    rw [run, List.foldl_append, List.foldl_cons, List.foldl_nil, ← run]
    cases c with
    | source file func line address source => exact tracks_source ih file func line address source
    | coverage tid state initTooling file func address =>
      exact tracks_coverage ih tid state initTooling file func address

end Coverage
end Rocprofsys
