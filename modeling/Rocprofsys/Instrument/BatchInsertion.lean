import Mathlib.Data.List.Basic

namespace Rocprofsys
namespace Instrument

/-! ## The fallback of a failed insertion set -/

/-- What the end of `main` works with: the functions to instrument in the order of their set,
which of them is `main_func`, whether the mode is `coverage`, the size of a batch, and whether
`finalizeInsertionSet` succeeds when it is called again. -/
structure Insertion (α : Type) where
  instrumentedModuleFunctions : List α
  isMain : α → Bool
  coverage : Bool
  batchSize : Nat
  succeeds : Nat → Bool

namespace Insertion

variable {α : Type} (s : Insertion α)

def size : Nat := s.instrumentedModuleFunctions.length

/-- The functions that the instrumentation loop visits. -/
def instrumentationLoop : List α :=
  if s.coverage then [] else s.instrumentedModuleFunctions.filter fun f => !s.isMain f

/-- Dereference an iterator, which is undefined at the end. -/
def deref (i : Nat) : Option Nat := if i < s.size then some i else none

/-- The insertions of `_execute_batch`, by their positions. -/
def insertBatch (beg stop : Nat) : Option (List Nat) :=
  (List.range' beg (stop - beg)).mapM s.deref

/-- The insertions one by one of `execute_batch`, up to the end of the set. -/
def insertRest (beg : Nat) : List Nat := List.range' beg (min s.batchSize (s.size - beg))

/-- `execute_batch`, which calls `finalizeInsertionSet` once. -/
def executeBatch (beg call : Nat) : Option (List Nat) :=
  (s.insertBatch beg (beg + s.batchSize)).map fun visited =>
    if s.succeeds call then visited else visited ++ s.insertRest beg

/-- The loop over the batches, which has no result if it outlasts its fuel. -/
def fallbackFrom : Nat → Nat → Nat → Option (List Nat)
  | 0, _, _ => none
  | fuel + 1, nidx, call =>
    if nidx < s.size then
      (s.executeBatch nidx call).bind fun visited =>
        (fallbackFrom fuel (nidx + s.batchSize) (call + 1)).map fun rest => visited ++ rest
    else some []

def fallback (fuel : Nat) : Option (List Nat) := s.fallbackFrom fuel 0 0

/-- The loop ends, stays below the end of the set, and visits what the instrumentation loop
visits. -/
def Covers : Prop :=
  ∃ fuel visited, s.fallback fuel = some visited ∧ (∀ i ∈ visited, i < s.size) ∧
    ∀ f, f ∈ visited.filterMap (s.instrumentedModuleFunctions[·]?) ↔ f ∈ s.instrumentationLoop

/-- Only full batches, and nothing that the instrumentation loop leaves out. -/
def Even : Prop :=
  s.batchSize ∣ s.size ∧ ∀ f ∈ s.instrumentedModuleFunctions, s.isMain f = false ∧ s.coverage = false

variable {s}

/-! ### One batch -/

theorem mapM_deref_eq_some_iff {positions visited : List Nat} :
    positions.mapM s.deref = some visited ↔ visited = positions ∧ ∀ i ∈ positions, i < s.size := by
  induction positions generalizing visited with
  | nil =>
    show some [] = some visited ↔ _
    simp [eq_comm]
  | cons i positions ih =>
    rw [List.mapM_cons]
    by_cases hi : i < s.size
    · have hderef : s.deref i = some i := if_pos hi
      simp only [hderef, Option.bind_eq_bind, Option.bind_some, Option.bind_eq_some_iff, ih,
        Option.pure_def, Option.some.injEq, List.forall_mem_cons]
      constructor
      · intro ⟨rest, ⟨hrest, hlt⟩, hvisited⟩
        exact ⟨by rw [← hvisited, hrest], hi, hlt⟩
      · intro ⟨hvisited, _, hlt⟩
        exact ⟨positions, ⟨rfl, hlt⟩, hvisited.symm⟩
    · have hderef : s.deref i = none := if_neg hi
      simp only [hderef, Option.bind_eq_bind, Option.bind_none, List.forall_mem_cons]
      exact iff_of_false (by simp) (by tauto)

/-- A batch is defined if it ends within the set, and visits what lies between its ends. -/
theorem insertBatch_eq_some_iff {beg : Nat} {visited : List Nat} (hbeg : beg < s.size) :
    s.insertBatch beg (beg + s.batchSize) = some visited ↔
      beg + s.batchSize ≤ s.size ∧ visited = List.range' beg s.batchSize := by
  rw [insertBatch, mapM_deref_eq_some_iff, Nat.add_sub_cancel_left, and_comm]
  simp only [List.mem_range'_1]
  refine and_congr_left fun _ => ⟨fun h => ?_, fun h i hi => by omega⟩
  by_contra hlt
  have hlast := h s.size
  omega

/-- The functions that are inserted again after a failure have been visited. -/
theorem mem_executeBatch {beg call i : Nat} {visited : List Nat} (hbeg : beg < s.size)
    (h : s.executeBatch beg call = some visited) :
    beg + s.batchSize ≤ s.size ∧ (i ∈ visited ↔ beg ≤ i ∧ i < beg + s.batchSize) := by
  obtain ⟨batch, hbatch, rfl⟩ := Option.map_eq_some_iff.mp h
  obtain ⟨hle, rfl⟩ := (insertBatch_eq_some_iff hbeg).mp hbatch
  refine ⟨hle, ?_⟩
  split
  · rw [List.mem_range'_1]
  · rw [List.mem_append, insertRest, List.mem_range'_1, List.mem_range'_1]
    omega

theorem isSome_executeBatch {beg : Nat} (call : Nat) (hbeg : beg < s.size)
    (hle : beg + s.batchSize ≤ s.size) : ∃ visited, s.executeBatch beg call = some visited := by
  rw [executeBatch, (insertBatch_eq_some_iff hbeg).mpr ⟨hle, rfl⟩]
  exact ⟨_, rfl⟩

/-! ### All batches -/

/-- Where the batches are full, the loop ends having visited all positions. -/
theorem exists_fallbackFrom {batches nidx : Nat} (h : nidx + batches * s.batchSize = s.size)
    (call : Nat) : ∃ visited, s.fallbackFrom (batches + 1) nidx call = some visited ∧
      ∀ i, i ∈ visited ↔ nidx ≤ i ∧ i < s.size := by
  induction batches generalizing nidx call with
  | zero =>
    refine ⟨[], ?_, fun i => ?_⟩
    · rw [fallbackFrom, if_neg (by omega)]
    · simp only [List.not_mem_nil, false_iff]
      omega
  | succ batches ih =>
    rw [Nat.add_mul, Nat.one_mul] at h
    by_cases hlt : nidx < s.size
    · obtain ⟨visited, hvisited⟩ := isSome_executeBatch call hlt (by omega)
      obtain ⟨rest, hrest, hmem⟩ := @ih (nidx + s.batchSize) (by omega) (call + 1)
      refine ⟨visited ++ rest, ?_, fun i => ?_⟩
      · rw [fallbackFrom, if_pos hlt, hvisited, Option.bind_some, hrest, Option.map_some]
      · rw [List.mem_append, hmem, (mem_executeBatch hlt hvisited).2]
        omega
    · refine ⟨[], ?_, fun i => ?_⟩
      · rw [fallbackFrom, if_neg hlt]
      · simp only [List.not_mem_nil, false_iff]
        omega

/-- A loop that ends without leaving the set has come out at its end. -/
theorem dvd_of_fallbackFrom {fuel nidx call : Nat} {visited : List Nat} (hle : nidx ≤ s.size)
    (h : s.fallbackFrom fuel nidx call = some visited) : s.batchSize ∣ s.size - nidx := by
  induction fuel generalizing nidx call visited with
  | zero => cases h
  | succ fuel ih =>
    rw [fallbackFrom] at h
    by_cases hlt : nidx < s.size
    · rw [if_pos hlt] at h
      obtain ⟨batch, hbatch, hrest⟩ := Option.bind_eq_some_iff.mp h
      obtain ⟨rest, hloop, -⟩ := Option.map_eq_some_iff.mp hrest
      have hfull := (@mem_executeBatch _ _ nidx call 0 batch hlt hbatch).1
      have hdvd := ih hfull hloop
      have hsplit : s.size - nidx = s.size - (nidx + s.batchSize) + s.batchSize := by omega
      rw [hsplit]
      exact Nat.dvd_add hdvd (Nat.dvd_refl _)
    · have hzero : s.size - nidx = 0 := by omega
      rw [hzero]
      exact Nat.dvd_zero _

/-- More fuel changes nothing. -/
theorem fallbackFrom_unique {fuel fuel' nidx call : Nat} {visited visited' : List Nat}
    (h : s.fallbackFrom fuel nidx call = some visited)
    (h' : s.fallbackFrom fuel' nidx call = some visited') : visited = visited' := by
  induction fuel generalizing fuel' nidx call visited visited' with
  | zero => cases h
  | succ fuel ih =>
    cases fuel' with
    | zero => cases h'
    | succ fuel' =>
      rw [fallbackFrom] at h h'
      by_cases hlt : nidx < s.size
      · rw [if_pos hlt] at h h'
        obtain ⟨batch, hbatch, hrest⟩ := Option.bind_eq_some_iff.mp h
        obtain ⟨batch', hbatch', hrest'⟩ := Option.bind_eq_some_iff.mp h'
        obtain ⟨rest, hloop, rfl⟩ := Option.map_eq_some_iff.mp hrest
        obtain ⟨rest', hloop', rfl⟩ := Option.map_eq_some_iff.mp hrest'
        rw [ih hloop hloop', Option.some.inj (hbatch.symm.trans hbatch')]
      · rw [if_neg hlt] at h h'
        exact Option.some.inj (h.symm.trans h')

/-- All positions visited are all functions. -/
theorem mem_filterMap_positions {visited : List Nat} (h : ∀ i, i ∈ visited ↔ 0 ≤ i ∧ i < s.size)
    (f : α) : f ∈ visited.filterMap (s.instrumentedModuleFunctions[·]?) ↔
      f ∈ s.instrumentedModuleFunctions := by
  rw [List.mem_filterMap, List.mem_iff_getElem?]
  refine ⟨fun ⟨i, _, hi⟩ => ⟨i, hi⟩, fun ⟨i, hi⟩ => ⟨i, (h i).mpr ⟨Nat.zero_le i, ?_⟩, hi⟩⟩
  exact (List.getElem?_eq_some_iff.mp hi).1

theorem mem_instrumentationLoop {f : α} : f ∈ s.instrumentationLoop ↔
    f ∈ s.instrumentedModuleFunctions ∧ s.isMain f = false ∧ s.coverage = false := by
  rw [instrumentationLoop]
  cases s.coverage with
  | true => simp
  | false => simp

end Insertion

/-- The fallback covers what the instrumentation loop does exactly if there are full batches only
and the instrumentation loop leaves nothing out. -/
theorem covers_iff_even {α : Type} (s : Insertion α) : s.Covers ↔ s.Even := by
  constructor
  · intro ⟨fuel, visited, hfallback, _, hmem⟩
    have hdvd := Insertion.dvd_of_fallbackFrom (Nat.zero_le _) hfallback
    rw [Nat.sub_zero] at hdvd
    obtain ⟨batches, hbatches⟩ := hdvd
    have hfull : 0 + batches * s.batchSize = s.size := by
      rw [hbatches, Nat.zero_add, Nat.mul_comm]
    obtain ⟨visited', hall, hpositions⟩ := Insertion.exists_fallbackFrom hfull 0
    rw [← Insertion.fallbackFrom_unique hfallback hall] at hpositions
    refine ⟨⟨batches, hbatches⟩, fun f hf => ?_⟩
    have hvisited := (Insertion.mem_filterMap_positions hpositions f).mpr hf
    exact (Insertion.mem_instrumentationLoop.mp ((hmem f).mp hvisited)).2
  · intro ⟨⟨batches, hbatches⟩, hnone⟩
    have hfull : 0 + batches * s.batchSize = s.size := by
      rw [hbatches, Nat.zero_add, Nat.mul_comm]
    obtain ⟨visited, hall, hpositions⟩ := Insertion.exists_fallbackFrom hfull 0
    refine ⟨batches + 1, visited, hall, fun i hi => ((hpositions i).mp hi).2, fun f => ?_⟩
    rw [Insertion.mem_filterMap_positions hpositions, Insertion.mem_instrumentationLoop]
    exact ⟨fun hf => ⟨hf, hnone f hf⟩, And.left⟩

/-- Three functions in batches of two, none of them `main`. -/
def threeInTwos : Insertion String where
  instrumentedModuleFunctions := ["f", "g", "h"]
  isMain f := f == "main"
  coverage := false
  batchSize := 2
  succeeds _ := true

theorem not_covers_threeInTwos : ¬ threeInTwos.Covers := by
  intro h
  obtain ⟨fuel, visited, hfallback, -, -⟩ := h
  have hdvd := Insertion.dvd_of_fallbackFrom (Nat.zero_le _) hfallback
  exact absurd hdvd (by decide)

end Instrument
end Rocprofsys
