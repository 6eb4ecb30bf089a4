import Mathlib.Data.List.Nodup

namespace Rocprofsys
namespace Base

/-! ## Rows of several tables, the newest first -/

abbrev Rows (ρ : Type) := List (Nat × ρ)

namespace Rows

section Ids

variable {τ ρ : Type} (table : ρ → τ) (references : ρ → List (τ × Nat))

/-- The ids in use, each with its table. -/
def ids (rows : Rows ρ) : List (τ × Nat) := rows.map fun e => (table e.2, e.1)

/-- What a row refers to is there before the row. -/
def Referential : Rows ρ → Prop
  | [] => True
  | e :: rows => (∀ r ∈ references e.2, r ∈ ids table rows) ∧ Referential rows

theorem referential_cons {e : Nat × ρ} {rows : Rows ρ} (h : Referential table references rows)
    (he : ∀ r ∈ references e.2, r ∈ rows.ids table) :
    Referential table references (e :: rows) := ⟨he, h⟩

variable {table}

theorem mem_ids_of_mem {e : Nat × ρ} {rows : Rows ρ} (h : e ∈ rows) :
    (table e.2, e.1) ∈ rows.ids table := List.mem_map.mpr ⟨e, h, rfl⟩

theorem mem_ids_cons_self (e : Nat × ρ) (rows : Rows ρ) :
    (table e.2, e.1) ∈ ids table (e :: rows) := List.mem_cons_self

theorem mem_ids_cons {r : τ × Nat} (e : Nat × ρ) {rows : Rows ρ} (h : r ∈ rows.ids table) :
    r ∈ ids table (e :: rows) := List.mem_cons_of_mem _ h

/-- Two rows of one table have one id only if they are the same. -/
theorem eq_of_mem_of_nodup {rows : Rows ρ} (hnodup : (rows.ids table).Nodup) {e f : Nat × ρ}
    (he : e ∈ rows) (hf : f ∈ rows) (htable : table e.2 = table f.2) (hid : e.1 = f.1) :
    e = f := by
  refine List.inj_on_of_nodup_map hnodup he hf ?_
  rw [htable, hid]

end Ids

section Keys

variable {ρ κ : Type} (hasKey : Rows ρ → ρ → κ → Bool)

/-- The ids of the rows that have a key among the rows. -/
def idsOf (rows : Rows ρ) (k : κ) : List Nat :=
  (rows.filter fun e => hasKey rows e.2 k).map Prod.fst

/-- Every key has the row registered for it, and no other. -/
def Registers (rows : Rows ρ) (registered : κ → Option Nat) : Prop :=
  ∀ k, rows.idsOf hasKey k = (registered k).toList

variable {hasKey} {rows : Rows ρ} {registered : κ → Option Nat}

theorem Registers.of_some (h : Registers hasKey rows registered) {k : κ} {i : Nat}
    (hk : registered k = some i) : rows.idsOf hasKey k = [i] := by
  rw [h k, hk]
  rfl

theorem Registers.exists_row (h : Registers hasKey rows registered) {k : κ} {i : Nat}
    (hk : registered k = some i) : ∃ row, (i, row) ∈ rows ∧ hasKey rows row k = true := by
  have hmem : i ∈ rows.idsOf hasKey k := by
    rw [h.of_some hk]
    exact List.mem_singleton_self i
  obtain ⟨e, he, rfl⟩ := List.mem_map.mp hmem
  exact ⟨e.2, (List.mem_filter.mp he).1, (List.mem_filter.mp he).2⟩

theorem Registers.of_mem (h : Registers hasKey rows registered) {e : Nat × ρ} (he : e ∈ rows)
    {k : κ} (hk : hasKey rows e.2 k = true) : registered k = some e.1 := by
  have hmem : e.1 ∈ rows.idsOf hasKey k :=
    List.mem_map.mpr ⟨e, List.mem_filter.mpr ⟨he, hk⟩, rfl⟩
  rw [h k] at hmem
  exact Option.mem_toList.mp hmem

/-- The rows before keep their keys. -/
def Keeps (hasKey : Rows ρ → ρ → κ → Bool) (e : Nat × ρ) (rows : Rows ρ) : Prop :=
  ∀ f ∈ rows, ∀ k, hasKey (e :: rows) f.2 k = hasKey rows f.2 k

theorem filter_of_keeps {e : Nat × ρ} (hkeeps : Keeps hasKey e rows) (k : κ) :
    (rows.filter fun f => hasKey (e :: rows) f.2 k) = rows.filter fun f => hasKey rows f.2 k :=
  List.filter_congr fun f hf => hkeeps f hf k

theorem idsOf_cons_of_true {e : Nat × ρ} (hkeeps : Keeps hasKey e rows) {k : κ}
    (hk : hasKey (e :: rows) e.2 k = true) :
    idsOf hasKey (e :: rows) k = e.1 :: rows.idsOf hasKey k := by
  rw [idsOf, List.filter_cons, if_pos hk, filter_of_keeps hkeeps]
  rfl

theorem idsOf_cons_of_false {e : Nat × ρ} (hkeeps : Keeps hasKey e rows) {k : κ}
    (hk : hasKey (e :: rows) e.2 k = false) :
    idsOf hasKey (e :: rows) k = rows.idsOf hasKey k := by
  rw [idsOf, List.filter_cons, if_neg (ne_true_of_eq_false hk), filter_of_keeps hkeeps]
  rfl

theorem Registers.cons_of_none {e : Nat × ρ} (h : Registers hasKey rows registered)
    (hkeeps : Keeps hasKey e rows) (hnone : ∀ k, hasKey (e :: rows) e.2 k = false) :
    Registers hasKey (e :: rows) registered := by
  intro k
  rw [idsOf_cons_of_false hkeeps (hnone k)]
  exact h k

/-- A row of a key that is not registered yet, registered. -/
theorem Registers.cons_of_new {e : Nat × ρ} (h : Registers hasKey rows registered)
    (hkeeps : Keeps hasKey e rows) {k : κ} (hnew : registered k = none)
    (hkey : ∀ k', hasKey (e :: rows) e.2 k' = true ↔ k' = k) {registered' : κ → Option Nat}
    (hself : registered' k = some e.1) (hother : ∀ k', k' ≠ k → registered' k' = registered k') :
    Registers hasKey (e :: rows) registered' := by
  intro k'
  by_cases hk : k' = k
  · subst hk
    rw [idsOf_cons_of_true hkeeps ((hkey k').mpr rfl), h k', hnew, hself]
    rfl
  · have hfalse : hasKey (e :: rows) e.2 k' = false :=
      Bool.eq_false_iff.mpr fun htrue => hk ((hkey k').mp htrue)
    rw [idsOf_cons_of_false hkeeps hfalse, h k', hother k' hk]

end Keys

end Rows
end Base
end Rocprofsys
