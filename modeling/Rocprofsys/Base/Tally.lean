import Mathlib.Algebra.BigOperators.Group.List.Basic
import Mathlib.Data.List.AList

namespace Rocprofsys
namespace Base

/-! ## Keyed amounts -/

/-- An amount for each of finitely many keys. -/
abbrev Tally (κ α : Type) := AList fun _ : κ => α

namespace Tally

variable {κ α : Type} [DecidableEq κ]

section Zero

variable [Zero α]

/-- A key that is not there has none. -/
def get (m : Tally κ α) (k : κ) : α := (m.lookup k).getD 0

/-- Change the amount of one key. -/
def update (m : Tally κ α) (k : κ) (f : α → α) : Tally κ α := m.insert k (f (m.get k))

theorem get_empty (k : κ) : get (∅ : Tally κ α) k = 0 := rfl

theorem get_insert_self (m : Tally κ α) (k : κ) (a : α) : get (m.insert k a) k = a := by
  rw [get, AList.lookup_insert, Option.getD_some]

theorem get_insert_of_ne (m : Tally κ α) {k k' : κ} (h : k' ≠ k) (a : α) :
    get (m.insert k a) k' = m.get k' := by
  rw [get, AList.lookup_insert_ne h, get]

theorem get_update_self (m : Tally κ α) (k : κ) (f : α → α) :
    get (m.update k f) k = f (m.get k) := get_insert_self m k _

theorem get_update_of_ne (m : Tally κ α) {k k' : κ} (h : k' ≠ k) (f : α → α) :
    get (m.update k f) k' = m.get k' := get_insert_of_ne m h _

/-- Combine another tally into this one, key by key. -/
def combine (op : α → α → α) (m n : Tally κ α) : Tally κ α :=
  n.foldl (fun m k a => m.update k fun b => op b a) m

/-- Put the same amount at every key that is there. -/
def setAll (m : Tally κ α) (a : α) : Tally κ α := m.foldl (fun m k _ => m.insert k a) m

theorem get_foldl_update {op : α → α → α} (hop : ∀ a, op a 0 = a)
    {l : List (Sigma fun _ : κ => α)} (hl : l.NodupKeys) (m : Tally κ α) (k : κ) :
    get (l.foldl (fun m x => m.update x.1 fun b => op b x.2) m) k =
      op (m.get k) ((l.dlookup k).getD 0) := by
  induction l generalizing m with
  | nil => exact (hop _).symm
  | cons x l ih =>
    obtain ⟨hx, hl⟩ := List.nodupKeys_cons.mp hl
    rw [List.foldl_cons, ih hl]
    by_cases hk : k = x.1
    · subst hk
      rw [get_update_self, List.dlookup_eq_none.mpr hx, List.dlookup_cons_eq]
      exact hop _
    · rw [get_update_of_ne m hk, List.dlookup_cons_ne l x hk]

theorem get_combine {op : α → α → α} (hop : ∀ a, op a 0 = a) (m n : Tally κ α) (k : κ) :
    get (combine op m n) k = op (m.get k) (n.get k) := get_foldl_update hop n.nodupKeys m k

theorem get_foldl_insert_zero {l : List (Sigma fun _ : κ => α)} {m : Tally κ α}
    (hm : ∀ k, k ∉ l.keys → m.get k = 0) (k : κ) :
    get (l.foldl (fun m x => m.insert x.1 0) m) k = 0 := by
  induction l generalizing m with
  | nil => exact hm k List.not_mem_nil
  | cons x l ih =>
    rw [List.foldl_cons]
    refine ih fun k' hk' => ?_
    by_cases hx : k' = x.1
    · rw [hx]
      exact get_insert_self m x.1 0
    · rw [get_insert_of_ne m hx]
      exact hm k' fun hmem => by
        rcases List.mem_cons.mp hmem with hx' | hmem
        · exact hx hx'
        · exact hk' hmem

theorem get_setAll_zero (m : Tally κ α) (k : κ) : get (m.setAll 0) k = 0 :=
  get_foldl_insert_zero (fun k' hk' => by
    have hnone : m.lookup k' = none := AList.lookup_eq_none.mpr hk'
    rw [get, hnone, Option.getD_none]) k

end Zero

/-! ## Several tallies -/

section Sum

variable [AddCommMonoid α]

def sum (ms : List (Tally κ α)) : Tally κ α := ms.foldl (combine (· + ·)) ∅

/-- The amount of a key in all tallies. -/
def total (ms : List (Tally κ α)) (k : κ) : α := (ms.map fun m => get m k).sum

theorem get_foldl_combine (ms : List (Tally κ α)) (m : Tally κ α) (k : κ) :
    get (ms.foldl (combine (· + ·)) m) k = m.get k + total ms k := by
  induction ms generalizing m with
  | nil => exact (add_zero _).symm
  | cons n ms ih =>
    rw [List.foldl_cons, ih, get_combine add_zero, add_assoc]
    rfl

theorem get_sum (ms : List (Tally κ α)) (k : κ) : get (sum ms) k = total ms k := by
  rw [sum, get_foldl_combine, get_empty, zero_add]

theorem total_setAll_zero (ms : List (Tally κ α)) (k : κ) :
    total (ms.map fun m => m.setAll 0) k = 0 := by
  induction ms with
  | nil => rfl
  | cons m ms ih =>
    show get (m.setAll 0) k + total (ms.map fun m => m.setAll 0) k = 0
    rw [ih, get_setAll_zero, add_zero]

/-- Adding to a key of one tally adds to the total of the key, and to no other. -/
theorem total_set {ms : List (Tally κ α)} {i : Nat} {m n : Tally κ α} (hi : ms[i]? = some m)
    {k : κ} {a : α} (hn : n.get k = m.get k + a) : total (ms.set i n) k = total ms k + a := by
  induction ms generalizing i with
  | nil => cases hi
  | cons m' ms ih =>
    cases i with
    | zero =>
      cases hi
      show n.get k + total ms k = m.get k + total ms k + a
      rw [hn, add_right_comm]
    | succ i =>
      show m'.get k + total (ms.set i n) k = m'.get k + total ms k + a
      rw [ih hi, add_assoc]

theorem total_append (ms ns : List (Tally κ α)) (k : κ) :
    total (ms ++ ns) k = total ms k + total ns k := by
  rw [total, List.map_append, List.sum_append]
  rfl

theorem total_replicate_empty (n : ℕ) (k : κ) : total (List.replicate n (∅ : Tally κ α)) k = 0 := by
  rw [total, List.map_replicate, get_empty]
  exact List.sum_replicate n 0 |>.trans (nsmul_zero n)

/-- What changes no amount of a tally changes no total. -/
theorem total_map {f : Tally κ α → Tally κ α} (hf : ∀ m k, get (f m) k = m.get k)
    (ms : List (Tally κ α)) (k : κ) : total (ms.map f) k = total ms k := by
  rw [total, List.map_map]
  exact congrArg List.sum (List.map_congr_left fun m _ => hf m k)

end Sum

end Tally
end Base
end Rocprofsys
