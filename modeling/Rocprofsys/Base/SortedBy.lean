import Mathlib.Data.List.Pairwise
import Mathlib.Data.List.Sort

namespace Rocprofsys
namespace Base

variable {α β κ : Type} [LinearOrder κ] {key : α → κ} {l out : List α}

/-! ## Sorting by a key -/

/-- What sorting by a key may give: elements with equal keys come in any order. -/
def SortedBy (key : α → κ) (l out : List α) : Prop :=
  out.Perm l ∧ out.Pairwise fun a b => key a ≤ key b

theorem exists_sortedBy (key : α → κ) (l : List α) : ∃ out, SortedBy key l out := by
  refine ⟨l.mergeSort fun a b => decide (key a ≤ key b), List.mergeSort_perm _ _, ?_⟩
  have hpairwise := @List.pairwise_mergeSort α (fun a b => decide (key a ≤ key b))
    (fun a b c hab hbc => by
      rw [decide_eq_true_iff] at *
      exact hab.trans hbc)
    (fun a b => by
      rw [Bool.or_eq_true, decide_eq_true_iff, decide_eq_true_iff]
      exact le_total _ _) l
  exact hpairwise.imp fun h => of_decide_eq_true h

/-- A list with rising keys is the only way to sort it. -/
theorem sortedBy_iff_of_lt (h : l.Pairwise fun a b => key a < key b) :
    SortedBy key l out ↔ out = l := by
  constructor
  · intro h
    obtain ⟨hperm, hsorted⟩ := h
    have hnodup : (l.map key).Nodup := List.pairwise_map.mpr (h.imp ne_of_lt)
    refine List.Perm.eq_of_pairwise (fun a b ha hb hab hba => ?_) hsorted (h.imp le_of_lt) hperm
    exact List.inj_on_of_nodup_map hnodup (hperm.subset ha) hb (le_antisymm hab hba)
  · intro heq
    subst heq
    exact ⟨List.Perm.refl _, h.imp le_of_lt⟩

/-! ## Sorts that only look at the keys -/

/-- A sort whose comparisons see the keys only: the positions of a list's elements in the sorted
list follow from the keys. -/
structure KeySort (κ : Type) [LinearOrder κ] where
  positions : List κ → List ℕ
  perm : ∀ keys, (positions keys).Perm (List.range keys.length)
  sorted : ∀ keys, ((positions keys).filterMap fun i => keys[i]?).Pairwise (· ≤ ·)

namespace KeySort

variable (s : KeySort κ)

def sort (key : α → κ) (l : List α) : List α :=
  (s.positions (l.map key)).filterMap fun i => l[i]?

theorem filterMap_range_getElem? (l : List α) :
    ((List.range l.length).filterMap fun i => l[i]?) = l := by
  induction l with
  | nil => rfl
  | cons a l ih =>
    rw [List.length_cons, List.range_succ_eq_map, List.filterMap_cons, List.filterMap_map]
    exact congrArg (a :: ·) ih

theorem map_sort (key : α → κ) (l : List α) (f : α → β) :
    (s.sort key l).map f = (s.positions (l.map key)).filterMap fun i => (l.map f)[i]? := by
  unfold sort
  rw [List.map_filterMap]
  simp only [List.getElem?_map]

theorem sortedBy_sort (key : α → κ) (l : List α) : SortedBy key l (s.sort key l) := by
  constructor
  · have hperm := (s.perm (l.map key)).filterMap fun i => l[i]?
    rw [List.length_map, filterMap_range_getElem?] at hperm
    exact hperm
  · rw [← List.pairwise_map, map_sort]
    exact s.sorted _

theorem map_some_filterMap_getElem? {positions : List ℕ} {l : List α}
    (h : ∀ i ∈ positions, i < l.length) :
    (positions.filterMap fun i => l[i]?).map some = positions.map fun i => l[i]? := by
  induction positions with
  | nil => rfl
  | cons i positions ih =>
    rw [List.forall_mem_cons] at h
    rw [List.filterMap_cons, List.map_cons, List.getElem?_eq_getElem h.1, List.map_cons, ih h.2]

/-- Lists with the same keys have the same values once they are sorted if and only if they had
the same before. -/
theorem map_sort_eq_iff {γ : Type} {key' : γ → κ} {l' : List γ}
    (hkeys : l.map key = l'.map key') (f : α → β) (f' : γ → β) :
    (s.sort key l).map f = (s.sort key' l').map f' ↔ l.map f = l'.map f' := by
  have hlength : l.length = l'.length := by
    rw [← List.length_map (f := key), hkeys, List.length_map]
  rw [map_sort, map_sort, hkeys]
  constructor
  · intro heq
    have hperm := s.perm (l'.map key')
    rw [List.length_map] at hperm
    have hrange : ∀ i ∈ s.positions (l'.map key'), i < l'.length := fun i hi =>
      List.mem_range.mp (hperm.subset hi)
    have hsome := congrArg (List.map some) heq
    rw [map_some_filterMap_getElem? (by rwa [List.length_map, hlength]),
      map_some_filterMap_getElem? (by rwa [List.length_map])] at hsome
    refine List.ext_getElem? fun i => ?_
    by_cases hi : i < l'.length
    · exact List.map_inj_left.mp hsome i (hperm.symm.subset (List.mem_range.mpr hi))
    · rw [List.getElem?_eq_none (by rw [List.length_map]; omega),
        List.getElem?_eq_none (by rw [List.length_map]; omega)]
  · intro heq
    rw [heq]

/-- Sorting by insertion. -/
def insertion : KeySort κ where
  positions keys := (keys.zipIdx.insertionSort fun a b => a.1 ≤ b.1).map Prod.snd
  perm := by
    intro keys
    have hperm := (List.perm_insertionSort (fun a b => a.1 ≤ b.1) keys.zipIdx).map Prod.snd
    rwa [List.zipIdx_map_snd, ← List.range_eq_range'] at hperm
  sorted := by
    intro keys
    have htotal : Std.Total fun a b : κ × ℕ => a.1 ≤ b.1 := ⟨fun a b => le_total a.1 b.1⟩
    have htrans : IsTrans (κ × ℕ) fun a b => a.1 ≤ b.1 := ⟨fun _ _ _ hab hbc => hab.trans hbc⟩
    have hsorted := List.pairwise_insertionSort (fun a b : κ × ℕ => a.1 ≤ b.1) keys.zipIdx
    have hmem : ∀ a ∈ keys.zipIdx.insertionSort fun a b => a.1 ≤ b.1, keys[a.2]? = some a.1 := by
      intro a ha
      rw [List.mem_insertionSort] at ha
      exact List.mem_zipIdx_iff_getElem?.mp ha
    rw [List.filterMap_map, List.filterMap_congr (g := fun a => some a.1) hmem]
    rw [List.filterMap_eq_map', List.pairwise_map]
    exact hsorted

end KeySort

/-! ## The smallest and the largest key of a list that grows -/

theorem min_le_key_append {low : κ} {a : α} (h : ∀ b ∈ l, low ≤ key b) :
    ∀ b ∈ l ++ [a], min low (key a) ≤ key b := by
  intro b hb
  rcases List.mem_append.mp hb with hb | hb
  · exact (min_le_left _ _).trans (h b hb)
  · rw [List.mem_singleton.mp hb]
    exact min_le_right _ _

/-- The smallest key is where it started or one of the keys. -/
theorem exists_key_eq_min {start low : κ} {a : α} (h : low = start ∨ ∃ b ∈ l, key b = low) :
    min low (key a) = start ∨ ∃ b ∈ l ++ [a], key b = min low (key a) := by
  rcases le_total (key a) low with hle | hle
  · rw [min_eq_right hle]
    exact Or.inr ⟨a, List.mem_append_right l (List.mem_singleton_self a), rfl⟩
  · rw [min_eq_left hle]
    rcases h with hlow | ⟨b, hb, hlow⟩
    · exact Or.inl hlow
    · exact Or.inr ⟨b, List.mem_append_left _ hb, hlow⟩

theorem key_append_le_max {high : κ} {a : α} (h : ∀ b ∈ l, key b ≤ high) :
    ∀ b ∈ l ++ [a], key b ≤ max high (key a) :=
  @min_le_key_append α κᵒᵈ _ key l high a h

theorem exists_key_eq_max {start high : κ} {a : α} (h : high = start ∨ ∃ b ∈ l, key b = high) :
    max high (key a) = start ∨ ∃ b ∈ l ++ [a], key b = max high (key a) :=
  @exists_key_eq_min α κᵒᵈ _ key l start high a h

/-! ## Medians -/

/-- An element with at least half of the list on either side, itself included. -/
structure IsMedian (m : κ) (l : List κ) : Prop where
  mem : m ∈ l
  below : l.length ≤ 2 * l.countP fun a => a ≤ m
  above : l.length ≤ 2 * l.countP fun a => m ≤ a

/-- An element of a sorted list is a median if it stands in the middle. -/
theorem isMedian_getElem {l : List κ} {i : ℕ}
    (hsorted : l.Pairwise (· ≤ ·)) (hi : i < l.length) (hbelow : l.length ≤ 2 * (i + 1))
    (habove : 2 * i ≤ l.length) : IsMedian l[i] l := by
  have hbefore : ∀ a ∈ l.take (i + 1), decide (a ≤ l[i]) = true := by
    intro a ha
    obtain ⟨k, hk, rfl⟩ := List.mem_take_iff_getElem.mp ha
    have hle : k ≤ i := by omega
    exact decide_eq_true (List.Pairwise.rel_get_of_le hsorted (Fin.mk_le_mk.mpr hle))
  have hafter : ∀ a ∈ l.drop i, decide (l[i] ≤ a) = true := by
    intro a ha
    obtain ⟨k, hk, rfl⟩ := List.mem_drop_iff_getElem.mp ha
    have hle : i ≤ i + k := Nat.le_add_right i k
    exact decide_eq_true (List.Pairwise.rel_get_of_le hsorted (Fin.mk_le_mk.mpr hle))
  refine ⟨List.getElem_mem hi, ?_, ?_⟩
  · have hcount := (List.take_sublist (i + 1) l).countP_le (p := fun a => decide (a ≤ l[i]))
    rw [List.countP_eq_length.mpr hbefore, List.length_take] at hcount
    omega
  · have hcount := (List.drop_sublist i l).countP_le (p := fun a => decide (l[i] ≤ a))
    rw [List.countP_eq_length.mpr hafter, List.length_drop] at hcount
    omega

end Base
end Rocprofsys
