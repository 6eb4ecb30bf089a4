import Mathlib.Data.List.Sort
import Mathlib.Data.Prod.Lex

namespace Rocprofsys
namespace Base

/-- A set in the order of a key, which keeps the first of the elements with one key. -/
structure OrderedSet {α κ : Type} [LinearOrder κ] (key : α → κ) where
  items : List α
  sorted : items.Pairwise fun a b => key a < key b

namespace OrderedSet

variable {α κ : Type} [LinearOrder κ] {key : α → κ} {l : List α} {x y : α}

instance : Membership α (OrderedSet key) := ⟨fun s x => x ∈ s.items⟩

instance : EmptyCollection (OrderedSet key) := ⟨⟨[], List.Pairwise.nil⟩⟩

def keys (s : OrderedSet key) : List κ := s.items.map key

/-- Element by element, the keys are the same. -/
def Same (s t : OrderedSet key) : Prop := s.keys = t.keys

instance (s t : OrderedSet key) : Decidable (Same s t) :=
  inferInstanceAs (Decidable (s.keys = t.keys))

/-! ## Insertion -/

def insertItem (key : α → κ) (x : α) : List α → List α
  | [] => [x]
  | a :: l =>
    if key x < key a then x :: a :: l
    else if key a < key x then a :: insertItem key x l
    else a :: l

theorem mem_keys_insertItem {k : κ} :
    k ∈ (insertItem key x l).map key ↔ k = key x ∨ k ∈ l.map key := by
  induction l with
  | nil => simp [insertItem]
  | cons a l ih =>
    rw [insertItem]
    split_ifs with hlt hgt
    · rw [List.map_cons, List.mem_cons]
    · rw [List.map_cons, List.mem_cons, ih, List.map_cons, List.mem_cons, or_left_comm]
    · have heq : key x = key a := le_antisymm (not_lt.mp hgt) (not_lt.mp hlt)
      rw [heq, List.map_cons, List.mem_cons, ← or_assoc, or_self]

theorem lt_of_mem_insertItem {k : κ} (hx : k < key x) (hl : ∀ b ∈ l, k < key b) :
    ∀ b ∈ insertItem key x l, k < key b := by
  intro b hb
  rcases mem_keys_insertItem.mp (List.mem_map_of_mem hb) with h | h
  · rw [h]
    exact hx
  · obtain ⟨c, hc, hk⟩ := List.mem_map.mp h
    rw [← hk]
    exact hl c hc

theorem sorted_insertItem (h : l.Pairwise fun a b => key a < key b) :
    (insertItem key x l).Pairwise fun a b => key a < key b := by
  induction l with
  | nil => exact List.pairwise_singleton _ _
  | cons a l ih =>
    have hal := List.pairwise_cons.mp h
    rw [insertItem]
    split_ifs with hlt hgt
    · refine List.pairwise_cons.mpr ⟨?_, h⟩
      intro b hb
      rcases List.mem_cons.mp hb with rfl | hb
      · exact hlt
      · exact hlt.trans (hal.1 b hb)
    · exact List.pairwise_cons.mpr ⟨lt_of_mem_insertItem hgt hal.1, ih hal.2⟩
    · exact h

def insert (s : OrderedSet key) (x : α) : OrderedSet key :=
  ⟨insertItem key x s.items, sorted_insertItem s.sorted⟩

def insertAll (s : OrderedSet key) (l : List α) : OrderedSet key := l.foldl insert s

theorem mem_keys_insert {s : OrderedSet key} {k : κ} :
    k ∈ (s.insert x).keys ↔ k = key x ∨ k ∈ s.keys :=
  mem_keys_insertItem

theorem mem_keys_insertAll {s : OrderedSet key} {k : κ} :
    k ∈ (s.insertAll l).keys ↔ k ∈ l.map key ∨ k ∈ s.keys := by
  induction l generalizing s with
  | nil => simp [insertAll]
  | cons a l ih =>
    show k ∈ ((s.insert a).insertAll l).keys ↔ _
    rw [ih, mem_keys_insert, List.map_cons, List.mem_cons, or_left_comm, or_assoc]

/-! ## Comparison -/

theorem same_iff {s t : OrderedSet key} : Same s t ↔ ∀ k, k ∈ s.keys ↔ k ∈ t.keys := by
  constructor
  · intro h k
    rw [h]
  · intro h
    have hs : s.keys.Pairwise (· < ·) := List.pairwise_map.mpr s.sorted
    have ht : t.keys.Pairwise (· < ·) := List.pairwise_map.mpr t.sorted
    have hperm : s.keys.Perm t.keys :=
      (List.perm_ext_iff_of_nodup (hs.imp ne_of_lt) (ht.imp ne_of_lt)).mpr h
    exact hperm.eq_of_pairwise (fun _ _ _ _ hab hba => absurd hba hab.asymm) hs ht

theorem Same.length_eq {s t : OrderedSet key} (h : Same s t) :
    s.items.length = t.items.length := by
  have hkeys := congrArg List.length h
  rwa [keys, keys, List.length_map, List.length_map] at hkeys

/-- A set built from images of the elements of `s` is the same if and only if the images take
no key of `s` away and bring no other one. -/
theorem same_insertAll_iff {f : α → α} {s : OrderedSet key} :
    Same ((∅ : OrderedSet key).insertAll (s.items.map f)) s ↔
      ∀ k, (∃ x ∈ s, key (f x) = k) ↔ ∃ x ∈ s, key x = k := by
  have hkeys : ∀ k, k ∈ ((∅ : OrderedSet key).insertAll (s.items.map f)).keys ↔
      ∃ x ∈ s, key (f x) = k := by
    intro k
    have hempty : k ∉ (∅ : OrderedSet key).keys := List.not_mem_nil
    rw [mem_keys_insertAll, or_iff_left hempty, List.map_map, List.mem_map]
    rfl
  rw [same_iff]
  refine forall_congr' fun k => ?_
  rw [hkeys, keys, List.mem_map]
  rfl

theorem eq_of_items_eq {s t : OrderedSet key} (h : s.items = t.items) : s = t := by
  cases s
  cases t
  cases h
  rfl

instance [DecidableEq α] : DecidableEq (OrderedSet key) := fun s t =>
  decidable_of_iff (s.items = t.items) ⟨eq_of_items_eq, fun h => h ▸ rfl⟩

end OrderedSet

/-! ## Maps -/

/-- A map in the order of its keys; `insert` is `emplace`. -/
abbrev OrderedMap (κ ν : Type) [LinearOrder κ] := OrderedSet (Prod.fst : κ × ν → κ)

namespace OrderedMap

variable {κ ν : Type} [LinearOrder κ] {l : List (κ × ν)} {k k' : κ} {v : ν}

def get? (m : OrderedMap κ ν) (k : κ) : Option ν := m.items.lookup k

def setItem (k : κ) (v : ν) : List (κ × ν) → List (κ × ν)
  | [] => [(k, v)]
  | a :: l =>
    if k < a.1 then (k, v) :: a :: l
    else if a.1 < k then a :: setItem k v l
    else (k, v) :: l

theorem map_fst_setItem :
    (setItem k v l).map Prod.fst = (OrderedSet.insertItem Prod.fst (k, v) l).map Prod.fst := by
  induction l with
  | nil => rfl
  | cons a l ih =>
    rw [setItem, OrderedSet.insertItem]
    split_ifs with hlt hgt
    · rfl
    · rw [List.map_cons, ih, List.map_cons]
    · show k :: l.map Prod.fst = a.1 :: l.map Prod.fst
      rw [le_antisymm (not_lt.mp hgt) (not_lt.mp hlt)]

theorem sorted_setItem (h : l.Pairwise fun a b => a.1 < b.1) :
    (setItem k v l).Pairwise fun a b => a.1 < b.1 := by
  have hsorted : ((OrderedSet.insertItem Prod.fst (k, v) l).map Prod.fst).Pairwise (· < ·) :=
    List.pairwise_map.mpr (OrderedSet.sorted_insertItem h)
  rw [← map_fst_setItem] at hsorted
  exact List.pairwise_map.mp hsorted

/-- `operator[]` and an assignment. -/
def set (m : OrderedMap κ ν) (k : κ) (v : ν) : OrderedMap κ ν :=
  ⟨setItem k v m.items, sorted_setItem m.sorted⟩

theorem lookup_cons_eq (a : κ × ν) (l : List (κ × ν)) :
    (a :: l).lookup k = if k = a.1 then some a.2 else l.lookup k := by
  rw [List.lookup_cons]
  by_cases h : k = a.1
  · rw [if_pos h, beq_iff_eq.mpr h]
  · rw [if_neg h, beq_eq_false_iff_ne.mpr h]

theorem lookup_setItem : (setItem k v l).lookup k' = if k' = k then some v else l.lookup k' := by
  induction l with
  | nil => exact lookup_cons_eq (k, v) []
  | cons a l ih =>
    rcases lt_trichotomy k a.1 with hlt | heq | hgt
    · rw [setItem, if_pos hlt, lookup_cons_eq]
    · rw [setItem, if_neg (heq ▸ lt_irrefl _), if_neg (heq ▸ lt_irrefl _), lookup_cons_eq,
        lookup_cons_eq, ← heq]
      split_ifs <;> rfl
    · rw [setItem, if_neg hgt.not_gt, if_pos hgt, lookup_cons_eq, ih, lookup_cons_eq]
      by_cases hk : k' = k
      · rw [if_pos hk, if_pos hk, if_neg (hk ▸ hgt.ne')]
      · rw [if_neg hk, if_neg hk]

theorem get?_set {m : OrderedMap κ ν} :
    (m.set k v).get? k' = if k' = k then some v else m.get? k' :=
  lookup_setItem

theorem lookup_insertItem_of_ne (h : k' ≠ k) :
    (OrderedSet.insertItem Prod.fst (k, v) l).lookup k' = l.lookup k' := by
  induction l with
  | nil => exact (lookup_cons_eq (k, v) []).trans (if_neg h)
  | cons a l ih =>
    rw [OrderedSet.insertItem]
    split_ifs
    · rw [lookup_cons_eq, if_neg h]
    · rw [lookup_cons_eq, ih, lookup_cons_eq]
    · rfl

theorem get?_insert_of_ne {m : OrderedMap κ ν} (h : k' ≠ k) :
    OrderedMap.get? (m.insert (k, v)) k' = m.get? k' :=
  lookup_insertItem_of_ne h

/-- All entries but that of a key. -/
def erase (m : OrderedMap κ ν) (k : κ) : OrderedMap κ ν :=
  ⟨m.items.filter fun e => e.1 ≠ k, m.sorted.filter _⟩

theorem filter_insertItem :
    ((OrderedSet.insertItem Prod.fst (k, v) l).filter fun e => e.1 ≠ k) =
      l.filter fun e => e.1 ≠ k := by
  induction l with
  | nil => simp [OrderedSet.insertItem]
  | cons a l ih =>
    rw [OrderedSet.insertItem]
    split_ifs with hlt hgt
    · rw [List.filter_cons_of_neg (by simp)]
    · rw [List.filter_cons, ih, List.filter_cons]
    · rfl

theorem erase_insert {m : OrderedMap κ ν} (h : k ∉ m.keys) :
    OrderedMap.erase (m.insert (k, v)) k = m := by
  apply OrderedSet.eq_of_items_eq
  show (OrderedSet.insertItem Prod.fst (k, v) m.items).filter _ = m.items
  rw [filter_insertItem, List.filter_eq_self]
  intro e he
  rw [decide_eq_true_eq]
  intro hk
  exact h (hk ▸ List.mem_map_of_mem he)

theorem mem_of_get? {m : OrderedMap κ ν} (h : m.get? k = some v) : (k, v) ∈ m.items := by
  unfold get? at h
  generalize m.items = l at h
  induction l with
  | nil => cases h
  | cons a l ih =>
    rw [lookup_cons_eq] at h
    split_ifs at h with hk
    · rw [hk, ← Option.some.inj h]
      exact List.mem_cons_self
    · exact List.mem_cons_of_mem a (ih h)

theorem get?_of_mem {m : OrderedMap κ ν} (h : (k, v) ∈ m.items) : m.get? k = some v := by
  have hsorted := m.sorted
  unfold get?
  generalize m.items = l at h hsorted
  induction l with
  | nil => cases h
  | cons a l ih =>
    obtain ⟨hlt, hrest⟩ := List.pairwise_cons.mp hsorted
    rw [lookup_cons_eq]
    rcases List.mem_cons.mp h with rfl | hmem
    · exact if_pos rfl
    · have hne : a.1 ≠ k := (hlt (k, v) hmem).ne
      rw [if_neg hne.symm]
      exact ih hmem hrest

theorem get?_eq_none_iff {m : OrderedMap κ ν} : m.get? k = none ↔ k ∉ m.keys := by
  rw [get?, List.lookup_eq_none_iff, OrderedSet.keys, List.mem_map]
  simp only [bne_iff_ne, ne_eq, not_exists, not_and]
  exact forall₂_congr fun e _ => ⟨fun h he => h he.symm, fun h he => h he.symm⟩

end OrderedMap

end Base
end Rocprofsys
