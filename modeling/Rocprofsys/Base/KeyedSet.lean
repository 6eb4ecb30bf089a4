import Mathlib.Data.List.Nodup

namespace Rocprofsys
namespace Base

/-- Where keys come once, a filter by the key finds at most one element. -/
theorem filter_eq_find {α κ : Type} [BEq κ] [LawfulBEq κ] {key : α → κ} {l : List α}
    (h : (l.map key).Nodup) (k : κ) :
    (l.filter fun a => k == key a) = (l.find? fun a => k == key a).toList := by
  induction l with
  | nil => rfl
  | cons a l ih =>
    obtain ⟨ha, hl⟩ := List.nodup_cons.mp h
    cases hk : k == key a with
    | true =>
      rw [List.filter_cons_of_pos (p := fun a => k == key a) hk,
        List.find?_cons_of_pos (p := fun a => k == key a) hk, ih hl]
      have hnone : (l.find? fun b => k == key b) = none := by
        refine List.find?_eq_none.mpr fun b hb hkb => ha ?_
        rw [← eq_of_beq hk, eq_of_beq hkb]
        exact List.mem_map_of_mem hb
      rw [hnone]
      rfl
    | false =>
      have hne : ¬ (k == key a) = true := ne_true_of_eq_false hk
      rw [List.filter_cons_of_neg (p := fun a => k == key a) hne,
        List.find?_cons_of_neg (p := fun a => k == key a) hne, ih hl]

/-- A set that takes two values with one key for the same element.  The order of
`entries` is the order of iteration. -/
structure KeyedSet {α κ : Type} (key : α → κ) where
  entries : List α
  nodup : (entries.map key).Nodup

namespace KeyedSet

variable {α κ : Type} {key : α → κ}

instance : Membership α (KeyedSet key) := ⟨fun s x => x ∈ s.entries⟩

instance : EmptyCollection (KeyedSet key) := ⟨⟨[], List.nodup_nil⟩⟩

theorem entries_empty : (∅ : KeyedSet key).entries = [] := rfl

theorem ext_entries {s t : KeyedSet key} (h : s.entries = t.entries) : s = t := by
  cases s
  cases t
  cases h
  rfl

/-- The two sets have the same elements. -/
def Same (s t : KeyedSet key) : Prop := ∀ x, x ∈ s ↔ x ∈ t

theorem nodup_append_singleton {s : KeyedSet key} {x : α} (h : key x ∉ s.entries.map key) :
    ((s.entries ++ [x]).map key).Nodup := by
  rw [List.map_append, List.map_singleton]
  refine List.Nodup.append s.nodup (List.nodup_singleton _) ?_
  intro k hk hx
  rw [List.mem_singleton.mp hx] at hk
  exact h hk

variable [DecidableEq κ]

/-- Insert `x` unless its key is taken. -/
def add (s : KeyedSet key) (x : α) : KeyedSet key :=
  if h : key x ∈ s.entries.map key then s else ⟨s.entries ++ [x], nodup_append_singleton h⟩

def addAll (s : KeyedSet key) (xs : List α) : KeyedSet key := xs.foldl add s

@[simp] theorem addAll_nil (s : KeyedSet key) : s.addAll [] = s := rfl

@[simp] theorem addAll_cons (s : KeyedSet key) (x : α) (xs : List α) :
    s.addAll (x :: xs) = (s.add x).addAll xs := rfl

theorem entries_add {s : KeyedSet key} {x : α} (h : key x ∉ s.entries.map key) :
    (s.add x).entries = s.entries ++ [x] := by
  rw [add, dif_neg h]

theorem add_of_mem {s : KeyedSet key} {x : α} (h : key x ∈ s.entries.map key) : s.add x = s := by
  rw [add, dif_pos h]

theorem mem_of_mem_add {s : KeyedSet key} {x y : α} (h : y ∈ s.add x) : y ∈ s ∨ y = x := by
  rw [add] at h
  split at h
  · exact Or.inl h
  · rcases List.mem_append.mp h with hs | hx
    · exact Or.inl hs
    · exact Or.inr (List.mem_singleton.mp hx)

/-- Nothing but the old and the added elements is in the set. -/
theorem mem_of_mem_addAll {xs : List α} {s : KeyedSet key} {y : α} (h : y ∈ s.addAll xs) :
    y ∈ s ∨ y ∈ xs := by
  induction xs generalizing s with
  | nil => exact Or.inl h
  | cons x xs ih =>
    rcases ih h with hadd | hxs
    · rcases mem_of_mem_add hadd with hs | rfl
      · exact Or.inl hs
      · exact Or.inr List.mem_cons_self
    · exact Or.inr (List.mem_cons_of_mem x hxs)

/-- Elements with keys of their own are all inserted, in order. -/
theorem entries_addAll {xs : List α} {s : KeyedSet key}
    (h : ((s.entries ++ xs).map key).Nodup) : (s.addAll xs).entries = s.entries ++ xs := by
  induction xs generalizing s with
  | nil => rw [addAll_nil, List.append_nil]
  | cons x xs ih =>
    have hfresh : key x ∉ s.entries.map key := by
      intro hx
      rw [List.map_append, List.nodup_append] at h
      exact h.2.2 _ hx _ (List.mem_map_of_mem List.mem_cons_self) rfl
    have hadd : (s.add x).entries ++ xs = s.entries ++ x :: xs := by
      rw [entries_add hfresh, List.append_assoc]
      rfl
    rw [addAll_cons, ih (by rw [hadd]; exact h), hadd]

theorem addAll_append (s : KeyedSet key) (xs ys : List α) :
    s.addAll (xs ++ ys) = (s.addAll xs).addAll ys := List.foldl_append

theorem mem_keys_add {s : KeyedSet key} {x : α} {k : κ} :
    k ∈ (s.add x).entries.map key ↔ k ∈ s.entries.map key ∨ k = key x := by
  by_cases hx : key x ∈ s.entries.map key
  · rw [add_of_mem hx, or_iff_left_of_imp]
    intro heq
    rw [heq]
    exact hx
  · rw [entries_add hx, List.map_append, List.map_singleton, List.mem_append, List.mem_singleton]

theorem mem_keys_addAll {xs : List α} {s : KeyedSet key} {k : κ} :
    k ∈ (s.addAll xs).entries.map key ↔ k ∈ s.entries.map key ∨ k ∈ xs.map key := by
  induction xs generalizing s with
  | nil => rw [addAll_nil, List.map_nil, or_iff_left List.not_mem_nil]
  | cons x xs ih => rw [addAll_cons, ih, mem_keys_add, List.map_cons, List.mem_cons, or_assoc]

theorem mem_keys_empty_addAll {xs : List α} {k : κ} :
    k ∈ ((∅ : KeyedSet key).addAll xs).entries.map key ↔ k ∈ xs.map key :=
  mem_keys_addAll.trans (or_iff_right List.not_mem_nil)

/-- Of the elements with one key the first is kept. -/
theorem find_addAll {xs : List α} {s : KeyedSet key} (k : κ) :
    (s.addAll xs).entries.find? (fun x => key x == k) =
      (s.entries ++ xs).find? fun x => key x == k := by
  induction xs generalizing s with
  | nil => rw [addAll_nil, List.append_nil]
  | cons x xs ih =>
    rw [addAll_cons, ih]
    by_cases hx : key x ∈ s.entries.map key
    · rw [add_of_mem hx, List.find?_append, List.find?_append, List.find?_cons]
      cases hk : key x == k with
      | false => rfl
      | true =>
        obtain ⟨y, hy, hyx⟩ := List.mem_map.mp hx
        have hfound : (s.entries.find? fun z => key z == k).isSome = true :=
          List.find?_isSome.mpr ⟨y, hy, by rw [hyx, hk]⟩
        rw [Option.or_of_isSome hfound, Option.or_of_isSome hfound]
    · rw [entries_add hx, List.append_assoc, List.singleton_append]

theorem mem_iff_find {s : KeyedSet key} {x : α} :
    x ∈ s.entries ↔ s.entries.find? (fun y => key y == key x) = some x := by
  refine ⟨fun hx => ?_, fun hfind => List.mem_of_find?_eq_some hfind⟩
  have hsome : (s.entries.find? fun y => key y == key x).isSome = true :=
    List.find?_isSome.mpr ⟨x, hx, beq_self_eq_true _⟩
  obtain ⟨y, hy⟩ := Option.isSome_iff_exists.mp hsome
  have hkey := List.find?_some hy
  rw [hy, List.inj_on_of_nodup_map s.nodup (List.mem_of_find?_eq_some hy) hx (eq_of_beq hkey)]

/-- Every set is reached from the empty one by inserting its elements. -/
theorem empty_addAll_entries (s : KeyedSet key) : (∅ : KeyedSet key).addAll s.entries = s := by
  apply ext_entries
  rw [entries_addAll (by simpa [entries_empty] using s.nodup), entries_empty, List.nil_append]

/-- A set rebuilt from images under an idempotent `f` is the same set exactly when
`f` changes none of its elements: an element that `f` changes is no image, and
another one's image cannot stand for it. -/
theorem same_addAll_map_iff {f : α → α} (hf : ∀ x, f (f x) = f x) (s : KeyedSet key) :
    ((∅ : KeyedSet key).addAll (s.entries.map f)).Same s ↔ ∀ x ∈ s, f x = x := by
  constructor
  · intro h x hx
    rcases mem_of_mem_addAll ((h x).mpr hx) with hempty | hmap
    · exact absurd hempty List.not_mem_nil
    · obtain ⟨y, -, rfl⟩ := List.mem_map.mp hmap
      exact hf y
  · intro h x
    have hmap : s.entries.map f = s.entries := (List.map_congr_left h).trans (List.map_id _)
    rw [hmap, empty_addAll_entries]

end KeyedSet

end Base
end Rocprofsys
