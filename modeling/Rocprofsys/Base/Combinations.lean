import Mathlib.Data.List.Induction
import Mathlib.Data.List.Nodup
import Mathlib.Data.List.Perm.Basic
import Mathlib.Data.List.Sections

namespace Rocprofsys
namespace Base

/-! ## Products that are built by expansion -/

variable {α β γ κ ν ε : Type}

theorem flatMap_map_perm (f : α → β → γ) (l : List α) (m : List β) :
    (l.flatMap fun a => m.map (f a)).Perm (m.flatMap fun b => l.map fun a => f a b) := by
  induction l with
  | nil =>
    have hempty : (m.flatMap fun _ => ([] : List γ)) = [] :=
      List.flatMap_eq_nil_iff.mpr fun _ _ => rfl
    show ([] : List γ).Perm (m.flatMap fun _ => [])
    rw [hempty]
  | cons a l ih =>
    rw [List.flatMap_cons]
    refine (List.Perm.append_left _ ih).trans ?_
    exact List.map_append_flatMap_perm m (f a) fun b => l.map fun a => f a b

/-- Each partial result is replaced by one with each value of a list; no partial result stands
for the single `start`, and an empty list changes nothing. -/
def expand (set : ε → κ × ν → ε) (start : ε) (tmp : List ε) (axis : κ × List ν) : List ε :=
  if axis.2 = [] then tmp
  else
    let tmp := if tmp = [] then [start] else tmp
    axis.2.flatMap fun d => tmp.map fun e => set e (axis.1, d)

/-- The choices of a list of axes that have some, the last axis first. -/
def choices (axes : List (κ × List ν)) : List (List (κ × ν)) :=
  (axes.filter fun axis => axis.2 ≠ []).reverse.map fun axis => axis.2.map fun d => (axis.1, d)

/-- One choice of each axis that has some, the last axis first. -/
def combinations (axes : List (κ × List ν)) : List (List (κ × ν)) := (choices axes).sections

/-- What a combination makes of `start`. -/
def build (set : ε → κ × ν → ε) (start : ε) (c : List (κ × ν)) : ε :=
  c.foldr (fun choice e => set e choice) start

variable {set : ε → κ × ν → ε} {start : ε} {axes : List (κ × List ν)} {axis : κ × List ν}

theorem choices_append_singleton (axes : List (κ × List ν)) (axis : κ × List ν) :
    choices (axes ++ [axis]) =
      if axis.2 = [] then choices axes else axis.2.map (fun d => (axis.1, d)) :: choices axes := by
  unfold choices
  rw [List.filter_append, List.reverse_append, List.map_append]
  by_cases h : axis.2 = []
  · rw [if_pos h, List.filter_singleton]
    simp [h]
  · rw [if_neg h, List.filter_singleton]
    simp [h]

/-- The partial results, with `start` for none of them. -/
def started (start : ε) (tmp : List ε) : List ε := if tmp = [] then [start] else tmp

theorem started_eq_of_ne_nil {tmp : List ε} (h : tmp ≠ []) : started start tmp = tmp := if_neg h

theorem expand_perm {tmp l : List ε} (h : (started start tmp).Perm l) (hne : axis.2 ≠ []) :
    (expand set start tmp axis).Perm (l.flatMap fun e => axis.2.map fun d => set e (axis.1, d)) := by
  rw [expand, if_neg hne]
  refine (flatMap_map_perm (fun d e => set e (axis.1, d)) axis.2 (started start tmp)).trans ?_
  exact h.flatMap_right _

theorem started_ne_nil (start : ε) (tmp : List ε) : started start tmp ≠ [] := by
  unfold started
  split_ifs with h
  · exact List.cons_ne_nil _ _
  · exact h

/-- Axis after axis, the partial results are those of the combinations so far. -/
theorem started_foldl_expand (set : ε → κ × ν → ε) (start : ε) (axes : List (κ × List ν)) :
    (started start (axes.foldl (expand set start) [])).Perm
      ((combinations axes).map (build set start)) := by
  induction axes using List.reverseRecOn with
  | nil => exact List.Perm.refl _
  | append_singleton axes axis ih =>
    rw [List.foldl_append, List.foldl_cons, List.foldl_nil, combinations,
      choices_append_singleton]
    by_cases hempty : axis.2 = []
    · rw [if_pos hempty, expand, if_pos hempty]
      exact ih
    · rw [if_neg hempty]
      have hexpand : (expand set start (axes.foldl (expand set start) []) axis).Perm _ :=
        expand_perm ih hempty
      have hne : expand set start (axes.foldl (expand set start) []) axis ≠ [] := by
        rw [expand, if_neg hempty]
        obtain ⟨d, hd⟩ := List.exists_mem_of_ne_nil axis.2 hempty
        obtain ⟨e, he⟩ := List.exists_mem_of_ne_nil _
          (started_ne_nil start (axes.foldl (expand set start) []))
        exact List.ne_nil_of_mem (List.mem_flatMap.mpr ⟨d, hd, List.mem_map_of_mem he⟩)
      rw [started_eq_of_ne_nil hne]
      refine hexpand.trans ?_
      rw [List.sections, List.map_flatMap, List.flatMap_map]
      simp only [List.map_map]
      exact List.Perm.refl _

/-! ## Distinct combinations -/

theorem nodup_sections {L : List (List α)} (h : ∀ l ∈ L, l.Nodup) : L.sections.Nodup := by
  induction L with
  | nil => exact List.nodup_singleton _
  | cons l L ih =>
    obtain ⟨hl, hL⟩ := List.forall_mem_cons.mp h
    rw [List.sections, List.nodup_flatMap]
    constructor
    · intro s _
      exact hl.map fun a b hab => (List.cons.inj hab).1
    · refine (ih hL).imp fun {s t} hst => ?_
      intro c hs ht
      obtain ⟨a, _, rfl⟩ := List.mem_map.mp hs
      obtain ⟨b, _, hb⟩ := List.mem_map.mp ht
      exact hst (List.cons.inj hb).2.symm

theorem nodup_choices {c : List (κ × ν)} (h : ∀ axis ∈ axes, axis.2.Nodup)
    (hc : (c : List (κ × ν)) ∈ choices axes) : c.Nodup := by
  obtain ⟨axis, haxis, rfl⟩ := List.mem_map.mp hc
  have hmem := List.mem_of_mem_filter (List.mem_reverse.mp haxis)
  exact (h axis hmem).map fun a b hab => (Prod.mk.inj hab).2

theorem nodup_combinations (h : ∀ axis ∈ axes, axis.2.Nodup) : (combinations axes).Nodup :=
  nodup_sections fun _ hc => nodup_choices h hc

/-- The axes that have some choice, the last first. -/
def chosenKeys (axes : List (κ × List ν)) : List κ :=
  (axes.filter fun axis => axis.2 ≠ []).reverse.map Prod.fst

theorem map_fst_of_mem_combinations {c : List (κ × ν)} (h : c ∈ combinations axes) :
    c.map Prod.fst = chosenKeys axes := by
  have hforall := List.mem_sections.mp h
  unfold choices at hforall
  rw [List.forall₂_map_right_iff] at hforall
  unfold chosenKeys
  generalize (axes.filter fun axis => axis.2 ≠ []).reverse = chosen at hforall ⊢
  clear h
  induction hforall with
  | nil => rfl
  | cons hhead _ ih =>
    obtain ⟨d, _, rfl⟩ := List.mem_map.mp hhead
    rw [List.map_cons, List.map_cons, ih]

/-- Lists of choices for the same distinct keys that are looked up alike are the same. -/
theorem eq_of_lookup_eq [BEq κ] [LawfulBEq κ] {c c' : List (κ × ν)}
    (hkeys : c.map Prod.fst = c'.map Prod.fst) (hnodup : (c.map Prod.fst).Nodup)
    (h : ∀ k, c.lookup k = c'.lookup k) : c = c' := by
  induction c generalizing c' with
  | nil => exact (List.map_eq_nil_iff.mp hkeys.symm).symm
  | cons a c ih =>
    cases c' with
    | nil => cases hkeys
    | cons b c' =>
      obtain ⟨hab, hrest⟩ := List.cons.inj hkeys
      obtain ⟨ha, hc⟩ := List.nodup_cons.mp hnodup
      have hvalue : a.2 = b.2 := by
        have hlookup := h a.1
        rw [List.lookup_cons, List.lookup_cons, ← hab, beq_self_eq_true] at hlookup
        exact Option.some.inj hlookup
      have hnone : ∀ l : List (κ × ν), a.1 ∉ l.map Prod.fst → l.lookup a.1 = none := by
        intro l hl
        rw [List.lookup_eq_none_iff]
        intro p hp
        rw [bne_iff_ne]
        intro heq
        exact hl (heq ▸ List.mem_map_of_mem hp)
      rw [Prod.ext hab hvalue, ih hrest hc]
      intro k
      by_cases hk : k = a.1
      · rw [hk, hnone c ha, hnone c' (hrest ▸ ha)]
      · have hlookup := h k
        rw [List.lookup_cons, List.lookup_cons, ← hab, beq_eq_false_iff_ne.mpr hk] at hlookup
        exact hlookup

end Base
end Rocprofsys
