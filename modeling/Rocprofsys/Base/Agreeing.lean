import Mathlib.Data.List.Induction
import Mathlib.Data.List.Pairwise

namespace Rocprofsys
namespace Base

variable {α κ τ ι : Type} [DecidableEq κ] [DecidableEq τ] [DecidableEq ι]

/-! ## Keeping what agrees with the first of its class -/

section Agreeing

variable (cls : α → κ) (tag : α → τ) (ident : α → ι)

/-- Drops what has a kept element of its class with another tag, and what was dropped before. -/
def agreeStep (s : List α × List ι) (a : α) : List α × List ι :=
  if ident a ∈ s.2 then s
  else if s.1.any fun k => decide (cls k = cls a ∧ tag k ≠ tag a) then (s.1, ident a :: s.2)
  else (s.1 ++ [a], s.2)

/-- The kept elements, and the identities of the dropped ones. -/
def agreeing (l : List α) : List α × List ι := l.foldl (agreeStep cls tag ident) ([], [])

/-- An element has the tag of the first of its class. -/
def AgreesIn (l : List α) (a : α) : Prop :=
  ∀ first ∈ l.find? fun b => cls b = cls a, tag a = tag first

instance (l : List α) (a : α) : Decidable (AgreesIn cls tag l a) :=
  inferInstanceAs (Decidable (∀ _ ∈ (_ : Option α), _))

variable {cls tag ident} {l : List α} {a b : α}

section First

omit [DecidableEq τ]

/-- A class that is there has its first element already. -/
theorem agreesIn_append_of_mem (hb : b ∈ l) (hcls : cls a = cls b) (l' : List α) :
    AgreesIn cls tag (l ++ l') a ↔ AgreesIn cls tag l a := by
  have hsome : (l.find? fun c => cls c = cls a).isSome := by
    rw [List.find?_isSome]
    exact ⟨b, hb, decide_eq_true hcls.symm⟩
  obtain ⟨first, hfirst⟩ := Option.isSome_iff_exists.mp hsome
  unfold AgreesIn
  rw [List.find?_append, hfirst, Option.some_or]

theorem agreesIn_append_of_new (hnew : ∀ b ∈ l, cls b ≠ cls a) :
    AgreesIn cls tag (l ++ [a]) a := by
  intro first hfirst
  have hnone : (l.find? fun b => cls b = cls a) = none := by
    rw [List.find?_eq_none]
    intro b hb
    rw [decide_eq_true_eq]
    exact hnew b hb
  rw [List.find?_append, hnone, Option.none_or, List.find?_cons_of_pos (by simp)] at hfirst
  cases hfirst
  rfl

/-- The first of a class, if the class has a member. -/
theorem exists_first (cls : α → κ) (hb : b ∈ l) :
    ∃ first ∈ l, cls first = cls b ∧ (l.find? fun c => cls c = cls b) = some first := by
  have hsome : (l.find? fun c => cls c = cls b).isSome := by
    rw [List.find?_isSome]
    exact ⟨b, hb, decide_eq_true rfl⟩
  obtain ⟨first, hfirst⟩ := Option.isSome_iff_exists.mp hsome
  exact ⟨first, List.mem_of_find?_eq_some hfirst, by simpa using List.find?_some hfirst, hfirst⟩

theorem agreesIn_iff_of_first {first : α} (hfirst : (l.find? fun c => cls c = cls a) = some first) :
    AgreesIn cls tag l a ↔ tag a = tag first := by
  unfold AgreesIn
  rw [hfirst]
  exact ⟨fun h => h first rfl, fun h b hb => by cases hb; exact h⟩

/-- An element that is told apart by neither class nor tag from one that disagrees. -/
theorem not_agreesIn_of_same (hb : b ∈ l) (hcls : cls b = cls a) (htag : tag b = tag a)
    (h : ¬ AgreesIn cls tag l b) : ¬ AgreesIn cls tag (l ++ [a]) a := by
  rw [agreesIn_append_of_mem hb hcls.symm]
  unfold AgreesIn at h ⊢
  rwa [← hcls, ← htag]

/-- An element with another tag than one that agrees. -/
theorem not_agreesIn_of_clash (hb : b ∈ l) (h : AgreesIn cls tag l b) (hcls : cls b = cls a)
    (htag : tag b ≠ tag a) : ¬ AgreesIn cls tag (l ++ [a]) a := by
  obtain ⟨first, -, -, hfirst⟩ := exists_first cls hb
  rw [agreesIn_iff_of_first hfirst] at h
  rw [agreesIn_append_of_mem hb hcls.symm, agreesIn_iff_of_first (hcls ▸ hfirst), ← h]
  exact fun hne => htag hne.symm

/-- The first of the class agrees with itself, so that a clash with it would be seen. -/
theorem agreesIn_of_no_clash
    (h : ∀ b ∈ l, AgreesIn cls tag l b → cls b = cls a → tag b = tag a) :
    AgreesIn cls tag (l ++ [a]) a := by
  by_cases hclass : ∃ b ∈ l, cls b = cls a
  · obtain ⟨b, hb, hcls⟩ := hclass
    obtain ⟨first, hmem, hsame, hfirst⟩ := exists_first cls hb
    have hagrees : AgreesIn cls tag l first := (agreesIn_iff_of_first (hsame ▸ hfirst)).mpr rfl
    rw [agreesIn_append_of_mem hb hcls.symm, agreesIn_iff_of_first (hcls ▸ hfirst)]
    exact (h first hmem hagrees (hsame.trans hcls)).symm
  · apply agreesIn_append_of_new
    intro b hb hcls
    exact hclass ⟨b, hb, hcls⟩

end First

/-- What is kept agrees with the first of its class, and what was dropped did not. -/
theorem agreeing_spec (hident : ∀ a ∈ l, ∀ b ∈ l, ident a = ident b → cls a = cls b ∧ tag a = tag b) :
    (agreeing cls tag ident l).1 = l.filter (fun a => AgreesIn cls tag l a) ∧
      ∀ i ∈ (agreeing cls tag ident l).2, ∃ b ∈ l, ident b = i ∧ ¬ AgreesIn cls tag l b := by
  induction l using List.reverseRecOn with
  | nil => exact ⟨rfl, fun i hi => absurd hi List.not_mem_nil⟩
  | append_singleton l a ih =>
    obtain ⟨hkept, hdropped⟩ := ih fun b hb c hc =>
      hident b (List.mem_append_left _ hb) c (List.mem_append_left _ hc)
    have ha : a ∈ l ++ [a] := List.mem_append_right _ (List.mem_singleton_self a)
    have hbefore (b : α) (hb : b ∈ l) :
        AgreesIn cls tag (l ++ [a]) b ↔ AgreesIn cls tag l b := agreesIn_append_of_mem hb rfl [a]
    have hfilter : l.filter (fun b => AgreesIn cls tag (l ++ [a]) b) =
        l.filter (fun b => AgreesIn cls tag l b) :=
      List.filter_congr fun b hb => decide_eq_decide.mpr (hbefore b hb)
    have hstep : agreeing cls tag ident (l ++ [a]) =
        agreeStep cls tag ident (agreeing cls tag ident l) a := by
      rw [agreeing, List.foldl_append, List.foldl_cons, List.foldl_nil, ← agreeing]
    have hold : ∀ i ∈ (agreeing cls tag ident l).2,
        ∃ b ∈ l ++ [a], ident b = i ∧ ¬ AgreesIn cls tag (l ++ [a]) b := by
      intro i hi
      obtain ⟨b, hb, heq, hdisagree⟩ := hdropped i hi
      exact ⟨b, List.mem_append_left _ hb, heq, fun h => hdisagree ((hbefore b hb).mp h)⟩
    rw [hstep, List.filter_append, hfilter, agreeStep]
    split
    · rename_i hcached
      obtain ⟨b, hb, heq, hdisagree⟩ := hdropped _ hcached
      obtain ⟨hcls, htag⟩ := hident b (List.mem_append_left _ hb) a ha heq
      have hnot := not_agreesIn_of_same hb hcls htag hdisagree
      refine ⟨?_, hold⟩
      rw [List.filter_cons_of_neg (by simpa using hnot), List.filter_nil, List.append_nil, hkept]
    · split
      · rename_i hclash
        obtain ⟨k, hk, hother⟩ := List.any_eq_true.mp hclash
        obtain ⟨hcls, htag⟩ := of_decide_eq_true hother
        rw [hkept, List.mem_filter] at hk
        have hnot := not_agreesIn_of_clash hk.1 (of_decide_eq_true hk.2) hcls htag
        constructor
        · rw [List.filter_cons_of_neg (by simpa using hnot), List.filter_nil, List.append_nil,
            hkept]
        · intro i hi
          rcases List.mem_cons.mp hi with rfl | hi
          · exact ⟨a, ha, rfl, hnot⟩
          · exact hold i hi
      · rename_i hclash
        have hagrees : AgreesIn cls tag (l ++ [a]) a := by
          apply agreesIn_of_no_clash
          intro b hb hbagrees hcls
          by_contra hne
          have hmem : b ∈ (agreeing cls tag ident l).1 := by
            rw [hkept, List.mem_filter]
            exact ⟨hb, decide_eq_true hbagrees⟩
          exact hclash (List.any_eq_true.mpr ⟨b, hmem, decide_eq_true ⟨hcls, hne⟩⟩)
        refine ⟨?_, hold⟩
        rw [List.filter_cons_of_pos (by simpa using hagrees), List.filter_nil, hkept]

end Agreeing

end Base
end Rocprofsys
