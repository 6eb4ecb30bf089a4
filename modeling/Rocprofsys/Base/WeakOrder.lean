import Mathlib.Data.List.Destutter
import Mathlib.Data.List.Sort
import Mathlib.Data.Prod.Lex

namespace Rocprofsys
namespace Base

variable {α : Type} {lt : α → α → Prop} {l p c : List α} {x y z : α}

/-! ## Strict weak orderings of the members of a list -/

/-- What a comparison has to be for a sort of the list to be defined. -/
structure StrictWeakOn (lt : α → α → Prop) (l : List α) : Prop where
  irrefl : ∀ x ∈ l, ¬ lt x x
  trans : ∀ x ∈ l, ∀ y ∈ l, ∀ z ∈ l, lt x y → lt y z → lt x z
  incomparable : ∀ x ∈ l, ∀ y ∈ l, ∀ z ∈ l,
    ¬ lt x y → ¬ lt y x → ¬ lt y z → ¬ lt z y → ¬ lt x z ∧ ¬ lt z x

/-- What a sort may give: elements that are not comparable come in any order. -/
def SortedOf (lt : α → α → Prop) (l p : List α) : Prop :=
  p.Perm l ∧ p.Pairwise fun x y => ¬ lt y x

namespace StrictWeakOn

theorem asymm (h : StrictWeakOn lt l) (hx : x ∈ l) (hy : y ∈ l) (hlt : lt x y) : ¬ lt y x :=
  fun hlt' => h.irrefl x hx (h.trans x hx y hy x hx hlt hlt')

/-- Whatever stands beside two comparable elements is comparable with one of them. -/
theorem cotrans (h : StrictWeakOn lt l) (hx : x ∈ l) (hy : y ∈ l) (hz : z ∈ l) (hlt : lt x z) :
    lt x y ∨ lt y z := by
  by_contra hneither
  obtain ⟨hxy, hyz⟩ := not_or.mp hneither
  have hyx : ¬ lt y x := fun hyx => hyz (h.trans y hy x hx z hz hyx hlt)
  have hzy : ¬ lt z y := fun hzy => hxy (h.trans x hx z hz y hy hlt hzy)
  exact (h.incomparable x hx y hy z hz hxy hyx hyz hzy).1 hlt

theorem of_cotrans (hasymm : ∀ x ∈ l, ∀ y ∈ l, lt x y → ¬ lt y x)
    (hcotrans : ∀ x ∈ l, ∀ y ∈ l, ∀ z ∈ l, lt x z → lt x y ∨ lt y z) : StrictWeakOn lt l where
  irrefl x hx hlt := hasymm x hx x hx hlt hlt
  trans x hx y hy z hz hxy hyz := by
    rcases hcotrans x hx z hz y hy hxy with h | h
    · exact h
    · exact absurd h (hasymm y hy z hz hyz)
  incomparable x hx y hy z hz hxy hyx hyz hzy := by
    constructor
    · intro h
      rcases hcotrans x hx y hy z hz h with h | h
      · exact hxy h
      · exact hyz h
    · intro h
      rcases hcotrans z hz y hy x hx h with h | h
      · exact hzy h
      · exact hyx h

/-- A comparison of keys. -/
theorem of_key_on {κ : Type} [LinearOrder κ] (key : α → κ)
    (hkey : ∀ x ∈ l, ∀ y ∈ l, (lt x y ↔ key x < key y)) : StrictWeakOn lt l := by
  refine of_cotrans (fun x hx y hy hlt => ?_) fun x hx y hy z hz hlt => ?_
  · rw [hkey x hx y hy] at hlt
    rw [hkey y hy x hx]
    exact hlt.asymm
  · rw [hkey x hx z hz] at hlt
    rw [hkey x hx y hy, hkey y hy z hz]
    exact (lt_or_ge (key x) (key y)).imp_right fun hle => hle.trans_lt hlt

theorem of_key {κ : Type} [LinearOrder κ] (key : α → κ) (hkey : ∀ x y, lt x y ↔ key x < key y) :
    StrictWeakOn lt l := of_key_on key fun x _ y _ => hkey x y

/-- Keys that are compared across groups only: two elements of a group must have no key of
another group between them. -/
theorem across_groups_iff {κ γ : Type} [LinearOrder κ] (key : α → κ) (group : α → γ)
    (hlt : ∀ x y, lt x y ↔ group x ≠ group y ∧ key x < key y)
    (hkey : ∀ x y, key x = key y → group x = group y) :
    StrictWeakOn lt l ↔ ∀ x ∈ l, ∀ z ∈ l, group x = group z → ∀ y ∈ l, key x < key y →
      key y < key z → group y = group x := by
  constructor
  · intro h x hx z hz hgroup y hy hxy hyz
    by_contra hne
    have hfirst : lt x y := (hlt x y).mpr ⟨Ne.symm hne, hxy⟩
    have hsecond : lt y z := (hlt y z).mpr ⟨hgroup ▸ hne, hyz⟩
    exact ((hlt x z).mp (h.trans x hx y hy z hz hfirst hsecond)).1 hgroup
  · intro h
    -- only elements of one group are not comparable
    have hsame {x y : α} (hxy : ¬ lt x y) (hyx : ¬ lt y x) : group x = group y := by
      by_contra hne
      rw [hlt] at hxy hyx
      rcases lt_trichotomy (key x) (key y) with hless | heq | hmore
      · exact hxy ⟨hne, hless⟩
      · exact hne (hkey x y heq)
      · exact hyx ⟨Ne.symm hne, hmore⟩
    have hnot {x z : α} (hgroup : group x = group z) : ¬ lt x z :=
      fun hxz => ((hlt x z).mp hxz).1 hgroup
    constructor
    · exact fun x _ => hnot rfl
    · intro x hx y hy z hz hxy hyz
      rw [hlt] at hxy hyz ⊢
      refine ⟨fun hgroup => ?_, hxy.2.trans hyz.2⟩
      exact hxy.1 (h x hx z hz hgroup y hy hxy.2 hyz.2).symm
    · intro x _ y _ z _ hxy hyx hyz hzy
      have hgroup : group x = group z := (hsame hxy hyx).trans (hsame hyz hzy)
      exact ⟨hnot hgroup, hnot hgroup.symm⟩

theorem subset (h : StrictWeakOn lt l) (hsub : p ⊆ l) : StrictWeakOn lt p where
  irrefl x hx := h.irrefl x (hsub hx)
  trans x hx y hy z hz := h.trans x (hsub hx) y (hsub hy) z (hsub hz)
  incomparable x hx y hy z hz := h.incomparable x (hsub hx) y (hsub hy) z (hsub hz)

/-- A sort may leave any elements in the order in which they are given, as long as they are in
order. -/
theorem exists_sortedOf (h : StrictWeakOn lt l) (hsub : c.Subperm l)
    (hc : c.Pairwise fun x y => ¬ lt y x) : ∃ p, SortedOf lt l p ∧ c.Sublist p := by
  classical
  obtain ⟨c₀, hc₀, hsub₀⟩ := hsub
  obtain ⟨rest, hrest⟩ := hsub₀.exists_perm_append
  obtain ⟨l', hl', hsub'⟩ : ∃ l' : List α, l'.Perm l ∧ c.Sublist l' :=
    ⟨c ++ rest, ((hc₀.append_right rest).symm.trans hrest.symm), List.sublist_append_left c rest⟩
  have hmem (x : { x // x ∈ l' }) : x.1 ∈ l := hl'.subset x.2
  let le (x y : { x // x ∈ l' }) : Bool := decide (¬ lt y.1 x.1)
  have htrans (x y z : { x // x ∈ l' }) (hxy : le x y = true) (hyz : le y z = true) :
      le x z = true := by
    rw [decide_eq_true_iff] at hxy hyz ⊢
    intro hzx
    rcases h.cotrans (hmem z) (hmem y) (hmem x) hzx with hzy | hyx
    · exact hyz hzy
    · exact hxy hyx
  have htotal (x y : { x // x ∈ l' }) : (le x y || le y x) = true := by
    rw [Bool.or_eq_true, decide_eq_true_iff, decide_eq_true_iff]
    by_contra hneither
    obtain ⟨hyx, hxy⟩ := not_or.mp hneither
    exact h.asymm (hmem y) (hmem x) (not_not.mp hyx) (not_not.mp hxy)
  have hattach : c.Sublist (l'.attach.map Subtype.val) := by
    rwa [List.attach_map_subtype_val]
  obtain ⟨c', hc', rfl⟩ := List.sublist_map_iff.mp hattach
  have hordered : c'.Pairwise (le · ·) := by
    refine (List.pairwise_map.mp hc).imp fun hlt => ?_
    exact decide_eq_true hlt
  refine ⟨(l'.attach.mergeSort le).map Subtype.val, ⟨?_, ?_⟩, ?_⟩
  · have hperm := (List.mergeSort_perm l'.attach le).map Subtype.val
    rw [List.attach_map_subtype_val] at hperm
    exact hperm.trans hl'
  · rw [List.pairwise_map]
    exact (List.pairwise_mergeSort htrans htotal l'.attach).imp fun hle => of_decide_eq_true hle
  · exact (List.sublist_mergeSort htrans htotal hordered hc').map Subtype.val

/-- What is not on one side of two elements may stand between them. -/
theorem pairwise_between (h : StrictWeakOn lt l) {a b : α} (ha : a ∈ l) (hb : b ∈ l)
    (hx : x ∈ l) (hbetween : ¬ (lt x a ∧ lt x b ∨ lt a x ∧ lt b x)) :
    [a, x, b].Pairwise (fun x y => ¬ lt y x) ∨ [b, x, a].Pairwise fun x y => ¬ lt y x := by
  have hpairwise (a b : α) (hxa : ¬ lt x a) (hbx : ¬ lt b x) (hba : ¬ lt b a) :
      [a, x, b].Pairwise fun x y => ¬ lt y x := by
    simp only [List.pairwise_cons, List.mem_cons, List.not_mem_nil, or_false, forall_eq_or_imp,
      forall_eq, IsEmpty.forall_iff, implies_true, List.Pairwise.nil, and_true]
    exact ⟨⟨hxa, hba⟩, hbx⟩
  have hcotrans (hba : lt b a) : lt b x ∨ lt x a := h.cotrans hb hx ha hba
  have hcotrans' (hab : lt a b) : lt a x ∨ lt x b := h.cotrans ha hx hb hab
  have hasymm (hxa : lt x a) : ¬ lt a x := h.asymm hx ha hxa
  have hasymm' (hxb : lt x b) : ¬ lt b x := h.asymm hx hb hxb
  by_cases hfirst : lt x a ∨ lt b x
  · right
    rcases hfirst with hxa | hbx
    · have hxb : ¬ lt x b := fun hxb => hbetween (Or.inl ⟨hxa, hxb⟩)
      exact hpairwise b a hxb (hasymm hxa) fun hab => (hcotrans' hab).elim (hasymm hxa) hxb
    · have hax : ¬ lt a x := fun hax => hbetween (Or.inr ⟨hax, hbx⟩)
      have hxb : ¬ lt x b := fun hxb => hasymm' hxb hbx
      exact hpairwise b a hxb hax fun hab => (hcotrans' hab).elim hax hxb
  · obtain ⟨hxa, hbx⟩ := not_or.mp hfirst
    exact Or.inl (hpairwise a b hxa hbx fun hba => (hcotrans hba).elim hbx hxa)

end StrictWeakOn

/-- Pairs compared one after the other, as `std::tie` does. -/
theorem toLex_lt_iff {κ ι : Type} [LinearOrder κ] [LinearOrder ι] {a b : κ} {i j : ι} :
    toLex (a, i) < toLex (b, j) ↔ a < b ∨ ¬ b < a ∧ i < j := by
  rw [Prod.Lex.toLex_lt_toLex]
  rcases lt_trichotomy a b with h | h | h
  · exact iff_of_true (Or.inl h) (Or.inl h)
  · simp only [h, lt_irrefl, true_and, not_false_eq_true]
  · simp only [h, h.asymm, h.ne', not_true_eq_false, false_and, or_self]

/-! ## Adjacent copies -/

section Copies

variable {same : α → α → Prop} {a b : α}

/-- The copies of one element stand side by side. -/
def Contiguous (same : α → α → Prop) (l : List α) : Prop :=
  ∀ x y z, [x, y, z].Sublist l → same x z → same x y

theorem Contiguous.sublist (h : Contiguous same l) (hsub : c.Sublist l) : Contiguous same c :=
  fun x y z hxyz => h x y z (hxyz.trans hsub)

/-- The second of two copies in front can be left out. -/
theorem contiguous_cons_cons_of_same (hequiv : Equivalence same) (hab : same a b) :
    Contiguous same (a :: b :: l) ↔ Contiguous same (a :: l) := by
  constructor
  · intro h
    exact h.sublist ((List.sublist_cons_self b l).cons_cons a)
  · intro h x y z hsub hxz
    rcases List.cons_sublist_cons'.mp hsub with hbehind | ⟨hx, htail⟩
    · rcases List.cons_sublist_cons'.mp hbehind with hbehind | ⟨hx, htail⟩
      · exact h x y z (hbehind.trans (List.sublist_cons_self a l)) hxz
      · -- the second element is as good as the first, which is kept
        rw [hx] at hxz ⊢
        exact hequiv.trans (hequiv.symm hab)
          (h a y z (htail.cons_cons a) (hequiv.trans hab hxz))
    · rw [hx] at hxz ⊢
      rcases List.cons_sublist_cons'.mp htail with htail | ⟨hy, -⟩
      · exact h a y z (htail.cons_cons a) hxz
      · rw [hy]
        exact hab

variable [DecidableRel same]

/-- `std::unique`, which keeps the first of adjacent copies. -/
def unique (same : α → α → Prop) [DecidableRel same] (l : List α) : List α :=
  l.destutter fun x y => ¬ same x y

theorem exists_same_destutter' (hequiv : Equivalence same) (hz : z ∈ a :: l) :
    ∃ w ∈ l.destutter' (fun x y => ¬ same x y) a, same z w := by
  induction l generalizing a z with
  | nil =>
    rw [List.mem_singleton.mp hz]
    exact ⟨a, List.mem_singleton_self a, hequiv.refl a⟩
  | cons b l ih =>
    rw [List.destutter'_cons]
    by_cases hab : same a b
    · rw [if_neg (not_not.mpr hab)]
      rcases List.mem_cons.mp hz with rfl | hz
      · exact ih List.mem_cons_self
      · rcases List.mem_cons.mp hz with heq | hz
        · obtain ⟨w, hw, hsame⟩ := @ih a a List.mem_cons_self
          rw [heq]
          exact ⟨w, hw, hequiv.trans (hequiv.symm hab) hsame⟩
        · exact ih (List.mem_cons_of_mem a hz)
    · rw [if_pos hab]
      rcases List.mem_cons.mp hz with rfl | hz
      · exact ⟨z, List.mem_cons_self, hequiv.refl z⟩
      · obtain ⟨w, hw, hsame⟩ := ih hz
        exact ⟨w, List.mem_cons_of_mem a hw, hsame⟩

/-- Nothing but copies is dropped. -/
theorem exists_same_unique (hequiv : Equivalence same) (hz : z ∈ l) :
    ∃ w ∈ unique same l, same z w := by
  cases l with
  | nil => exact absurd hz List.not_mem_nil
  | cons a l => exact exists_same_destutter' hequiv hz

/-- An element in front of another one has no copy behind it. -/
theorem contiguous_cons_cons_of_not_same (hequiv : Equivalence same) (hab : ¬ same a b) :
    Contiguous same (a :: b :: l) ↔
      (∀ w ∈ l.destutter' (fun x y => ¬ same x y) b, ¬ same a w) ∧ Contiguous same (b :: l) := by
  constructor
  · intro h
    refine ⟨fun w hw hsame => ?_, h.sublist (List.sublist_cons_self a _)⟩
    rcases List.mem_cons.mp ((l.destutter'_sublist _ b).subset hw) with rfl | hw
    · exact hab hsame
    · have hsub : [b, w].Sublist (b :: l) := (List.singleton_sublist.mpr hw).cons_cons b
      exact hab (h a b w (hsub.cons_cons a) hsame)
  · intro h x y z hsub hxz
    obtain ⟨hnone, h⟩ := h
    rcases List.cons_sublist_cons'.mp hsub with hbehind | ⟨hx, htail⟩
    · exact h x y z hbehind hxz
    · have hz : z ∈ b :: l :=
        htail.subset (List.mem_cons_of_mem y (List.mem_singleton_self z))
      obtain ⟨w, hw, hsame⟩ := exists_same_destutter' hequiv hz
      rw [hx] at hxz
      exact absurd (hequiv.trans hxz hsame) (hnone w hw)

theorem pairwise_destutter'_iff (hequiv : Equivalence same) :
    (l.destutter' (fun x y => ¬ same x y) a).Pairwise (fun x y => ¬ same x y) ↔
      Contiguous same (a :: l) := by
  induction l generalizing a with
  | nil =>
    refine iff_of_true (List.pairwise_singleton _ a) fun x y z hsub _ => ?_
    have hlength := hsub.length_le
    simp only [List.length_cons, List.length_nil] at hlength
    omega
  | cons b l ih =>
    rw [List.destutter'_cons]
    by_cases hab : same a b
    · rw [if_neg (not_not.mpr hab), ih, contiguous_cons_cons_of_same hequiv hab]
    · rw [if_pos hab, List.pairwise_cons, ih, contiguous_cons_cons_of_not_same hequiv hab]

/-- One copy of each element is left exactly if the copies stand side by side. -/
theorem pairwise_unique_iff (hequiv : Equivalence same) :
    (unique same l).Pairwise (fun x y => ¬ same x y) ↔ Contiguous same l := by
  cases l with
  | nil => exact iff_of_true List.Pairwise.nil fun x y z hsub _ => nomatch hsub
  | cons a l => exact pairwise_destutter'_iff hequiv

end Copies

end Base
end Rocprofsys
