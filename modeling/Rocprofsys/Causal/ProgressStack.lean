import Rocprofsys.Causal.ProgressBundles

namespace Rocprofsys
namespace Causal

variable {hash : String → UInt64} {endToEnd : Bool} {c : BundleCache}

/-! ## Positions from the back -/

theorem reverse_eraseIdx {α : Type} {l : List α} {i : Nat} (h : i < l.length) :
    (l.eraseIdx (l.length - 1 - i)).reverse = l.reverse.eraseIdx i := by
  have hkept : (l.length - 1 - i) + 1 = l.length - i := by omega
  have houter : l.length - (i + 1) = l.length - 1 - i := by omega
  rw [List.eraseIdx_eq_take_drop_succ, List.eraseIdx_eq_take_drop_succ, List.reverse_append,
    hkept, List.take_reverse, List.drop_reverse, houter]

theorem lt_of_findIdx? {α : Type} {l : List α} {p : α → Bool} {i : Nat}
    (h : l.findIdx? p = some i) : i < l.length := (List.findIdx?_eq_some_iff_findIdx_eq.mp h).1

/-! ## Serial numbers -/

/-- Every bundle has a serial number of its own. -/
structure Fresh (c : BundleCache) : Prop where
  nodup : c.bundles.Nodup
  below : ∀ b ∈ c.bundles, b.serial < c.next

theorem fresh_empty : Fresh .empty := ⟨List.nodup_nil, fun _ h => absurd h List.not_mem_nil⟩

theorem Fresh.construct (h : Fresh c) (name : String) : Fresh (c.construct name).2 := by
  constructor
  · refine List.Nodup.append h.nodup (List.nodup_singleton _) ?_
    intro b hb hnew
    have hlt := h.below b hb
    rw [List.mem_singleton.mp hnew] at hlt
    exact Nat.lt_irrefl _ hlt
  · intro b hb
    rcases List.mem_append.mp hb with hb | hb
    · exact Nat.lt_succ_of_lt (h.below b hb)
    · rw [List.mem_singleton.mp hb]
      exact Nat.lt_succ_self c.next

theorem Fresh.of_sublist (h : Fresh c) {bundles : List Bundle}
    (hsub : List.Sublist bundles c.bundles) : Fresh ⟨bundles, c.next⟩ :=
  ⟨h.nodup.sublist hsub, fun b hb => h.below b (hsub.subset hb)⟩

theorem Fresh.popBack (h : Fresh c) : Fresh c.popBack.1 := by
  unfold BundleCache.popBack
  split
  · exact h
  · exact h.of_sublist (List.dropLast_sublist c.bundles)

theorem Fresh.destroy (h : Fresh c) (distance : Nat) : Fresh (c.destroy distance).1 := by
  unfold BundleCache.destroy
  split
  · exact h
  · exact h.of_sublist (List.eraseIdx_sublist c.bundles distance)

theorem Fresh.call (h : Fresh c) (k : Call) : Fresh (call hash endToEnd c k).1 := by
  cases k with
  | push name =>
    show Fresh (pushProgressPoint endToEnd c name).1
    unfold pushProgressPoint
    split
    · exact h
    · exact h.construct name
  | pop name =>
    show Fresh (popProgressPoint hash endToEnd c name).1
    unfold popProgressPoint
    split
    · exact h
    · split
      · split
        · exact h
        · exact h.popBack
      · split
        · exact h
        · split
          · exact h
          · exact h.destroy _
  | mark name force =>
    show Fresh (markProgressPoint endToEnd c name force).1
    unfold markProgressPoint
    split
    · exact h
    · exact (h.construct name).popBack

/-! ## One call -/

/-- The outcome in terms of the open entries. -/
def viewed {β : Type} (outcome : BundleCache × β) : OpenEntries × β :=
  (outcome.1.openEntries, outcome.2)

theorem viewed_push (name : String) :
    viewed (pushProgressPoint endToEnd c name) = c.openEntries.call endToEnd (.push name) := by
  by_cases h : endToEnd = true
  · rw [pushProgressPoint, if_pos h, OpenEntries.call, if_pos h]
    rfl
  · rw [pushProgressPoint, if_neg h, OpenEntries.call, if_neg h]
    show (OpenEntries.mk (c.bundles ++ [(⟨c.next, name⟩ : Bundle)]).reverse (c.next + 1), _) = _
    rw [List.reverse_append]
    rfl

theorem popBack_construct (name : String) :
    (c.construct name).2.popBack = (⟨c.bundles, c.next + 1⟩, [.destroy ⟨c.next, name⟩]) := by
  rw [BundleCache.popBack, BundleCache.construct]
  dsimp only
  rw [List.getLast?_append, List.getLast?_singleton, Option.some_or]
  dsimp only
  rw [List.dropLast_concat]

theorem viewed_mark (name : String) (force : Bool) :
    viewed (markProgressPoint endToEnd c name force) =
      c.openEntries.call endToEnd (.mark name force) := by
  by_cases h : (endToEnd && !force) = true
  · rw [markProgressPoint, if_pos h, OpenEntries.call, if_pos h]
    rfl
  · rw [markProgressPoint, if_neg h, OpenEntries.call, if_neg h]
    dsimp only
    rw [popBack_construct]
    rfl

/-- Without a name the last bundle is the innermost entry. -/
theorem viewed_pop_back (h : endToEnd ≠ true) :
    viewed (popProgressPoint hash endToEnd c "") = c.openEntries.call endToEnd (.pop "") := by
  obtain ⟨bundles, next⟩ := c
  rw [popProgressPoint, if_neg h, if_pos rfl, OpenEntries.call, if_neg h, if_pos rfl,
    BundleCache.openEntries, OpenEntries.close]
  rcases List.eq_nil_or_concat bundles with rfl | ⟨front, b, rfl⟩
  · rfl
  · rw [List.concat_eq_append]
    have hlast : (front ++ [b]).getLast? = some b := by
      rw [List.getLast?_append, List.getLast?_singleton, Option.some_or]
    dsimp only
    rw [BundleCache.popBack]
    dsimp only
    rw [hlast, List.dropLast_concat, List.reverse_append]
    rfl

section NamedPop

variable {name : String}

theorem hash_found_of_found {i : Nat}
    (h : (c.bundles.reverse.findIdx? fun b => b.name == name) = some i) :
    ∃ j, (c.bundles.reverse.findIdx? fun b => hash b.name == hash name) = some j := by
  obtain ⟨hlt, hmatch, -⟩ := List.findIdx?_eq_some_iff_getElem.mp h
  refine ⟨_, List.findIdx?_eq_some_of_exists ⟨_, List.getElem_mem hlt, ?_⟩⟩
  rw [beq_iff_eq] at hmatch ⊢
  rw [hmatch]

/-- Innermost first, position `i` is position `length - 1 - i`. -/
theorem getElem?_of_found {p : Bundle → Bool} {i : Nat}
    (h : c.bundles.reverse.findIdx? p = some i) :
    i < c.bundles.length ∧
      c.bundles.reverse[i]? = c.bundles[c.bundles.length - 1 - i]? := by
  have hlt := lt_of_findIdx? h
  rw [List.length_reverse] at hlt
  exact ⟨hlt, List.getElem?_reverse hlt⟩

/-- The named pop stops the entry found and destroys the one at its mirror position. -/
theorem pop_of_found {i : Nat} {b d : Bundle} (h : endToEnd ≠ true) (hname : name ≠ "")
    (hfound : (c.bundles.reverse.findIdx? fun b => hash b.name == hash name) = some i)
    (hb : c.bundles.reverse[i]? = some b) (hd : c.bundles[i]? = some d) :
    popProgressPoint hash endToEnd c name =
      (⟨c.bundles.eraseIdx i, c.next⟩, [.stop b, .pop b, .destroy d]) := by
  rw [popProgressPoint, if_neg h, if_neg hname, hfound]
  dsimp only
  rw [hb, BundleCache.destroy, hd]

theorem close_of_found {i : Nat} {b : Bundle} (h : endToEnd ≠ true) (hname : name ≠ "")
    (hfound : (c.bundles.reverse.findIdx? fun b => b.name == name) = some i)
    (hb : c.bundles.reverse[i]? = some b) :
    c.openEntries.call endToEnd (.pop name) =
      (⟨c.bundles.reverse.eraseIdx i, c.next⟩, [.stop b, .pop b, .destroy b]) := by
  rw [OpenEntries.call, if_neg h, if_neg hname, BundleCache.openEntries]
  dsimp only
  rw [hfound]
  dsimp only
  rw [OpenEntries.close]
  dsimp only
  rw [hb]

theorem call_of_not_found (h : endToEnd ≠ true) (hname : name ≠ "")
    (hnone : (c.bundles.reverse.findIdx? fun b => b.name == name) = none) :
    c.openEntries.call endToEnd (.pop name) = (c.openEntries, []) := by
  rw [OpenEntries.call, if_neg h, if_neg hname, BundleCache.openEntries]
  dsimp only
  rw [hnone]

/-- The effects tell the entry stopped from the one destroyed. -/
theorem middle_of_effects (hfresh : Fresh c) (h : endToEnd ≠ true) (hname : name ≠ "")
    (heffects : (popProgressPoint hash endToEnd c name).2 =
      (c.openEntries.call endToEnd (.pop name)).2) {i : Nat}
    (hfound : (c.bundles.reverse.findIdx? fun b => hash b.name == hash name) = some i) :
    (c.bundles.reverse.findIdx? fun b => b.name == name) = some i ∧
      2 * i + 1 = c.bundles.length := by
  obtain ⟨hlt, hb⟩ := getElem?_of_found hfound
  have hback : c.bundles.length - 1 - i < c.bundles.length := by omega
  rw [List.getElem?_eq_getElem hback] at hb
  rw [pop_of_found h hname hfound hb (List.getElem?_eq_getElem hlt)] at heffects
  cases hnamed : c.bundles.reverse.findIdx? fun b => b.name == name with
  | none =>
    rw [call_of_not_found h hname hnamed] at heffects
    cases heffects
  | some j =>
    obtain ⟨hj, hd⟩ := getElem?_of_found hnamed
    have hback' : c.bundles.length - 1 - j < c.bundles.length := by omega
    rw [List.getElem?_eq_getElem hback'] at hd
    rw [close_of_found h hname hnamed hd] at heffects
    injection heffects with hstop hrest
    injection hrest with _ hrest
    injection hrest with hdestroy _
    injection hstop with hstop
    injection hdestroy with hdestroy
    have hsame := hfresh.nodup.getElem_inj_iff.mp hstop
    have hmirror := hfresh.nodup.getElem_inj_iff.mp hdestroy
    have hij : j = i := by omega
    subst hij
    exact ⟨rfl, by omega⟩

theorem viewed_pop (h : endToEnd ≠ true) (hname : name ≠ "")
    (hmiddle : ∀ i,
      (c.bundles.reverse.findIdx? fun b => hash b.name == hash name) = some i →
      (c.bundles.reverse.findIdx? fun b => b.name == name) = some i ∧
        2 * i + 1 = c.bundles.length) :
    viewed (popProgressPoint hash endToEnd c name) = c.openEntries.call endToEnd (.pop name) := by
  cases hfound : c.bundles.reverse.findIdx? fun b => hash b.name == hash name with
  | none =>
    have hnone : (c.bundles.reverse.findIdx? fun b => b.name == name) = none := by
      by_contra hsome
      obtain ⟨i, hi⟩ := Option.ne_none_iff_exists'.mp hsome
      obtain ⟨j, hj⟩ := @hash_found_of_found hash _ _ _ hi
      rw [hfound] at hj
      cases hj
    rw [call_of_not_found h hname hnone, popProgressPoint, if_neg h, if_neg hname, hfound]
    rfl
  | some i =>
    obtain ⟨hnamed, hlength⟩ := hmiddle i hfound
    obtain ⟨hlt, hb⟩ := getElem?_of_found hfound
    have hmirror : c.bundles.length - 1 - i = i := by omega
    have herase := reverse_eraseIdx hlt
    rw [hmirror] at herase
    rw [hmirror, List.getElem?_eq_getElem hlt] at hb
    rw [pop_of_found h hname hfound hb (List.getElem?_eq_getElem hlt),
      close_of_found h hname hnamed hb, ← herase]
    rfl

end NamedPop

theorem allows_of_effects (hfresh : Fresh c) {k : Call}
    (heffects : (call hash endToEnd c k).2 = (c.openEntries.call endToEnd k).2) :
    Allows hash endToEnd c k := by
  cases k with
  | push name => trivial
  | mark name force => trivial
  | pop name =>
    intro hoff hname i hfound
    exact middle_of_effects hfresh (Bool.eq_false_iff.mp hoff) hname heffects hfound

theorem viewed_call {k : Call} (hallows : Allows hash endToEnd c k) :
    viewed (call hash endToEnd c k) = c.openEntries.call endToEnd k := by
  cases k with
  | push name => exact viewed_push name
  | mark name force => exact viewed_mark name force
  | pop name =>
    show viewed (popProgressPoint hash endToEnd c name) = _
    by_cases h : endToEnd = true
    · rw [popProgressPoint, if_pos h, OpenEntries.call, if_pos h]
      rfl
    · by_cases hname : name = ""
      · subst hname
        exact viewed_pop_back h
      · exact viewed_pop h hname (hallows (Bool.eq_false_iff.mpr h) hname)

/-! ## Runs -/

theorem calls_cons (k : Call) (ks : List Call) :
    viewed (calls hash endToEnd c (k :: ks)) =
      ((viewed (calls hash endToEnd (call hash endToEnd c k).1 ks)).1,
        (call hash endToEnd c k).2 ::
          (viewed (calls hash endToEnd (call hash endToEnd c k).1 ks)).2) := rfl

theorem openEntries_calls_cons (s : OpenEntries) (k : Call) (ks : List Call) :
    s.calls endToEnd (k :: ks) =
      (((s.call endToEnd k).1.calls endToEnd ks).1,
        (s.call endToEnd k).2 :: ((s.call endToEnd k).1.calls endToEnd ks).2) := rfl

theorem viewed_calls_iff (hfresh : Fresh c) (ks : List Call) :
    viewed (calls hash endToEnd c ks) = c.openEntries.calls endToEnd ks ↔
      AllowsAll hash endToEnd c ks := by
  induction ks generalizing c with
  | nil => exact ⟨fun _ => trivial, fun _ => rfl⟩
  | cons k ks ih =>
    have hrest := ih (@Fresh.call hash endToEnd c hfresh k)
    rw [calls_cons, openEntries_calls_cons]
    constructor
    · intro heq
      have heffects := (List.cons.inj (congrArg Prod.snd heq)).1
      have hallows := allows_of_effects hfresh heffects
      have hstate : (c.openEntries.call endToEnd k).1 = (call hash endToEnd c k).1.openEntries :=
        (congrArg Prod.fst (viewed_call hallows)).symm
      rw [hstate] at heq
      have hstates := congrArg Prod.fst heq
      have hlater := (List.cons.inj (congrArg Prod.snd heq)).2
      exact ⟨hallows, hrest.mp (Prod.ext hstates hlater)⟩
    · intro h
      obtain ⟨hallows, hall⟩ := h
      have hcall := viewed_call hallows
      rw [← hcall, hrest.mpr hall]
      rfl

/-- Every named pop closes the innermost entry of its name exactly when the one it finds is
in the middle. -/
theorem calls_close_innermost_iff (hash : String → UInt64) (endToEnd : Bool) (ks : List Call) :
    viewed (calls hash endToEnd .empty ks) = OpenEntries.empty.calls endToEnd ks ↔
      AllowsAll hash endToEnd .empty ks := viewed_calls_iff fresh_empty ks

/-- The outer of two entries is closed, the inner one is destroyed. -/
theorem not_calls_close_innermost_outer :
    ¬∀ (hash : String → UInt64) (endToEnd : Bool) (ks : List Call),
      viewed (calls hash endToEnd .empty ks) = OpenEntries.empty.calls endToEnd ks := by
  intro h
  have hrun := h (fun name => UInt64.ofNat name.length) false
    [.push "a", .push "bb", .pop "a"]
  exact absurd hrun (by decide)

end Causal
end Rocprofsys
