import Mathlib.Algebra.Order.Field.Basic
import Mathlib.Data.List.Perm.Subperm
import Mathlib.Data.Prod.Lex
import Mathlib.Data.String.Basic
import Rocprofsys.Coverage.PostProcess

namespace Rocprofsys
namespace Coverage

open Base

variable {calls : List Call} {s : State} {t : Triple}

/-! ## The counts of the rows -/

/-- Adds to the first row of each triple. -/
def credit : List Row → (Triple → ℕ) → List Row
  | [], _ => []
  | r :: rows, f =>
    { r with count := r.count + f r.triple } ::
      credit rows fun t => if t = r.triple then 0 else f t

theorem credit_zero (rows : List Row) : credit rows (fun _ => 0) = rows := by
  induction rows with
  | nil => rfl
  | cons r rows ih =>
    rw [credit]
    simp only [ite_self, add_zero]
    rw [ih]

theorem bump_eq_credit (rows : List Row) (t : Triple) (n : ℕ) :
    bump rows t n = credit rows fun t' => if t' = t then n else 0 := by
  induction rows with
  | nil => rfl
  | cons r rows ih =>
    rw [bump, credit]
    by_cases heq : r.triple = t
    · have hrest : (fun t' => if t' = r.triple then 0 else if t' = t then n else 0) =
          fun _ => 0 := by
        funext t'
        rw [heq]
        split <;> rfl
      rw [if_pos heq, if_pos heq, hrest, credit_zero]
    · have hrest : (fun t' => if t' = r.triple then 0 else if t' = t then n else 0) =
          fun t' => if t' = t then n else 0 := by
        funext t'
        by_cases ht' : t' = r.triple
        · rw [if_pos ht', if_neg (ht' ▸ heq)]
        · rw [if_neg ht']
      rw [if_neg heq, if_neg heq, hrest, ← ih, Nat.add_zero]

theorem credit_credit (rows : List Row) (f g : Triple → ℕ) :
    credit (credit rows f) g = credit rows fun t => f t + g t := by
  induction rows generalizing f g with
  | nil => rfl
  | cons r rows ih =>
    have hrest : (fun t => (if t = r.triple then 0 else f t) + if t = r.triple then 0 else g t) =
        fun t => if t = r.triple then 0 else f t + g t := by
      funext t
      split <;> rfl
    rw [credit, credit, credit, ih, ← hrest, ← Nat.add_assoc]
    rfl

theorem foldl_bump {entries : List (Sigma fun _ : Triple => ℕ)} (hentries : entries.NodupKeys)
    (rows : List Row) :
    entries.foldl (fun rows e => bump rows e.1 e.2) rows =
      credit rows fun t => (entries.dlookup t).getD 0 := by
  induction entries generalizing rows with
  | nil => exact (credit_zero rows).symm
  | cons e entries ih =>
    obtain ⟨hnew, hentries⟩ := List.nodupKeys_cons.mp hentries
    rw [List.foldl_cons, ih hentries, bump_eq_credit, credit_credit]
    congr 1
    funext t
    by_cases heq : t = e.1
    · rw [if_pos heq, heq, List.dlookup_eq_none.mpr hnew, List.dlookup_cons_eq]
      rfl
    · rw [if_neg heq, List.dlookup_cons_ne entries e heq, Nat.zero_add]

/-- The first row of each triple gets its total. -/
theorem countRows_eq_credit (s : State) :
    countRows s = credit s.rows (Tally.total s.threads) := by
  have hfold (threads : List (Tally Triple ℕ)) (rows : List Row) :
      threads.foldl (fun rows m => m.foldl bump rows) rows =
        credit rows (Tally.total threads) := by
    induction threads generalizing rows with
    | nil => exact (credit_zero rows).symm
    | cons m threads ih =>
      rw [List.foldl_cons, ih]
      show credit (m.entries.foldl (fun rows e => bump rows e.1 e.2) rows) _ = _
      rw [foldl_bump m.nodupKeys, credit_credit]
      rfl
  exact hfold s.threads s.rows

theorem credit_congr {rows : List Row} {f g : Triple → ℕ} (h : ∀ r ∈ rows, f r.triple = g r.triple) :
    credit rows f = credit rows g := by
  induction rows generalizing f g with
  | nil => rfl
  | cons r rows ih =>
    obtain ⟨hr, hrows⟩ := List.forall_mem_cons.mp h
    rw [credit, credit, hr]
    congr 1
    apply ih
    intro r' hr'
    rw [hrows r' hr']

/-- A triple that is registered again has no hits. -/
theorem credit_eq_map {rows : List Row} {f : Triple → ℕ}
    (hrows : rows.Pairwise fun a b => a.triple = b.triple → f a.triple = 0) :
    credit rows f = rows.map fun r => { r with count := r.count + f r.triple } := by
  induction rows with
  | nil => rfl
  | cons r rows ih =>
    obtain ⟨hr, hrest⟩ := List.pairwise_cons.mp hrows
    rw [credit, List.map_cons, ← ih hrest]
    congr 1
    apply credit_congr
    intro r' hr'
    by_cases heq : r'.triple = r.triple
    · rw [if_pos heq, heq, hr r' hr' heq.symm]
    · rw [if_neg heq]

/-! ## The summary -/

/-- Nothing is covered that is not possible. -/
structure Within (c : CodeCoverage) : Prop where
  addresses : c.covered.addresses ⊆ c.possible.addresses
  modules : c.covered.modules ⊆ c.possible.modules
  functions : c.covered.functions ⊆ c.possible.functions

theorem Within.cover {c : CodeCoverage} (h : Within c) {t : Triple} {n : ℕ}
    (hpossible : 0 < n → t.2.2 ∈ c.possible.addresses ∧ t.1 ∈ c.possible.modules ∧
      t.2.1 ∈ c.possible.functions) : Within (cover c t n) := by
  unfold Coverage.cover
  split
  · rename_i hn
    obtain ⟨haddress, hmodule, hfunction⟩ := hpossible hn
    exact ⟨Finset.insert_subset haddress h.addresses, Finset.insert_subset hmodule h.modules,
      Finset.insert_subset hfunction h.functions⟩
  · exact h

theorem possible_cover (c : CodeCoverage) (t : Triple) (n : ℕ) :
    (cover c t n).possible = c.possible := by
  unfold cover
  split <;> rfl

theorem size_cover (c : CodeCoverage) (t : Triple) (n : ℕ) : (cover c t n).size = c.size := by
  unfold cover
  split <;> rfl

theorem foldl_cover_spec {entries : List (Sigma fun _ : Triple => ℕ)} {c : CodeCoverage}
    (h : Within c) (hpossible : ∀ e ∈ entries, 0 < e.2 → e.1.2.2 ∈ c.possible.addresses ∧
      e.1.1 ∈ c.possible.modules ∧ e.1.2.1 ∈ c.possible.functions) :
    Within (entries.foldl (fun c e => cover c e.1 e.2) c) ∧
      (entries.foldl (fun c e => cover c e.1 e.2) c).size = c.size ∧
      (entries.foldl (fun c e => cover c e.1 e.2) c).count =
        c.count + (entries.filter fun e => 0 < e.2).length := by
  induction entries generalizing c with
  | nil => exact ⟨h, rfl, rfl⟩
  | cons e entries ih =>
    obtain ⟨hfirst, hrest⟩ := List.forall_mem_cons.mp hpossible
    have hnext := ih (h.cover hfirst) (by rw [possible_cover]; exact hrest)
    rw [List.foldl_cons]
    refine ⟨hnext.1, hnext.2.1.trans (size_cover c e.1 e.2), hnext.2.2.trans ?_⟩
    by_cases hpos : 0 < e.2
    · rw [List.filter_cons_of_pos (by simpa using hpos), cover, if_pos hpos, List.length_cons]
      exact Nat.add_right_comm _ _ _
    · rw [List.filter_cons_of_neg (by simpa using hpos), cover, if_neg hpos]

/-- Only registered triples are hit. -/
def HitsRegistered (calls : List Call) : Prop :=
  ∀ t ∈ calls.filterMap Call.hit?, t ∈ (registrations calls).map Row.triple

theorem registered_of_hits (h : HitsRegistered calls) (hpos : 0 < hits calls t) :
    ∃ r ∈ registrations calls, r.triple = t :=
  List.mem_map.mp (h t (List.count_pos_iff.mp hpos))

theorem hits_of_mem_entries {e : Sigma fun _ : Triple => ℕ}
    (he : e ∈ (countData (run calls)).entries) : e.2 = hits calls e.1 := by
  have hlookup : (countData (run calls)).lookup e.1 = some e.2 :=
    List.mem_dlookup (countData (run calls)).nodupKeys he
  rw [← (tracks_run calls).total e.1, ← Tally.get_sum, ← countData, Tally.get, hlookup,
    Option.getD_some]

theorem countCoverage_spec (h : HitsRegistered calls) :
    Within (countCoverage (run calls)) ∧
      (countCoverage (run calls)).count ≤ (countCoverage (run calls)).size := by
  have htracks := tracks_run calls
  have hregistered : ∀ e ∈ (countData (run calls)).entries, 0 < e.2 →
      ∃ r ∈ registrations calls, r.triple = e.1 := by
    intro e he hpos
    rw [hits_of_mem_entries he] at hpos
    exact registered_of_hits h hpos
  have hwithin : Within (run calls).coverage := by
    constructor <;> rw [htracks.covered] <;> exact Finset.empty_subset _
  have hspec := @foldl_cover_spec (countData (run calls)).entries _ hwithin (by
    intro e he hpos
    obtain ⟨r, hr, heq⟩ := hregistered e he hpos
    rw [← heq]
    exact ⟨htracks.addresses r hr, htracks.modules r hr, htracks.functions r hr⟩)
  have hcoverage : countCoverage (run calls) =
      (countData (run calls)).entries.foldl (fun c e => cover c e.1 e.2) (run calls).coverage := rfl
  refine ⟨hspec.1, ?_⟩
  rw [hcoverage, hspec.2.1, hspec.2.2, htracks.count, htracks.size, Nat.zero_add]
  -- the covered triples are distinct, and registered
  have hnodup : (((countData (run calls)).entries.filter fun e => 0 < e.2).map Sigma.fst).Nodup :=
    (countData (run calls)).nodupKeys.sublist List.filter_sublist
  have hsubset : ((countData (run calls)).entries.filter fun e => 0 < e.2).map Sigma.fst ⊆
      (registrations calls).map Row.triple := by
    intro t ht
    obtain ⟨e, he, rfl⟩ := List.mem_map.mp ht
    obtain ⟨he, hpos⟩ := List.mem_filter.mp he
    obtain ⟨r, hr, heq⟩ := hregistered e he (of_decide_eq_true hpos)
    exact List.mem_map.mpr ⟨r, hr, heq⟩
  have hlength := (List.subperm_of_subset hnodup hsubset).length_le
  rwa [List.length_map, List.length_map] at hlength

/-- A share of a whole is at most 1. -/
theorem natCast_div_le_one {a b : ℕ} (h : a ≤ b) : (a : ℚ) / b ≤ 1 :=
  div_le_one_of_le₀ (Nat.cast_le.mpr h) (Nat.cast_nonneg b)

theorem get_le_one {c : CodeCoverage} (h : Within c) (hcount : c.count ≤ c.size)
    (category : Category) : c.get category ≤ 1 := by
  cases category with
  | standard => exact natCast_div_le_one hcount
  | address => exact natCast_div_le_one (Finset.card_le_card h.addresses)
  | module => exact natCast_div_le_one (Finset.card_le_card h.modules)
  | function => exact natCast_div_le_one (Finset.card_le_card h.functions)

end Coverage
end Rocprofsys
