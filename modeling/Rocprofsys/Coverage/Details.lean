import Rocprofsys.Coverage.Counts

namespace Rocprofsys
namespace Coverage

open Base

variable {calls : List Call} {rows sorted details : List Row} {a b r d g : Row} {t : Triple}

/-! ## The order of the rows -/

/-- The order of the triples. -/
def Row.place (r : Row) : Lex (String × Lex (String × ℕ)) :=
  toLex (r.module, toLex (r.function, r.address))

/-- Rows of different triples are compared by their counts and their triples. -/
def Row.key (r : Row) : Lex (ℕ × Lex (String × Lex (String × ℕ))) := toLex (r.count, r.place)

theorem place_inj : a.place = b.place ↔ a.triple = b.triple := by
  simp only [Row.place, Row.triple, toLex_inj, Prod.mk.injEq]

theorem less_iff (hne : a.triple ≠ b.triple) : a.less b = true ↔ a.key < b.key := by
  have hplace : a.module = b.module → a.function = b.function → a.address ≠ b.address := by
    intro hmodule hfunction haddress
    exact hne (by rw [Row.triple, Row.triple, hmodule, hfunction, haddress])
  unfold Row.less Row.key Row.place
  simp only [Prod.Lex.toLex_lt_toLex]
  split_ifs <;> simp_all

theorem greater_iff (hcount : a.triple = b.triple → a.count = b.count) :
    a.greater b = true ↔ b.key < a.key := by
  unfold Row.greater
  by_cases heq : a.triple = b.triple
  · have hkey : a.key = b.key := by
      rw [Row.key, Row.key, hcount heq, place_inj.mpr heq]
    simp [heq, hkey]
  · have hkey : a.key ≠ b.key := by
      intro hkey
      simp only [Row.key, toLex_inj, Prod.mk.injEq] at hkey
      exact heq (place_inj.mp hkey.2)
    have hless := (less_iff heq).not
    rw [Bool.not_eq_true, not_lt] at hless
    simp only [ne_eq, heq, not_false_eq_true, decide_true, Bool.true_and, Bool.not_eq_true',
      hless]
    exact ⟨fun h => lt_of_le_of_ne h (Ne.symm hkey), le_of_lt⟩

/-! ## Runs that register alike -/

/-- A triple that is registered again has no hits, and has the same source text. -/
def RegistersAlike (calls : List Call) : Prop :=
  (registrations calls).Pairwise fun a b =>
    a.triple = b.triple → hits calls a.triple = 0 ∧ a.source = b.source

/-- A row with the hits of its triple. -/
def withHits (calls : List Call) (r : Row) : Row := { r with count := hits calls r.triple }

theorem count_of_mem_registrations (hr : r ∈ registrations calls) : r.count = 0 := by
  obtain ⟨c, -, hrow⟩ := List.mem_filterMap.mp hr
  cases c with
  | source file func line address source =>
    cases hrow
    rfl
  | coverage tid state initTooling file func address => cases hrow

theorem countRows_eq_map (h : RegistersAlike calls) :
    countRows (run calls) = (registrations calls).map (withHits calls) := by
  have htracks := tracks_run calls
  have htotal : Tally.total (run calls).threads = hits calls := funext htracks.total
  rw [countRows_eq_credit, htracks.rows, htotal,
    credit_eq_map (h.imp fun hpair heq => (hpair heq).1)]
  apply List.map_congr_left
  intro r hr
  rw [count_of_mem_registrations hr, Nat.zero_add, withHits]

/-- Rows of one triple agree in what they are told apart by. -/
theorem alike_of_triple (h : RegistersAlike calls) (ha : a ∈ registrations calls)
    (hb : b ∈ registrations calls) (heq : a.triple = b.triple) : a.source = b.source := by
  have hpair : (registrations calls).Pairwise fun a b => a.triple = b.triple → a.source = b.source :=
    h.imp fun hpair heq => (hpair heq).2
  have hsymm : Std.Symm fun a b : Row => a.triple = b.triple → a.source = b.source :=
    ⟨fun a b hab heq => (hab heq.symm).symm⟩
  exact hpair.forall_of_forall (fun a _ _ => rfl) ha hb heq

/-! ## What the loop keeps -/

/-- The rows that take part in one comparison of `_find_in_tmp`. -/
def Row.cls (r : Row) : String × ℕ := (r.source, r.count)

theorem deduplicate_eq (rows : List Row) :
    deduplicate rows = (agreeing Row.cls Row.address Row.triple rows).1 := by
  have hfind (tmp : List Row) (v : Row) :
      findInTmp tmp v = tmp.any fun k => decide (k.cls = v.cls ∧ k.address ≠ v.address) := by
    unfold findInTmp
    congr 1
    funext k
    rw [Bool.eq_iff_iff]
    simp only [Row.cls, Bool.and_eq_true, beq_iff_eq, bne_iff_ne, Prod.mk.injEq, decide_eq_true_eq]
    tauto
  have hstep : deduplicateStep = agreeStep Row.cls Row.address Row.triple := by
    funext s v
    rw [deduplicateStep, agreeStep, hfind]
    by_cases hcached : v.triple ∈ s.2
    · rw [if_pos hcached, if_pos hcached]
    · rw [if_neg hcached, if_neg hcached]
  rw [deduplicate, agreeing, hstep]

theorem mem_countRows (h : RegistersAlike calls) :
    a ∈ countRows (run calls) ↔ ∃ r ∈ registrations calls, withHits calls r = a := by
  rw [countRows_eq_map h, List.mem_map]

theorem greater_iff_of_mem (h : RegistersAlike calls) (ha : a ∈ countRows (run calls))
    (hb : b ∈ countRows (run calls)) : a.greater b = true ↔ b.key < a.key := by
  apply greater_iff
  intro heq
  obtain ⟨r, -, rfl⟩ := (mem_countRows h).mp ha
  obtain ⟨r', -, rfl⟩ := (mem_countRows h).mp hb
  exact congrArg (hits calls) heq

theorem strictWeakOn_countRows (h : RegistersAlike calls) :
    StrictWeakOn (fun a b => Row.greater a b) (countRows (run calls)) :=
  StrictWeakOn.of_key_on (fun r => OrderDual.toDual r.key) fun _ ha _ hb =>
    greater_iff_of_mem h ha hb

/-- Sorted rows are kept if they have the address of the first of their source text and count. -/
theorem mem_deduplicate_iff (h : RegistersAlike calls)
    (hsorted : SortedOf (fun a b => Row.greater a b) (countRows (run calls)) sorted) :
    d ∈ deduplicate sorted ↔
      d ∈ countRows (run calls) ∧ AgreesIn Row.cls Row.address sorted d := by
  have hident : ∀ a ∈ sorted, ∀ b ∈ sorted, a.triple = b.triple →
      a.cls = b.cls ∧ a.address = b.address := by
    intro a ha b hb heq
    obtain ⟨r, hr, rfl⟩ := (mem_countRows h).mp (hsorted.1.mem_iff.mp ha)
    obtain ⟨r', hr', rfl⟩ := (mem_countRows h).mp (hsorted.1.mem_iff.mp hb)
    have hsource : r.source = r'.source := alike_of_triple h hr hr' heq
    have hhits : hits calls r.triple = hits calls r'.triple := congrArg (hits calls) heq
    exact ⟨Prod.ext hsource hhits, congrArg (fun t => t.2.2) heq⟩
  rw [deduplicate_eq, (agreeing_spec hident).1, List.mem_filter, decide_eq_true_eq,
    hsorted.1.mem_iff]

/-! ## Rows that stand for others -/

/-- Of the same source text, with the same hits. -/
def SameClass (calls : List Call) (a b : Row) : Prop :=
  a.source = b.source ∧ hits calls a.triple = hits calls b.triple

/-- The last row of its class in the order of file, function and address. -/
def LastOfClass (calls : List Call) (g : Row) : Prop :=
  ∀ y ∈ registrations calls, SameClass calls y g → y.place ≤ g.place

theorem cls_withHits : (withHits calls a).cls = (withHits calls b).cls ↔ SameClass calls a b :=
  Prod.mk.injEq _ _ _ _ ▸ Iff.rfl

theorem place_withHits (calls : List Call) (r : Row) : (withHits calls r).place = r.place := rfl

/-- The first of a class of sorted rows is the last in the order of the triples. -/
theorem lastOfClass_of_first (h : RegistersAlike calls)
    (hsorted : SortedOf (fun a b => Row.greater a b) (countRows (run calls)) sorted)
    (hfirst : (sorted.find? fun b => b.cls = (withHits calls r).cls) = some (withHits calls g)) :
    LastOfClass calls g := by
  obtain ⟨hcls, front, back, rfl, hfront⟩ := List.find?_eq_some_iff_append.mp hfirst
  rw [decide_eq_true_eq] at hcls
  intro y hy hsame
  have hycls : (withHits calls y).cls = (withHits calls r).cls := (cls_withHits.mpr hsame).trans hcls
  have hymem : withHits calls y ∈ front ++ withHits calls g :: back :=
    hsorted.1.mem_iff.mpr ((mem_countRows h).mpr ⟨y, hy, rfl⟩)
  rcases List.mem_append.mp hymem with hbefore | hbehind
  · have hother := hfront _ hbefore
    simp [hycls] at hother
  · rcases List.mem_cons.mp hbehind with heq | hbehind
    · rw [← place_withHits calls y, heq, place_withHits]
    · have hpair := List.pairwise_cons.mp (List.pairwise_append.mp hsorted.2).2.1
      have hle : ¬ (withHits calls y).greater (withHits calls g) = true := hpair.1 _ hbehind
      rw [greater_iff_of_mem h ((mem_countRows h).mpr ⟨y, hy, rfl⟩)
        (hsorted.1.mem_iff.mp (List.mem_append_right _ List.mem_cons_self)), not_lt] at hle
      have hcount : (withHits calls y).count = (withHits calls g).count := hsame.2
      rw [Row.key, Row.key, hcount, Prod.Lex.toLex_le_toLex] at hle
      rcases hle with hlt | ⟨-, hplace⟩
      · exact absurd hlt (lt_irrefl _)
      · exact hplace

/-- The same file, function, line, source text and count. -/
structure StandsFor (d r : Row) : Prop where
  module : d.module = r.module
  function : d.function = r.function
  line : d.line = r.line
  source : d.source = r.source
  count : d.count = r.count

/-- Both sorts are defined; a row of each registered triple with its own hits is in the details, or
a row that stands for it; and nothing is covered that is not possible. -/
structure Reports (calls : List Call) : Prop where
  sorts : StrictWeakOn (fun a b => Row.greater a b) (countRows (run calls))
  sortsAgain : ∀ sorted, SortedOf (fun a b => Row.greater a b) (countRows (run calls)) sorted →
    StrictWeakOn (fun a b => Row.greater a b) (deduplicate sorted)
  rows : ∀ details, Details (countRows (run calls)) details →
    ∀ t ∈ (registrations calls).map Row.triple, ∃ r ∈ countRows (run calls),
      r.triple = t ∧ r.count = hits calls t ∧ ∃ d ∈ details, StandsFor d r
  within : Within (countCoverage (run calls))
  count : (countCoverage (run calls)).count ≤ (countCoverage (run calls)).size
  ratio : ∀ category, (countCoverage (run calls)).get category ≤ 1

/-- Each registered triple has a row that stands for it at the address of the last row of its
class. -/
def HasTwins (calls : List Call) : Prop :=
  ∀ t ∈ (registrations calls).map Row.triple, ∃ r ∈ registrations calls, r.triple = t ∧
    ∃ g ∈ registrations calls, SameClass calls g r ∧ LastOfClass calls g ∧
      ∃ d ∈ registrations calls, d.address = g.address ∧
        StandsFor (withHits calls d) (withHits calls r)

theorem StandsFor.sameClass (h : StandsFor (withHits calls d) (withHits calls r)) :
    SameClass calls d r := ⟨h.source, h.count⟩

theorem SameClass.symm (h : SameClass calls a b) : SameClass calls b a := ⟨h.1.symm, h.2.symm⟩

theorem SameClass.trans (h : SameClass calls a b) (h' : SameClass calls b r) :
    SameClass calls a r := ⟨h.1.trans h'.1, h.2.trans h'.2⟩

/-- The last rows of a class have the same address. -/
theorem address_of_last (ha : a ∈ registrations calls) (hb : b ∈ registrations calls)
    (hsame : SameClass calls a b) (hlast : LastOfClass calls a) (hlast' : LastOfClass calls b) :
    a.address = b.address := by
  have hplace : a.place = b.place := le_antisymm (hlast' a ha hsame) (hlast b hb hsame.symm)
  exact congrArg (fun t => t.2.2) (place_inj.mp hplace)

/-- The first of the class of a row in the sorted rows. -/
theorem exists_first_of_class (h : RegistersAlike calls)
    (hsorted : SortedOf (fun a b => Row.greater a b) (countRows (run calls)) sorted)
    (hr : r ∈ registrations calls) :
    ∃ g ∈ registrations calls, SameClass calls g r ∧ LastOfClass calls g ∧
      (sorted.find? fun b => b.cls = (withHits calls r).cls) = some (withHits calls g) := by
  have hmem : withHits calls r ∈ sorted :=
    hsorted.1.mem_iff.mpr ((mem_countRows h).mpr ⟨r, hr, rfl⟩)
  obtain ⟨first, hfirst, hcls, hfind⟩ := exists_first Row.cls hmem
  obtain ⟨g, hg, rfl⟩ := (mem_countRows h).mp (hsorted.1.mem_iff.mp hfirst)
  exact ⟨g, hg, cls_withHits.mp hcls, lastOfClass_of_first h hsorted hfind, hfind⟩

/-- What is kept of a class has the address of its last row. -/
theorem mem_details_iff (h : RegistersAlike calls)
    (hdetails : Details (countRows (run calls)) details) (hd : d ∈ registrations calls)
    {g : Row} (hg : g ∈ registrations calls) (hsame : SameClass calls g d)
    (hlast : LastOfClass calls g) : withHits calls d ∈ details ↔ d.address = g.address := by
  obtain ⟨sorted, hsorted, hagain⟩ := hdetails
  obtain ⟨first, hfirst, hsame', hlast', hfind⟩ := exists_first_of_class h hsorted hd
  have haddress : first.address = g.address :=
    address_of_last hfirst hg (hsame'.trans hsame.symm) hlast' hlast
  rw [hagain.1.mem_iff, mem_deduplicate_iff h hsorted, agreesIn_iff_of_first hfind,
    and_iff_right ((mem_countRows h).mpr ⟨d, hd, rfl⟩)]
  show d.address = first.address ↔ _
  rw [haddress]

/-- There is something to look at: the rows can be sorted. -/
theorem exists_details (h : RegistersAlike calls) :
    ∃ details, Details (countRows (run calls)) details := by
  obtain ⟨sorted, hsorted, -⟩ := (strictWeakOn_countRows h).exists_sortedOf
    (List.nil_subperm) List.Pairwise.nil
  have hsub : deduplicate sorted ⊆ countRows (run calls) :=
    fun d hd => ((mem_deduplicate_iff h hsorted).mp hd).1
  obtain ⟨details, hagain, -⟩ := ((strictWeakOn_countRows h).subset hsub).exists_sortedOf
    (List.nil_subperm) List.Pairwise.nil
  exact ⟨details, sorted, hsorted, hagain⟩

theorem mem_details_of_details (h : RegistersAlike calls)
    (hdetails : Details (countRows (run calls)) details) (hd : d ∈ details) :
    ∃ r ∈ registrations calls, withHits calls r = d := by
  obtain ⟨sorted, hsorted, hagain⟩ := hdetails
  exact (mem_countRows h).mp
    ((mem_deduplicate_iff h hsorted).mp (hagain.1.mem_iff.mp hd)).1

/-- Where triples are registered alike, the details have a row for each of them exactly if each
has a row that stands for it at the address of the last row of its class. -/
theorem rows_iff_hasTwins (h : RegistersAlike calls) :
    (∀ details, Details (countRows (run calls)) details →
      ∀ t ∈ (registrations calls).map Row.triple, ∃ r ∈ countRows (run calls),
        r.triple = t ∧ r.count = hits calls t ∧ ∃ d ∈ details, StandsFor d r) ↔
      HasTwins calls := by
  constructor
  · intro hrows t ht
    obtain ⟨details, hdetails⟩ := exists_details h
    obtain ⟨r', hr', htriple, -, d', hd', hstands⟩ := hrows details hdetails t ht
    obtain ⟨r, hr, rfl⟩ := (mem_countRows h).mp hr'
    obtain ⟨d, hd, rfl⟩ := mem_details_of_details h hdetails hd'
    obtain ⟨sorted, hsorted, -⟩ := id hdetails
    obtain ⟨g, hg, hsame, hlast, -⟩ := exists_first_of_class h hsorted hr
    have haddress := (mem_details_iff h hdetails hd hg (hsame.trans hstands.sameClass.symm)
      hlast).mp hd'
    exact ⟨r, hr, htriple, g, hg, hsame, hlast, d, hd, haddress, hstands⟩
  · intro htwins details hdetails t ht
    obtain ⟨r, hr, htriple, g, hg, hsame, hlast, d, hd, haddress, hstands⟩ := htwins t ht
    refine ⟨withHits calls r, (mem_countRows h).mpr ⟨r, hr, rfl⟩, htriple,
      congrArg (hits calls) htriple, withHits calls d, ?_, hstands⟩
    exact (mem_details_iff h hdetails hd hg (hsame.trans hstands.sameClass.symm) hlast).mpr
      haddress

/-- The report is right in every run that registers triples alike and gives each a row that stands
for it. -/
theorem reports_iff (hregistered : HitsRegistered calls) (halike : RegistersAlike calls) :
    Reports calls ↔ HasTwins calls := by
  obtain ⟨hwithin, hcount⟩ := countCoverage_spec hregistered
  constructor
  · exact fun h => (rows_iff_hasTwins halike).mp h.rows
  · intro htwins
    have hweak := strictWeakOn_countRows halike
    exact
      { sorts := hweak
        sortsAgain := fun sorted hsorted =>
          hweak.subset fun d hd => ((mem_deduplicate_iff halike hsorted).mp hd).1
        rows := (rows_iff_hasTwins halike).mpr htwins
        within := hwithin
        count := hcount
        ratio := get_le_one hwithin hcount }

/-! Two functions in a file, one of which is called. -/

def twoSources : List Call :=
  [.source "a.c" "f" 1 16 (some "f();"), .source "a.c" "g" 2 32 (some "return;"),
    .coverage 0 .active true "a.c" "f" 16]

theorem reports_twoSources : Reports twoSources := by
  refine (reports_iff (by unfold HitsRegistered; decide +kernel)
    (by unfold RegistersAlike; decide +kernel)).mpr ?_
  intro t ht
  obtain ⟨r, hr, rfl⟩ := List.mem_map.mp ht
  have hlast : LastOfClass twoSources r := by
    intro y hy hsame
    have hsource : ∀ y ∈ registrations twoSources, ∀ r ∈ registrations twoSources,
        y.source = r.source → y = r := by decide +kernel
    rw [hsource y hy r hr hsame.1]
  exact ⟨r, hr, rfl, r, hr, ⟨rfl, rfl⟩, hlast, r, hr, rfl, ⟨rfl, rfl, rfl, rfl, rfl⟩⟩

/-- The same statement in two functions that are never called. -/
def sameSource : List Call :=
  [.source "a.c" "f" 1 16 (some "return 0;"), .source "a.c" "g" 2 32 (some "return 0;")]

theorem not_reports_sameSource : ¬ Reports sameSource := by
  intro h
  let kept : Row := ⟨0, 32, 2, "a.c", "g", "return 0;"⟩
  let dropped : Row := ⟨0, 16, 1, "a.c", "f", "return 0;"⟩
  have hdetails : Details (countRows (run sameSource)) [kept] := by
    refine ⟨[kept, dropped], ⟨?_, by decide +kernel⟩, ⟨?_, List.pairwise_singleton _ _⟩⟩
    · exact (List.Perm.swap dropped kept [])
    · exact List.Perm.of_eq (by decide +kernel)
  obtain ⟨r, -, htriple, -, d, hd, hstands⟩ := h.rows [kept] hdetails ("a.c", "f", 16)
    (by decide +kernel)
  have hfunction : r.function = "f" := congrArg (fun t => t.2.1) htriple
  have hother : "g" = r.function := by
    rw [← hstands.function, List.mem_singleton.mp hd]
  rw [hfunction] at hother
  revert hother
  decide

end Coverage
end Rocprofsys
