import Mathlib.Data.List.AList

namespace Rocprofsys
namespace Base

/-! ## Events that open and close keys -/

inductive Role (κ : Type) where
  | opens (key : κ)
  | closes (key : κ)
  | alone
  deriving DecidableEq

/-- What is kept of an opening, and the records that are written: of an opening with its
closing, of an opening alone, and of any other event alone. -/
structure Pairing (α κ γ β : Type) where
  role : α → Role κ
  stored : α → γ
  pair : γ → α → β
  orphan : γ → β
  single : α → β

/-- The openings without a closing so far, and what is written. -/
structure Progress (κ γ β : Type) where
  pending : AList fun _ : κ => γ := ∅
  written : List β := []

namespace Pairing

variable {α κ γ β : Type} [DecidableEq κ] (p : Pairing α κ γ β)

/-- An opening is kept unless its key is taken. -/
def step (st : Progress κ γ β) (a : α) : Progress κ γ β :=
  match p.role a with
  | .opens k =>
    if k ∈ st.pending then st else { st with pending := st.pending.insert k (p.stored a) }
  | .closes k =>
    match st.pending.lookup k with
    | some b => ⟨st.pending.erase k, st.written ++ [p.pair b a]⟩
    | none => { st with written := st.written ++ [p.single a] }
  | .alone => { st with written := st.written ++ [p.single a] }

/-! ## What is to be written -/

def concerns (k : κ) (a : α) : Bool := decide (p.role a = .opens k ∨ p.role a = .closes k)

/-- An opening and the events after it: it is closed if the next event of its key does so. -/
def opened (k : κ) (b : γ) (after : List α) : β :=
  match after.find? (p.concerns k) with
  | some a => if p.role a = .closes k then p.pair b a else p.orphan b
  | none => p.orphan b

/-- The last event of the key is an opening; `before` has the newest event first. -/
def Waits (k : κ) (before : List α) : Prop :=
  ∃ a ∈ before.find? (p.concerns k), p.role a = .opens k

instance (k : κ) (before : List α) : Decidable (p.Waits k before) :=
  inferInstanceAs (Decidable (∃ a ∈ before.find? (p.concerns k), _))

def recordsOf (before : List α) (a : α) (after : List α) : List β :=
  match p.role a with
  | .opens k => [p.opened k (p.stored a) after]
  | .closes k => if p.Waits k before then [] else [p.single a]
  | .alone => [p.single a]

/-- One record for each opening, and one for each closing that closes nothing. -/
def records (before : List α) : List α → List β
  | [] => []
  | a :: after => p.recordsOf before a after ++ records (a :: before) after

/-- The next event of the key is a closing, or there is none and the key is collected. -/
def Answered (collected : κ → Prop) (k : κ) (after : List α) : Prop :=
  match after.find? (p.concerns k) with
  | some a => p.role a = .closes k
  | none => collected k

/-- Every opening is answered. -/
def AllAnswered (collected : κ → Prop) (l : List α) : Prop :=
  ∀ k a after, a :: after <:+ l → p.role a = .opens k → p.Answered collected k after

/-- The openings kept up to the end, of the keys that are collected. -/
def collect (collected : κ → Prop) [DecidablePred collected] (st : Progress κ γ β) : List β :=
  (st.pending.entries.filter fun e => collected e.1).map fun e => p.orphan e.2

/-! ## One event -/

variable {p} {st : Progress κ γ β} {a : α} {k : κ} {b : γ}

theorem step_opens_of_mem (hrole : p.role a = .opens k) (hk : k ∈ st.pending) :
    p.step st a = st := by
  rw [step, hrole]
  exact if_pos hk

theorem step_opens_of_notMem (hrole : p.role a = .opens k) (hk : k ∉ st.pending) :
    p.step st a = { st with pending := st.pending.insert k (p.stored a) } := by
  rw [step, hrole]
  exact if_neg hk

theorem step_closes_of_some (hrole : p.role a = .closes k) (hk : st.pending.lookup k = some b) :
    p.step st a = ⟨st.pending.erase k, st.written ++ [p.pair b a]⟩ := by
  simp only [step, hrole, hk]

theorem step_closes_of_notMem (hrole : p.role a = .closes k) (hk : k ∉ st.pending) :
    p.step st a = { st with written := st.written ++ [p.single a] } := by
  simp only [step, hrole, AList.lookup_eq_none.mpr hk]

theorem step_alone (hrole : p.role a = .alone) :
    p.step st a = { st with written := st.written ++ [p.single a] } := by
  rw [step, hrole]

theorem exists_lookup {m : AList fun _ : κ => γ} (hk : k ∈ m) : ∃ b, m.lookup k = some b :=
  Option.isSome_iff_exists.mp (AList.lookup_isSome.mpr hk)

theorem entries_perm_erase {m : AList fun _ : κ => γ} (hk : m.lookup k = some b) :
    m.entries.Perm (⟨k, b⟩ :: (m.erase k).entries) := by
  have hkeys : k ∈ m.entries.keys := AList.lookup_isSome.mp (by rw [hk]; rfl)
  obtain ⟨b', l₁, l₂, hl₁, hentries, herase⟩ := List.exists_of_kerase hkeys
  have hmem : (⟨k, b'⟩ : Sigma fun _ : κ => γ) ∈ m.entries := by
    rw [hentries]
    exact List.mem_append_cons_self
  have hb : some b' = some b := (List.mem_dlookup m.nodupKeys hmem).symm.trans hk
  cases hb
  show m.entries.Perm (⟨k, b⟩ :: m.entries.kerase k)
  rw [herase, hentries]
  exact List.perm_middle

theorem length_erase {m : AList fun _ : κ => γ} (hk : m.lookup k = some b) :
    m.entries.length = (m.erase k).entries.length + 1 := (entries_perm_erase hk).length_eq

/-! ## The events of a key -/

theorem concerns_of_opens (hrole : p.role a = .opens k) : p.concerns k a = true :=
  decide_eq_true (Or.inl hrole)

theorem concerns_of_closes (hrole : p.role a = .closes k) : p.concerns k a = true :=
  decide_eq_true (Or.inr hrole)

theorem not_concerns_of_opens {k' : κ} (hrole : p.role a = .opens k) (hne : k' ≠ k) :
    ¬ p.concerns k' a = true := by
  rw [concerns, decide_eq_true_iff, hrole]
  intro h
  rcases h with heq | heq
  · exact hne (Role.opens.inj heq).symm
  · cases heq

theorem not_concerns_of_closes {k' : κ} (hrole : p.role a = .closes k) (hne : k' ≠ k) :
    ¬ p.concerns k' a = true := by
  rw [concerns, decide_eq_true_iff, hrole]
  intro h
  rcases h with heq | heq
  · cases heq
  · exact hne (Role.closes.inj heq).symm

theorem not_concerns_of_alone (hrole : p.role a = .alone) : ¬ p.concerns k a = true := by
  rw [concerns, decide_eq_true_iff, hrole]
  rintro (heq | heq) <;> cases heq

section Cons

variable {before after : List α} {collected : κ → Prop}

theorem waits_cons_of_not_concerns (h : ¬ p.concerns k a = true) :
    p.Waits k (a :: before) ↔ p.Waits k before := by
  rw [Waits, List.find?_cons_of_neg h, Waits]

theorem waits_cons_iff (h : p.concerns k a = true) :
    p.Waits k (a :: before) ↔ p.role a = .opens k := by
  rw [Waits, List.find?_cons_of_pos h]
  exact ⟨fun ⟨_, hmem, hrole⟩ => Option.some.inj hmem ▸ hrole, fun hrole => ⟨a, rfl, hrole⟩⟩

theorem answered_cons_of_not_concerns (h : ¬ p.concerns k a = true) :
    p.Answered collected k (a :: after) ↔ p.Answered collected k after := by
  rw [Answered, List.find?_cons_of_neg h, Answered]

theorem answered_cons_iff (h : p.concerns k a = true) :
    p.Answered collected k (a :: after) ↔ p.role a = .closes k := by
  rw [Answered, List.find?_cons_of_pos h]

theorem opened_cons_of_not_concerns (h : ¬ p.concerns k a = true) :
    p.opened k b (a :: after) = p.opened k b after := by
  rw [opened, List.find?_cons_of_neg h, opened]

theorem recordsOf_opens (h : p.role a = .opens k) :
    p.recordsOf before a after = [p.opened k (p.stored a) after] := by
  rw [recordsOf, h]

theorem recordsOf_closes_of_waits (h : p.role a = .closes k) (hw : p.Waits k before) :
    p.recordsOf before a after = [] := by
  rw [recordsOf, h]
  exact if_pos hw

theorem recordsOf_closes_of_not (h : p.role a = .closes k) (hw : ¬ p.Waits k before) :
    p.recordsOf before a after = [p.single a] := by
  rw [recordsOf, h]
  exact if_neg hw

theorem recordsOf_alone (h : p.role a = .alone) : p.recordsOf before a after = [p.single a] := by
  rw [recordsOf, h]

theorem opened_cons_of_closes (h : p.role a = .closes k) :
    p.opened k b (a :: after) = p.pair b a := by
  rw [opened, List.find?_cons_of_pos (concerns_of_closes h)]
  exact if_pos h

end Cons

/-! ## The keys that wait -/

/-- The keys kept are those whose last event is an opening. -/
def Tracks (p : Pairing α κ γ β) (st : Progress κ γ β) (before : List α) : Prop :=
  ∀ k, k ∈ st.pending ↔ p.Waits k before

theorem tracks_nil : p.Tracks {} [] := by
  intro k
  refine ⟨fun h => absurd h (AList.notMem_empty k), fun ⟨_, hmem, _⟩ => ?_⟩
  cases hmem

theorem Tracks.step {before : List α} (h : p.Tracks st before) (a : α) :
    p.Tracks (p.step st a) (a :: before) := by
  intro k
  cases hrole : p.role a with
  | opens k' =>
    by_cases heq : k = k'
    · subst heq
      rw [waits_cons_iff (concerns_of_opens hrole), hrole, eq_self, iff_true]
      by_cases hk : k ∈ st.pending
      · rwa [step_opens_of_mem hrole hk]
      · rw [step_opens_of_notMem hrole hk]
        exact (AList.mem_insert _).mpr (Or.inl rfl)
    · rw [waits_cons_of_not_concerns (not_concerns_of_opens hrole heq), ← h k]
      by_cases hk : k' ∈ st.pending
      · rw [step_opens_of_mem hrole hk]
      · rw [step_opens_of_notMem hrole hk]
        exact (AList.mem_insert _).trans (or_iff_right heq)
  | closes k' =>
    by_cases heq : k = k'
    · subst heq
      rw [waits_cons_iff (concerns_of_closes hrole), hrole]
      refine ⟨fun hmem => ?_, fun heq => nomatch heq⟩
      by_cases hk : k ∈ st.pending
      · obtain ⟨b, hb⟩ := exists_lookup hk
        rw [step_closes_of_some hrole hb] at hmem
        exact absurd rfl (AList.mem_erase.mp hmem).1
      · rw [step_closes_of_notMem hrole hk] at hmem
        exact absurd hmem hk
    · rw [waits_cons_of_not_concerns (not_concerns_of_closes hrole heq), ← h k]
      by_cases hk : k' ∈ st.pending
      · obtain ⟨b, hb⟩ := exists_lookup hk
        rw [step_closes_of_some hrole hb]
        exact AList.mem_erase.trans (and_iff_right heq)
      · rw [step_closes_of_notMem hrole hk]
  | alone =>
    rw [waits_cons_of_not_concerns (not_concerns_of_alone hrole), ← h k, step_alone hrole]

/-! ## Openings that are not kept -/

/-- How many openings come while their key is taken. -/
def refused (p : Pairing α κ γ β) (st : Progress κ γ β) : List α → Nat
  | [] => 0
  | a :: l => (if ∃ k ∈ st.pending.keys, p.role a = .opens k then 1 else 0) +
      refused p (p.step st a) l

theorem refused_cons_of_mem {l : List α} (hrole : p.role a = .opens k) (hk : k ∈ st.pending) :
    p.refused st (a :: l) = 1 + p.refused st l := by
  rw [refused, if_pos ⟨k, AList.mem_keys.mp hk, hrole⟩, step_opens_of_mem hrole hk]

theorem refused_cons {l : List α} (h : ∀ k, p.role a = .opens k → k ∉ st.pending) :
    p.refused st (a :: l) = p.refused (p.step st a) l := by
  rw [refused, if_neg (fun ⟨k, hk, hrole⟩ => h k hrole (AList.mem_keys.mpr hk)), Nat.zero_add]

theorem refused_cons_of_notMem {l : List α} (hrole : p.role a = .opens k) (hk : k ∉ st.pending) :
    p.refused st (a :: l) = p.refused (p.step st a) l :=
  refused_cons fun _ hrole' => Role.opens.inj (hrole.symm.trans hrole') ▸ hk

theorem refused_cons_of_closes {l : List α} (hrole : p.role a = .closes k) :
    p.refused st (a :: l) = p.refused (p.step st a) l :=
  refused_cons fun _ hrole' => nomatch hrole.symm.trans hrole'

theorem refused_cons_of_alone {l : List α} (hrole : p.role a = .alone) :
    p.refused st (a :: l) = p.refused (p.step st a) l :=
  refused_cons fun _ hrole' => nomatch hrole.symm.trans hrole'

/-- Of every opening, either a record is written, or it is still kept, or it was refused. -/
theorem length_written {before l : List α} (h : p.Tracks st before) :
    (l.foldl p.step st).written.length + (l.foldl p.step st).pending.entries.length +
        p.refused st l =
      st.written.length + st.pending.entries.length + (p.records before l).length := by
  induction l generalizing st before with
  | nil => rfl
  | cons a l ih =>
    have hnext := ih (h.step a)
    rw [List.foldl_cons, records, List.length_append]
    cases hrole : p.role a with
    | opens k =>
      rw [recordsOf_opens hrole, List.length_singleton]
      by_cases hk : k ∈ st.pending
      · rw [step_opens_of_mem hrole hk] at hnext ⊢
        rw [refused_cons_of_mem hrole hk]
        omega
      · have hlength : (st.pending.insert k (p.stored a)).entries.length =
            st.pending.entries.length + 1 := by
          rw [AList.entries_insert_of_notMem hk, List.length_cons]
        rw [refused_cons_of_notMem hrole hk, hnext, step_opens_of_notMem hrole hk]
        show st.written.length + (st.pending.insert k (p.stored a)).entries.length + _ = _
        omega
    | closes k =>
      rw [refused_cons_of_closes hrole, hnext]
      by_cases hk : k ∈ st.pending
      · obtain ⟨b, hb⟩ := exists_lookup hk
        have hlength := length_erase hb
        rw [step_closes_of_some hrole hb, recordsOf_closes_of_waits hrole ((h k).mp hk)]
        show (st.written ++ [p.pair b a]).length + (st.pending.erase k).entries.length + _ = _
        rw [List.length_append, List.length_singleton, List.length_nil]
        omega
      · rw [step_closes_of_notMem hrole hk,
          recordsOf_closes_of_not hrole (fun hw => hk ((h k).mpr hw))]
        show (st.written ++ [p.single a]).length + st.pending.entries.length + _ = _
        rw [List.length_append, List.length_singleton]
        omega
    | alone =>
      rw [refused_cons_of_alone hrole, hnext, step_alone hrole, recordsOf_alone hrole]
      show (st.written ++ [p.single a]).length + st.pending.entries.length + _ = _
      rw [List.length_append, List.length_singleton]
      omega

/-! ## Openings that are answered -/

theorem allAnswered_cons {collected : κ → Prop} {l : List α} :
    p.AllAnswered collected (a :: l) ↔
      (∀ k, p.role a = .opens k → p.Answered collected k l) ∧ p.AllAnswered collected l := by
  constructor
  · intro h
    exact ⟨fun k => h k a l List.suffix_rfl,
      fun k a' after hafter => h k a' after (List.suffix_cons_iff.mpr (Or.inr hafter))⟩
  · rintro ⟨hfirst, hrest⟩ k a' after hafter
    rcases List.suffix_cons_iff.mp hafter with heq | hsuffix
    · cases heq
      exact hfirst k
    · exact hrest k a' after hsuffix

theorem allAnswered_cons_of_ne {collected : κ → Prop} {l : List α}
    (h : ∀ k, p.role a ≠ .opens k) :
    p.AllAnswered collected (a :: l) ↔ p.AllAnswered collected l :=
  allAnswered_cons.trans (and_iff_right fun k hrole => absurd hrole (h k))

/-- What opens is to be answered by the rest, as what is open is. -/
theorem answered_insert_iff {collected : κ → Prop} {l : List α} {k : κ}
    (hrole : p.role a = .opens k) (hk : k ∉ st.pending) (v : γ) :
    ((∀ k' ∈ st.pending, p.Answered collected k' (a :: l)) ∧
        ∀ k', p.role a = .opens k' → p.Answered collected k' l) ↔
      ∀ k' ∈ st.pending.insert k v, p.Answered collected k' l := by
  have hother : ∀ k' ∈ st.pending, ¬ p.concerns k' a = true := fun k' hk' =>
    not_concerns_of_opens hrole fun heq => hk (heq ▸ hk')
  constructor
  · intro h k' hk'
    obtain ⟨hkept, hfirst⟩ := h
    rcases (AList.mem_insert _).mp hk' with rfl | hmem
    · exact hfirst k' hrole
    · exact (answered_cons_of_not_concerns (hother k' hmem)).mp (hkept k' hmem)
  · intro h
    refine ⟨fun k' hk' => (answered_cons_of_not_concerns (hother k' hk')).mpr
      (h k' ((AList.mem_insert _).mpr (Or.inr hk'))), fun k' hrole' => ?_⟩
    cases hrole.symm.trans hrole'
    exact h k ((AList.mem_insert _).mpr (Or.inl rfl))

/-- What closes is answered, and the rest answers the others. -/
theorem answered_erase_iff {collected : κ → Prop} {l : List α} {k : κ}
    (hrole : p.role a = .closes k) :
    (∀ k' ∈ st.pending, p.Answered collected k' (a :: l)) ↔
      ∀ k' ∈ st.pending.erase k, p.Answered collected k' l := by
  constructor
  · intro h k' hk'
    obtain ⟨hne, hmem⟩ := AList.mem_erase.mp hk'
    exact (answered_cons_of_not_concerns (not_concerns_of_closes hrole hne)).mp (h k' hmem)
  · intro h k' hk'
    by_cases heq : k' = k
    · subst heq
      exact (answered_cons_iff (concerns_of_closes hrole)).mpr hrole
    · exact (answered_cons_of_not_concerns (not_concerns_of_closes hrole heq)).mpr
        (h k' (AList.mem_erase.mpr ⟨heq, hk'⟩))

/-- None is refused and those that are left are collected exactly if all are answered, those
already kept included. -/
theorem answered_iff {collected : κ → Prop} {l : List α} :
    (∀ k ∈ st.pending, p.Answered collected k l) ∧ p.AllAnswered collected l ↔
      p.refused st l = 0 ∧ ∀ k ∈ (l.foldl p.step st).pending, collected k := by
  induction l generalizing st with
  | nil =>
    refine ⟨fun h => ⟨rfl, h.1⟩, fun h => ⟨h.2, fun k a after hafter => ?_⟩⟩
    cases List.suffix_nil.mp hafter
  | cons a l ih =>
    rw [List.foldl_cons]
    cases hrole : p.role a with
    | opens k =>
      rw [allAnswered_cons]
      by_cases hk : k ∈ st.pending
      · rw [refused_cons_of_mem hrole hk]
        constructor
        · intro h
          obtain ⟨hkept, -⟩ := h
          have hcloses := (answered_cons_iff (concerns_of_opens hrole)).mp (hkept k hk)
          exact nomatch hrole.symm.trans hcloses
        · intro h
          obtain ⟨hzero, -⟩ := h
          omega
      · rw [refused_cons_of_notMem hrole hk, ← ih, step_opens_of_notMem hrole hk]
        rw [← and_assoc]
        exact and_congr_left fun _ => answered_insert_iff hrole hk _
    | closes k =>
      rw [refused_cons_of_closes hrole, ← ih,
        allAnswered_cons_of_ne fun k' hrole' => nomatch hrole.symm.trans hrole']
      refine and_congr_left fun _ => ?_
      by_cases hk : k ∈ st.pending
      · obtain ⟨b, hb⟩ := exists_lookup hk
        rw [step_closes_of_some hrole hb]
        exact answered_erase_iff hrole
      · rw [step_closes_of_notMem hrole hk]
        exact forall₂_congr fun k' hk' => answered_cons_of_not_concerns
          (not_concerns_of_closes hrole fun heq => hk (heq ▸ hk'))
    | alone =>
      rw [refused_cons_of_alone hrole, ← ih, step_alone hrole,
        allAnswered_cons_of_ne fun k' hrole' => nomatch hrole.symm.trans hrole']
      exact and_congr_left fun _ => forall₂_congr fun k' _ =>
        answered_cons_of_not_concerns (not_concerns_of_alone hrole)

/-! ## The records of a run -/

theorem map_opened_cons {m : AList fun _ : κ => γ} {l : List α}
    (h : ∀ k ∈ m, ¬ p.concerns k a = true) :
    m.entries.map (fun e => p.opened e.1 e.2 (a :: l)) =
      m.entries.map fun e => p.opened e.1 e.2 l :=
  List.map_congr_left fun _ he =>
    opened_cons_of_not_concerns (h _ (AList.mem_keys.mpr (List.mem_keys_of_mem he)))

theorem perm_written_moved (w m r : List β) (x : β) :
    (w ++ [x] ++ (m ++ r)).Perm (w ++ (m ++ ([x] ++ r))) := by
  rw [List.append_assoc]
  refine List.Perm.append_left w ?_
  show (x :: (m ++ r)).Perm (m ++ x :: r)
  exact List.perm_middle.symm

/-- If no opening is refused, the records are those of the openings kept and of the events. -/
theorem perm_records {before l : List α} (h : p.Tracks st before) (hrefused : p.refused st l = 0) :
    ((l.foldl p.step st).written ++
        (l.foldl p.step st).pending.entries.map fun e => p.orphan e.2).Perm
      (st.written ++ ((st.pending.entries.map fun e => p.opened e.1 e.2 l) ++
        p.records before l)) := by
  induction l generalizing st before with
  | nil =>
    rw [records, List.append_nil]
    exact List.Perm.refl _
  | cons a l ih =>
    have hnext := ih (h.step a)
    rw [List.foldl_cons, records]
    cases hrole : p.role a with
    | opens k =>
      by_cases hk : k ∈ st.pending
      · rw [refused_cons_of_mem hrole hk] at hrefused
        omega
      · rw [refused_cons_of_notMem hrole hk] at hrefused
        refine (hnext hrefused).trans ?_
        rw [step_opens_of_notMem hrole hk, recordsOf_opens hrole,
          map_opened_cons fun k' hk' => not_concerns_of_opens hrole fun heq => hk (heq ▸ hk')]
        refine List.Perm.append_left st.written ?_
        rw [AList.entries_insert_of_notMem hk, List.map_cons]
        exact List.perm_middle.symm
    | closes k =>
      rw [refused_cons_of_closes hrole] at hrefused
      refine (hnext hrefused).trans ?_
      by_cases hk : k ∈ st.pending
      · obtain ⟨b, hb⟩ := exists_lookup hk
        rw [step_closes_of_some hrole hb, recordsOf_closes_of_waits hrole ((h k).mp hk),
          List.nil_append, ← map_opened_cons fun k' hk' =>
            not_concerns_of_closes hrole (AList.mem_erase.mp hk').1]
        show (st.written ++ [p.pair b a] ++ _).Perm _
        rw [List.append_assoc]
        refine List.Perm.append_left st.written ?_
        have hentries := (entries_perm_erase hb).map fun e => p.opened e.1 e.2 (a :: l)
        rw [List.map_cons, opened_cons_of_closes hrole] at hentries
        exact (hentries.append_right _).symm
      · rw [step_closes_of_notMem hrole hk,
          recordsOf_closes_of_not hrole (fun hw => hk ((h k).mpr hw)),
          map_opened_cons fun k' hk' => not_concerns_of_closes hrole fun heq => hk (heq ▸ hk')]
        exact perm_written_moved _ _ _ _
    | alone =>
      rw [refused_cons_of_alone hrole] at hrefused
      refine (hnext hrefused).trans ?_
      rw [step_alone hrole, recordsOf_alone hrole,
        map_opened_cons fun k' _ => not_concerns_of_alone hrole]
      exact perm_written_moved _ _ _ _

/-- What is written in a run and collected at its end are the records of its events exactly
if every opening is answered. -/
theorem perm_records_iff {collected : κ → Prop} [DecidablePred collected] {l : List α} :
    ((l.foldl p.step {}).written ++ p.collect collected (l.foldl p.step {})).Perm
        (p.records [] l) ↔
      p.AllAnswered collected l := by
  have hanswered := @answered_iff α κ γ β _ p {} collected l
  rw [and_iff_right fun k hk => absurd hk (AList.notMem_empty k)] at hanswered
  rw [hanswered]
  have hlength := @length_written α κ γ β _ p {} [] l tracks_nil
  constructor
  · intro h
    have heq := h.length_eq
    have hle : (p.collect collected (l.foldl p.step {})).length ≤
        (l.foldl p.step {}).pending.entries.length := by
      rw [collect, List.length_map]
      exact List.length_filter_le _ _
    rw [List.length_append] at heq
    have hempty : ({} : Progress κ γ β).written.length +
        ({} : Progress κ γ β).pending.entries.length = 0 := rfl
    refine ⟨by omega, fun k hk => ?_⟩
    have hall : ((l.foldl p.step {}).pending.entries.filter fun e => collected e.1).length =
        (l.foldl p.step {}).pending.entries.length := by
      rw [collect, List.length_map] at heq hle
      omega
    obtain ⟨e, he, rfl⟩ := List.mem_map.mp (AList.mem_keys.mp hk)
    exact of_decide_eq_true (List.length_filter_eq_length_iff.mp hall e he)
  · intro h
    obtain ⟨hzero, hcollected⟩ := h
    have hfilter : ((l.foldl p.step {}).pending.entries.filter fun e => collected e.1) =
        (l.foldl p.step {}).pending.entries :=
      List.filter_eq_self.mpr fun e he => decide_eq_true
        (hcollected e.1 (AList.mem_keys.mpr (List.mem_keys_of_mem he)))
    rw [collect, hfilter]
    exact perm_records tracks_nil hzero

end Pairing

end Base
end Rocprofsys
