import Mathlib.Data.Finset.Max
import Mathlib.Data.Sum.Order
import Mathlib.Order.Bounds.Basic
import Rocprofsys.Base.Pieces
import Rocprofsys.Python.CausalTable

namespace Rocprofsys
namespace Python

open Base

/-! ## Throughput profiles -/

/-- A text that fits in a field of a line: the fields are separated by tabs. -/
def Plain (text : Text) : Prop := ∀ c ∈ text, c ∉ ['\t', '\n', '\r']

instance (text : Text) : Decidable (Plain text) :=
  List.decidableBAll (fun c => c ∉ ['\t', '\n', '\r']) text

abbrev PlainSelection := {s : Selection // Plain s.selected}

abbrev Name := {text : Text // Plain text}

structure ThroughputPoint where
  name : Name
  delta : Positive

structure ThroughputExperiment where
  selection : PlainSelection
  virtualSpeedup : ℕ
  duration : Positive
  progressPoints : List ThroughputPoint

namespace ThroughputExperiment

/-- The experiment in a `.json` profile. -/
def json (e : ThroughputExperiment) : Experiment :=
  ⟨e.virtualSpeedup, e.duration, e.selection,
    e.progressPoints.map fun pts => ⟨pts.name, .delta pts.delta none⟩, e.duration.2⟩

def key (e : ThroughputExperiment) (pts : ThroughputPoint) : Key :=
  ⟨e.selection.1.selected, pts.name, e.virtualSpeedup⟩

def sample (e : ThroughputExperiment) (pts : ThroughputPoint) : Sample := ⟨pts.delta, e.duration⟩

end ThroughputExperiment

/-! ## The text form -/

/-- The lines that are read into the table, of their fields the ones that are used. -/
inductive Line where
  | experiment (selected : Text) (speedup : ℚ) (duration : Positive)
  | throughputPoint (name : Text) (delta : Positive)

/-- The lines of an experiment. -/
def ThroughputExperiment.lines (e : ThroughputExperiment) : List Line :=
  .experiment e.selection.1.selected (e.virtualSpeedup / 100) e.duration ::
    e.progressPoints.map fun pts => .throughputPoint pts.name pts.delta

/-! ## Reading it -/

/-- A field's value, a number or a text; the numbers come first in an index. -/
abbrev Value := ℚ ⊕ₗ Text

def textValue (text : Text) : Value := toLex (Sum.inr text)

/-- `ix`. -/
structure Index where
  selected : Value
  point : Value
  speedup : ℚ

namespace Index

def lex (i : Index) : Value ×ₗ Value ×ₗ ℚ := toLex (i.selected, toLex (i.point, i.speedup))

theorem lex_injective : Function.Injective lex := by
  intro a b h
  cases a
  cases b
  simpa [lex] using h

instance : LinearOrder Index := LinearOrder.lift' lex lex_injective

theorem selected_le {i j : Index} (h : i ≤ j) : i.selected ≤ j.selected := by
  rcases Prod.Lex.le_iff.mp (show i.lex ≤ j.lex from h) with hlt | ⟨heq, -⟩
  · exact hlt.le
  · exact heq.le

end Index

/-- The index of a key, had it been read as it is. -/
def Key.index (k : Key) : Index := ⟨textValue k.selected, textValue k.point, k.speedup⟩

section Reading

variable (float : Text → Option ℚ)

/-- `get_value`; nothing where it exits or where `float` does not take the text. -/
def getValue (splice : List Text) : Option Value :=
  if "type".toList ∈ splice then none
  else if "difference".toList ∈ splice ∨ "speedup".toList ∈ splice then
    (float (splice.getD 1 [])).map fun x => toLex (Sum.inl x)
  else some (textValue (splice.getD 1 []))

/-- A section's value, for a text. -/
def readField (key : String) (text : Text) : Option Value :=
  getValue float (pieces ['='] (key.toList ++ '=' :: text))

/-- A text without an equals sign is all that follows the key. -/
theorem readField_of_not_mem {key : String} {text : Text} (hkey : '=' ∉ key.toList)
    (htext : '=' ∉ text) : readField float key text = getValue float [key.toList, text] := by
  have hne : ['='] ≠ [] := List.cons_ne_nil _ _
  have hprepend := (pieces_prepend_iff hne key.toList text).mpr (clean_singleton_iff.mpr hkey)
  rw [List.append_assoc, List.singleton_append] at hprepend
  rw [readField, hprepend, pieces_eq_singleton_iff.mpr (Or.inr fun h => htext (h.subset (by simp)))]

/-- The current `experiment` and the `data`. -/
structure ParseState where
  experiment : Option (Value × ℚ × Positive)
  data : OrderedMap Index Sample

/-- `add_throughput`. -/
def addThroughput (data : OrderedMap Index Sample) (ix : Index) (s : Sample) :
    OrderedMap Index Sample :=
  data.set ix ((data.get? ix).elim s fun t => t.add s)

/-- What a line does; nothing comes of it where it raises. -/
def parseLine (st : ParseState) : Line → Option ParseState
  | .experiment selected speedup duration =>
    (readField float "selected" selected).map fun selected =>
      { st with experiment := some (selected, speedup, duration) }
  | .throughputPoint name delta =>
    match readField float "name" name, st.experiment with
    | some name, some (selected, speedup, duration) =>
      let speedup := 100 * speedup
      some ⟨some (selected, speedup, duration),
        addThroughput st.data ⟨selected, name, speedup⟩ ⟨delta, duration⟩⟩
    | _, _ => none

end Reading

/-- The loop of `get_speedup_data`, with each row's index. -/
def speedupRows (currSelected : Value) (baselineDataPoint : ℚ) :
    List (Index × Sample) → List (Index × ℚ)
  | [] => []
  | (index, row) :: rows =>
    let baselineDataPoint := if currSelected ≠ index.selected then row.rate else baselineDataPoint
    let progressSpeedup := (baselineDataPoint - row.rate) / baselineDataPoint
    let rest := speedupRows index.selected baselineDataPoint rows
    if -1 ≤ progressSpeedup ∧ progressSpeedup ≤ 2 then (index, 100 * progressSpeedup) :: rest
    else rest

/-- `get_speedup_data`. -/
def getSpeedupData (data : OrderedMap Index Sample) : Option (List (Index × ℚ)) :=
  match data.items with
  | [] => none
  | (_, row) :: _ => some (speedupRows (textValue []) row.rate data.items)

/-- The table of a `.coz` profile. -/
def cozTable (float : Text → Option ℚ) (profile : List ThroughputExperiment) :
    Option (List (Index × ℚ)) :=
  match (profile.flatMap ThroughputExperiment.lines).foldlM (parseLine float) ⟨none, ∅⟩ with
  | none => none
  | some st => getSpeedupData st.data

/-! ## Agreement -/

/-- The samples of a profile, each with its key. -/
def measured (profile : List ThroughputExperiment) : List (Key × Sample) :=
  profile.flatMap fun e => e.progressPoints.map fun pts => (e.key pts, e.sample pts)

/-- The program speedup of a key, from its samples and those of its baseline. -/
def programSpeedup (profile : List ThroughputExperiment) (k : Key) : ℚ :=
  (Sample.mean (group k.baseline (measured profile)) - Sample.mean (group k (measured profile))) /
    Sample.mean (group k.baseline (measured profile)) * 100

/-- Both forms have a table, which has the key's program speedup if it is in range. -/
structure Agree (float : Text → Option ℚ) (profile : List ThroughputExperiment) (k : Key) : Prop where
  json : ∃ table, analyse (fun _ => true) (fun _ => true) (profile.map (·.json)) = .ok table ∧
    ∀ x, (k, x) ∈ table ↔ x = programSpeedup profile k ∧ -100 ≤ x ∧ x ≤ 200
  coz : ∃ table, cozTable float profile = some table ∧
    ∀ x, (k.index, x) ∈ table ↔ x = programSpeedup profile k ∧ -100 ≤ x ∧ x ≤ 200

/-! ## Shapes -/

/-- An experiment without its duration and its counts. -/
structure Shape where
  selection : PlainSelection
  virtualSpeedup : ℕ
  names : List Name

def ThroughputExperiment.shape (e : ThroughputExperiment) : Shape :=
  ⟨e.selection, e.virtualSpeedup, e.progressPoints.map (·.name)⟩

def Shape.key (s : Shape) (name : Name) : Key := ⟨s.selection.1.selected, name, s.virtualSpeedup⟩

/-- The keys with samples. -/
def keysOf (shapes : List Shape) : List Key := shapes.flatMap fun s => s.names.map s.key

section Shapes

variable (float : Text → Option ℚ)

/-- All names can be read. -/
def Readable (shapes : List Shape) : Prop :=
  ∀ s ∈ shapes, readField float "selected" s.selection.1.selected ≠ none ∧
    ∀ name ∈ s.names, readField float "name" name.1 ≠ none

instance (shapes : List Shape) : Decidable (Readable float shapes) :=
  inferInstanceAs (Decidable (∀ s ∈ shapes, readField float "selected" s.selection.1.selected ≠ none ∧
    ∀ name ∈ s.names, readField float "name" name.1 ≠ none))

/-- The value of a field that can be read. -/
def fieldValue (key : String) (text : Text) : Value :=
  (readField float key text).getD (textValue text)

/-- The keys of the points of an experiment, each with the index its sample is added to, whose
speedup is a hundred times that of the point before. -/
def indicesOf (s : Shape) : ℚ → List Name → List (Key × Index)
  | _, [] => []
  | speedup, name :: names =>
    (s.key name, ⟨fieldValue float "selected" s.selection.1.selected, fieldValue float "name" name,
      speedup⟩) :: indicesOf s (100 * speedup) names

def indices (shapes : List Shape) : List (Key × Index) :=
  shapes.flatMap fun s => indicesOf float s s.virtualSpeedup s.names

/-- A key is read right if its baseline is the first row of the selection, and if its samples and
those of its baseline are the ones that are added to their indices. -/
structure ReadRight (shapes : List Shape) (k : Key) : Prop where
  readable : Readable float shapes
  first : IsLeast {i | i ∈ (indices float shapes).map Prod.snd ∧ i.selected = textValue k.selected}
    k.baseline.index
  own : k.speedup ≠ 0 → ∀ r ∈ indices float shapes,
    (r.2 = k.index ↔ r.1 = k) ∧ (r.2 = k.baseline.index ↔ r.1 = k.baseline)

end Shapes

/-! ## What is read -/

section Readings

variable (float : Text → Option ℚ)

/-- The samples of an experiment, with their keys and indices. -/
def readingsOf (e : ThroughputExperiment) : ℚ → List ThroughputPoint → List ((Key × Index) × Sample)
  | _, [] => []
  | speedup, pts :: points =>
    ((e.key pts, ⟨fieldValue float "selected" e.selection.1.selected,
      fieldValue float "name" pts.name, speedup⟩), e.sample pts) :: readingsOf e (100 * speedup) points

def readings (profile : List ThroughputExperiment) : List ((Key × Index) × Sample) :=
  profile.flatMap fun e => readingsOf float e e.virtualSpeedup e.progressPoints

theorem map_readingsOf (e : ThroughputExperiment) (speedup : ℚ) (points : List ThroughputPoint) :
    (readingsOf float e speedup points).map Prod.fst =
      indicesOf float e.shape speedup (points.map (·.name)) := by
  induction points generalizing speedup with
  | nil => rfl
  | cons pts points ih =>
    rw [readingsOf, List.map_cons, ih]
    rfl

theorem map_readings (profile : List ThroughputExperiment) :
    (readings float profile).map Prod.fst = indices float (profile.map (·.shape)) := by
  unfold readings indices
  rw [List.map_flatMap, List.flatMap_map]
  exact congrArg (fun f => List.flatMap f profile) (funext fun e => map_readingsOf float e _ _)

theorem map_key_readings (profile : List ThroughputExperiment) :
    (readings float profile).map (fun r => (r.1.1, r.2)) = measured profile := by
  unfold readings measured
  rw [List.map_flatMap]
  refine congrArg (fun f => List.flatMap f profile) (funext fun e => ?_)
  generalize (e.virtualSpeedup : ℚ) = speedup
  induction e.progressPoints generalizing speedup with
  | nil => rfl
  | cons pts points ih =>
    rw [readingsOf, List.map_cons, ih]
    rfl

theorem fieldValue_of_ne_none {float : Text → Option ℚ} {key : String} {text : Text} (h : readField float key text ≠ none) :
    readField float key text = some (fieldValue float key text) := by
  obtain ⟨value, hvalue⟩ := Option.ne_none_iff_exists'.mp h
  rw [fieldValue, hvalue]
  rfl

/-- Adds the samples to their indices. -/
def addReadings (data : OrderedMap Index Sample) (rs : List ((Key × Index) × Sample)) :
    OrderedMap Index Sample :=
  rs.foldl (fun data r => addThroughput data r.1.2 r.2) data

theorem parsePoints_eq (e : ThroughputExperiment) (points : List ThroughputPoint) (speedup : ℚ)
    (data : OrderedMap Index Sample) :
    ∃ st : ParseState,
      (points.map fun pts => Line.throughputPoint pts.name pts.delta).foldlM (parseLine float)
        ⟨some (fieldValue float "selected" e.selection.1.selected, speedup, e.duration), data⟩ =
        (if ∀ pts ∈ points, readField float "name" pts.name.1 ≠ none then some st else none) ∧
      st.data = addReadings data (readingsOf float e (100 * speedup) points) := by
  induction points generalizing speedup data with
  | nil => exact ⟨_, (if_pos fun _ h => absurd h List.not_mem_nil).symm, rfl⟩
  | cons pts points ih =>
    obtain ⟨st, hst, hdata⟩ := ih (100 * speedup)
      (addThroughput data ⟨fieldValue float "selected" e.selection.1.selected,
        fieldValue float "name" pts.name, 100 * speedup⟩ (e.sample pts))
    refine ⟨st, ?_, hdata⟩
    rw [List.map_cons, List.foldlM_cons]
    by_cases hname : readField float "name" pts.name.1 = none
    · rw [if_neg fun h => h pts List.mem_cons_self hname]
      simp only [parseLine, hname]
      rfl
    · simp only [parseLine, fieldValue_of_ne_none hname]
      refine hst.trans ?_
      simp only [List.forall_mem_cons, hname, ne_eq, not_false_eq_true, true_and]

theorem parse_eq (profile : List ThroughputExperiment) (st : ParseState) :
    ∃ st' : ParseState,
      (profile.flatMap ThroughputExperiment.lines).foldlM (parseLine float) st =
        (if Readable float (profile.map (·.shape)) then some st' else none) ∧
      st'.data = addReadings st.data (readings float profile) := by
  induction profile generalizing st with
  | nil => exact ⟨st, (if_pos fun _ h => absurd h List.not_mem_nil).symm, rfl⟩
  | cons e profile ih =>
    obtain ⟨st', hst', hdata'⟩ := parsePoints_eq float e e.progressPoints
      (e.virtualSpeedup / 100) st.data
    obtain ⟨st'', hst'', hdata''⟩ := ih st'
    refine ⟨st'', ?_, ?_⟩
    · rw [List.flatMap_cons, List.foldlM_append, ThroughputExperiment.lines, List.foldlM_cons]
      have hcons : Readable float ((e :: profile).map (·.shape)) ↔
          (readField float "selected" e.selection.1.selected ≠ none ∧
            ∀ pts ∈ e.progressPoints, readField float "name" pts.name.1 ≠ none) ∧
            Readable float (profile.map (·.shape)) := by
        rw [List.map_cons, Readable, List.forall_mem_cons, Readable]
        simp [ThroughputExperiment.shape]
      by_cases hselected : readField float "selected" e.selection.1.selected = none
      · rw [if_neg fun h => (hcons.mp h).1.1 hselected]
        simp only [parseLine, hselected]
        rfl
      · simp only [parseLine, fieldValue_of_ne_none hselected, Option.map_some,
          Option.bind_eq_bind, Option.bind_some, hst']
        by_cases hnames : ∀ pts ∈ e.progressPoints, readField float "name" pts.name.1 ≠ none
        · rw [if_pos hnames, Option.bind_some, hst'']
          simp only [hcons.trans (and_iff_right ⟨hselected, hnames⟩)]
        · rw [if_neg hnames, Option.bind_none, if_neg fun h => hnames (hcons.mp h).1.2]
    · rw [hdata'', hdata', mul_div_cancel₀ _ (by norm_num)]
      exact (List.foldl_append ..).symm

theorem get?_addReadings (data : OrderedMap Index Sample) (rs : List ((Key × Index) × Sample))
    (i : Index) :
    OrderedMap.get? (addReadings data rs) i =
      ((rs.filter fun r => r.1.2 = i).map Prod.snd).foldl
        (fun o s => some (o.elim s fun t => t.add s)) (OrderedMap.get? data i) := by
  induction rs generalizing data with
  | nil => rfl
  | cons r rs ih =>
    show OrderedMap.get? (addReadings (addThroughput data r.1.2 r.2) rs) i = _
    rw [ih, addThroughput, OrderedMap.get?_set]
    by_cases hi : r.1.2 = i
    · rw [List.filter_cons_of_pos (by simpa using hi), List.map_cons, List.foldl_cons,
        if_pos hi.symm, hi]
    · rw [List.filter_cons_of_neg (by simpa using hi), if_neg (Ne.symm hi)]

/-- The sums of the samples, index by index. -/
def IsData (profile : List ThroughputExperiment) (data : OrderedMap Index Sample) : Prop :=
  ∀ i, data.get? i =
    Sample.total (((readings float profile).filter fun r => r.1.2 = i).map Prod.snd)

/-- The table is read if all names can be. -/
theorem cozTable_eq (profile : List ThroughputExperiment) :
    ∃ data, IsData float profile data ∧ cozTable float profile =
      if Readable float (profile.map (·.shape)) then getSpeedupData data else none := by
  obtain ⟨st, hst, hdata⟩ := parse_eq float profile ⟨none, ∅⟩
  refine ⟨st.data, fun i => ?_, ?_⟩
  · rw [hdata, get?_addReadings]
    rfl
  · rw [cozTable, hst]
    by_cases hreadable : Readable float (profile.map (·.shape))
    · rw [if_pos hreadable, if_pos hreadable]
    · rw [if_neg hreadable, if_neg hreadable]

theorem group_measured (profile : List ThroughputExperiment) (k : Key) :
    group k (measured profile) =
      ((readings float profile).filter fun r => r.1.1 = k).map Prod.snd := by
  rw [← map_key_readings float, group, List.filter_map, List.map_map]
  rfl

end Readings

/-! ## Rows -/

section Rows

variable {rows : List (Index × Sample)} {data : OrderedMap Index Sample} {curr selected : Value}
  {base x : ℚ} {i : Index} {s : Sample}

/-- What the rows of a selection are relative to. -/
def baselineOf (curr : Value) (base : ℚ) (rows : List (Index × Sample)) (selected : Value) : ℚ :=
  if selected = curr then base
  else (rows.find? fun r => r.1.selected = selected).elim 0 fun r => r.2.rate

theorem baselineOf_head (curr : Value) (base : ℚ) (i : Index) (s : Sample)
    (rows : List (Index × Sample)) :
    baselineOf curr base ((i, s) :: rows) i.selected =
      if curr ≠ i.selected then s.rate else base := by
  unfold baselineOf
  by_cases h : i.selected = curr
  · rw [if_pos h, if_neg (not_not.mpr h.symm)]
  · rw [if_neg h, if_pos (Ne.symm h), List.find?_cons_of_pos (by simp)]
    rfl

theorem mem_ite_cons {α : Type} {c : Prop} [Decidable c] {y z : α} {l : List α} :
    y ∈ (if c then z :: l else l) ↔ (c ∧ y = z) ∨ y ∈ l := by
  split_ifs with h
  · simp [h]
  · simp [h]

/-- A row's value is in the table if it is in range. -/
def IsRow (base : ℚ) (s : Sample) (x : ℚ) : Prop :=
  x = (base - s.rate) / base * 100 ∧ -100 ≤ x ∧ x ≤ 200

theorem isRow_iff {base : ℚ} {s : Sample} {x : ℚ} :
    ((-1 ≤ (base - s.rate) / base ∧ (base - s.rate) / base ≤ 2) ∧
      x = 100 * ((base - s.rate) / base)) ↔ IsRow base s x := by
  unfold IsRow
  generalize (base - s.rate) / base = p
  constructor
  · rintro ⟨⟨hlow, hhigh⟩, rfl⟩
    exact ⟨mul_comm _ _, by linarith, by linarith⟩
  · rintro ⟨rfl, hlow, hhigh⟩
    exact ⟨⟨by linarith, by linarith⟩, mul_comm _ _⟩

/-- The running baseline of a sorted table is that of the row's selection. -/
theorem mem_speedupRows (hsorted : rows.Pairwise fun a b => a.1 < b.1)
    (hcurr : ∀ r ∈ rows, curr ≤ r.1.selected) :
    (i, x) ∈ speedupRows curr base rows ↔
      ∃ s, (i, s) ∈ rows ∧ IsRow (baselineOf curr base rows i.selected) s x := by
  induction rows generalizing curr base with
  | nil => exact iff_of_false List.not_mem_nil fun ⟨_, h, _⟩ => List.not_mem_nil h
  | cons r rows ih =>
    obtain ⟨j, t⟩ := r
    obtain ⟨hfirst, hrows⟩ := List.pairwise_cons.mp hsorted
    rw [speedupRows, mem_ite_cons, ← baselineOf_head curr base j t rows,
      ih hrows fun r hr => Index.selected_le (hfirst r hr).le, Prod.mk.injEq, and_left_comm,
      isRow_iff]
    have hrest : ∀ s, (i, s) ∈ rows →
        baselineOf j.selected (baselineOf curr base ((j, t) :: rows) j.selected) rows i.selected =
          baselineOf curr base ((j, t) :: rows) i.selected := by
      intro s hs
      by_cases hij : i.selected = j.selected
      · rw [hij, baselineOf, if_pos rfl]
      · have hle : j.selected ≤ i.selected := Index.selected_le (hfirst _ hs).le
        have hne : i.selected ≠ curr := fun h =>
          hij (le_antisymm (h ▸ hcurr (j, t) List.mem_cons_self) hle)
        rw [baselineOf, if_neg hij, baselineOf, if_neg hne,
          List.find?_cons_of_neg (by simpa using Ne.symm hij)]
    constructor
    · rintro (⟨rfl, hrow⟩ | ⟨s, hs, hrow⟩)
      · exact ⟨t, List.mem_cons_self, hrow⟩
      · rw [hrest s hs] at hrow
        exact ⟨s, List.mem_cons_of_mem _ hs, hrow⟩
    · rintro ⟨s, hs, hrow⟩
      rcases List.mem_cons.mp hs with heq | hs
      · cases heq
        exact Or.inl ⟨rfl, hrow⟩
      · rw [← hrest s hs] at hrow
        exact Or.inr ⟨s, hs, hrow⟩

theorem find?_eq_first {i₀ : Index} {s₀ : Sample} (hs₀ : data.get? i₀ = some s₀)
    (hleast : ∀ j s, data.get? j = some s → j.selected = i₀.selected → i₀ ≤ j) :
    data.items.find? (fun r => r.1.selected = i₀.selected) = some (i₀, s₀) := by
  have hmem := OrderedMap.mem_of_get? hs₀
  obtain ⟨front, back, hitems⟩ := List.append_of_mem hmem
  rw [List.find?_eq_some_iff_append]
  refine ⟨by simp, front, back, hitems, ?_⟩
  rintro ⟨j, s⟩ hj
  have hsorted := data.sorted
  rw [hitems] at hsorted
  have hlt : j < i₀ := (List.pairwise_append.mp hsorted).2.2 (j, s) hj _ List.mem_cons_self
  have hjs : data.get? j = some s :=
    OrderedMap.get?_of_mem (hitems ▸ List.mem_append_left _ hj)
  have hne : j.selected ≠ i₀.selected := fun h => (hleast j s hjs h).not_gt hlt
  simpa using hne

theorem speedupRows_head (curr : Value) (i : Index) (s : Sample) (rows : List (Index × Sample)) :
    speedupRows curr s.rate ((i, s) :: rows) = speedupRows i.selected s.rate ((i, s) :: rows) := by
  simp only [speedupRows, ite_self]

theorem exists_of_mem_speedupRows (h : (i, x) ∈ speedupRows curr base rows) :
    ∃ s, (i, s) ∈ rows := by
  induction rows generalizing curr base with
  | nil => cases h
  | cons r rows ih =>
    rw [speedupRows, mem_ite_cons] at h
    rcases h with ⟨-, heq⟩ | h
    · cases heq
      exact ⟨r.2, List.mem_cons_self⟩
    · obtain ⟨s, hs⟩ := ih h
      exact ⟨s, List.mem_cons_of_mem r hs⟩

theorem get?_of_mem_getSpeedupData {table : List (Index × ℚ)}
    (h : getSpeedupData data = some table) (hi : (i, x) ∈ table) : ∃ s, data.get? i = some s := by
  unfold getSpeedupData at h
  split at h
  · cases h
  · rw [← Option.some.inj h] at hi
    obtain ⟨s, hs⟩ := exists_of_mem_speedupRows hi
    exact ⟨s, OrderedMap.get?_of_mem hs⟩

/-- The rows of a selection are relative to its first row. -/
theorem mem_getSpeedupData {i₀ : Index} {s₀ : Sample} {table : List (Index × ℚ)}
    (h : getSpeedupData data = some table) (hs₀ : data.get? i₀ = some s₀)
    (hleast : ∀ j s, data.get? j = some s → j.selected = i₀.selected → i₀ ≤ j)
    (hi : i.selected = i₀.selected) :
    (i, x) ∈ table ↔ ∃ s, data.get? i = some s ∧ IsRow s₀.rate s x := by
  have hfind := find?_eq_first hs₀ hleast
  have hsorted := data.sorted
  have hget : ∀ s, data.get? i = some s ↔ (i, s) ∈ data.items := fun s =>
    ⟨OrderedMap.mem_of_get?, OrderedMap.get?_of_mem⟩
  simp only [hget]
  unfold getSpeedupData at h
  generalize data.items = rows at h hfind hsorted
  cases rows with
  | nil => cases h
  | cons r rows =>
    obtain ⟨j, t⟩ := r
    rw [← Option.some.inj h, speedupRows_head, mem_speedupRows hsorted]
    · have hbaseline : baselineOf j.selected t.rate ((j, t) :: rows) i.selected = s₀.rate := by
        by_cases hij : i.selected = j.selected
        · rw [List.find?_cons_of_pos (by simpa [hi] using hij.symm.trans hi)] at hfind
          cases hfind
          rw [baselineOf, if_pos hij]
        · rw [baselineOf, if_neg hij, hi, hfind]
          rfl
      rw [hbaseline]
    · intro r hr
      rcases List.mem_cons.mp hr with rfl | hr
      · exact le_refl _
      · exact Index.selected_le ((List.pairwise_cons.mp hsorted).1 r hr).le

end Rows

/-! ## The `.json` form -/

section Json

variable {profile : List ThroughputExperiment} {k : Key}

def Sample.recorded (s : Sample) : Recorded := .throughput s.delta s.duration

theorem recorded_json (profile : List ThroughputExperiment) :
    recorded (fun _ => true) (fun _ => true) (profile.map (·.json)) =
      (measured profile).map fun p => (p.1, Sample.recorded p.2) := by
  unfold recorded measured
  rw [List.filter_true, List.flatMap_map, List.map_flatMap]
  refine congrArg (fun f => List.flatMap f profile) (funext fun e => ?_)
  have hpoint : ∀ pts : ThroughputPoint,
      (recordedOf (fun _ => true) e.json ⟨pts.name, .delta pts.delta none⟩).map
        (fun r => (e.json.key ⟨pts.name, .delta pts.delta none⟩, r)) =
        [(e.key pts, Sample.recorded (e.sample pts))] := by
    intro pts
    rw [recordedOf, if_neg (by decide)]
    exact congrArg (List.map _) (if_pos pts.delta.2)
  show List.flatMap _ (e.progressPoints.map _) = _
  rw [List.flatMap_map, List.map_map, List.map_eq_flatMap]
  exact congrArg (fun f => List.flatMap f e.progressPoints) (funext hpoint)

theorem group_recorded_json (profile : List ThroughputExperiment) (k : Key) :
    group k (recorded (fun _ => true) (fun _ => true) (profile.map (·.json))) =
      (group k (measured profile)).map Sample.recorded := by
  rw [recorded_json, group, List.filter_map, List.map_map, group, List.map_map]
  rfl

theorem dataOf_recorded {l : List Sample} (h : l ≠ []) :
    Recorded.dataOf (l.map Sample.recorded) =
      some (.throughput (l.map fun s => (s.delta : ℚ)) (l.map fun s => (s.duration : ℚ))) := by
  cases l with
  | nil => exact absurd rfl h
  | cons s l =>
    rw [List.map_cons, Recorded.dataOf, if_neg (by exact Bool.false_ne_true)]
    simp only [List.map_cons, List.map_map]
    rfl

theorem consistent_recorded (l : List Sample) : Recorded.Consistent (l.map Sample.recorded) := by
  cases l with
  | nil => trivial
  | cons s l =>
    refine ⟨?_, fun h => absurd h Bool.false_ne_true⟩
    intro r hr
    obtain ⟨t, -, rfl⟩ := List.mem_map.mp (show r ∈ List.map Sample.recorded (s :: l) from hr)
    exact fun h => by cases h

theorem map_fst_measured (profile : List ThroughputExperiment) :
    (measured profile).map Prod.fst = keysOf (profile.map (·.shape)) := by
  unfold measured keysOf
  rw [List.map_flatMap, List.flatMap_map]
  refine congrArg (fun f => List.flatMap f profile) (funext fun e => ?_)
  rw [ThroughputExperiment.shape, List.map_map, List.map_map]
  rfl

theorem mem_keysOf_iff : k ∈ keysOf (profile.map (·.shape)) ↔ group k (measured profile) ≠ [] := by
  rw [← map_fst_measured, List.mem_map]
  constructor
  · rintro ⟨p, hp, rfl⟩ hnil
    have hmem := mem_group.mpr hp
    rw [hnil] at hmem
    cases hmem
  · intro hne
    obtain ⟨s, hs⟩ := List.exists_mem_of_ne_nil _ hne
    exact ⟨_, mem_group.mp hs, rfl⟩

/-- The table of the `.json` form is the one that is meant. -/
theorem json_agrees (hk : k ∈ keysOf (profile.map (·.shape)))
    (hbaseline : k.baseline ∈ keysOf (profile.map (·.shape))) :
    ∃ table, analyse (fun _ => true) (fun _ => true) (profile.map (·.json)) = .ok table ∧
      ∀ x, (k, x) ∈ table ↔ x = programSpeedup profile k ∧ -100 ≤ x ∧ x ≤ 200 := by
  obtain ⟨data, hdata⟩ := (processData_iff (fun _ => true) (fun _ => true)
    (profile.map (·.json))).mpr fun k => by
      rw [group_recorded_json]
      exact consistent_recorded _
  have hne : withBaseline [] data ≠ [] := by
    refine (exists_baseline_iff hdata).mpr ?_
    obtain ⟨s, hs⟩ := List.exists_mem_of_ne_nil _ (mem_keysOf_iff.mp hbaseline)
    refine ⟨(k.baseline, Sample.recorded s), mem_group.mp ?_, rfl⟩
    rw [group_recorded_json]
    exact List.mem_map_of_mem hs
  refine ⟨rowsOf (withBaseline [] data), ?_, fun x => ?_⟩
  · rw [analyse, hdata]
    show computeSpeedups [] data = _
    rw [computeSpeedups_eq hdata, if_neg hne]
  · rw [(isTable_rowsOf hdata).rows, group_recorded_json, group_recorded_json,
      dataOf_recorded (mem_keysOf_iff.mp hk), dataOf_recorded (mem_keysOf_iff.mp hbaseline)]
    constructor
    · rintro ⟨d, b, hd, hb, hx, hrange⟩
      rw [hx, ← Option.some.inj hd, ← Option.some.inj hb] at *
      exact ⟨rfl, hrange⟩
    · rintro ⟨hx, hrange⟩
      exact ⟨_, _, rfl, rfl, hx, hrange⟩

end Json

/-! ## The `.coz` form -/

section Coz

variable {float : Text → Option ℚ} {profile : List ThroughputExperiment}
  {data : OrderedMap Index Sample} {shapes : List Shape} {k : Key} {i : Index}

theorem mem_indices_iff (hdata : IsData float profile data) :
    i ∈ (indices float (profile.map (·.shape))).map Prod.snd ↔ ∃ s, data.get? i = some s := by
  rw [← Option.ne_none_iff_exists', hdata i, Ne, Sample.total_eq_none_iff, List.map_eq_nil_iff,
    List.filter_eq_nil_iff, ← map_readings, List.map_map, List.mem_map]
  simp

theorem rate_of_isData (hdata : IsData float profile data) {s : Sample}
    (h : data.get? i = some s) :
    s.rate = Sample.mean (((readings float profile).filter fun r => r.1.2 = i).map Prod.snd) :=
  Sample.rate_of_total ((hdata i).symm.trans h)

theorem exists_getSpeedupData {s : Sample} (h : data.get? i = some s) :
    ∃ table, getSpeedupData data = some table := by
  have hmem := OrderedMap.mem_of_get? h
  unfold getSpeedupData
  cases hitems : data.items with
  | nil =>
    rw [hitems] at hmem
    cases hmem
  | cons r rows => exact ⟨_, rfl⟩

theorem baseline_eq_self (h : k.speedup = 0) : k.baseline = k := by
  rw [Key.baseline, ← h]

theorem mem_indices_of_mem_readings {r : (Key × Index) × Sample} (h : r ∈ readings float profile) :
    r.1 ∈ indices float (profile.map (·.shape)) := by
  rw [← map_readings]
  exact List.mem_map_of_mem h

/-- A table whose samples are read right is the one that is meant. -/
theorem coz_agrees (h : ReadRight float (profile.map (·.shape)) k)
    (hk : k ∈ keysOf (profile.map (·.shape))) :
    ∃ table, cozTable float profile = some table ∧
      ∀ x, (k.index, x) ∈ table ↔ x = programSpeedup profile k ∧ -100 ≤ x ∧ x ≤ 200 := by
  obtain ⟨data, hdata, hcoz⟩ := cozTable_eq float profile
  rw [if_pos h.readable] at hcoz
  obtain ⟨s₀, hs₀⟩ := (mem_indices_iff hdata).mp h.first.1.1
  obtain ⟨table, htable⟩ := exists_getSpeedupData hs₀
  refine ⟨table, hcoz.trans htable, fun x => ?_⟩
  have hleast : ∀ j s, data.get? j = some s → j.selected = k.baseline.index.selected →
      k.baseline.index ≤ j :=
    fun j s hj hselected => h.first.2 ⟨(mem_indices_iff hdata).mpr ⟨s, hj⟩, hselected⟩
  rw [mem_getSpeedupData htable hs₀ hleast (i := k.index) rfl]
  by_cases hspeedup : k.speedup = 0
  · rw [programSpeedup, baseline_eq_self hspeedup, sub_self, zero_div, zero_mul]
    rw [baseline_eq_self hspeedup] at hs₀
    constructor
    · rintro ⟨s, hs, hx, hrange⟩
      rw [Option.some.inj (hs.symm.trans hs₀), sub_self, zero_div, zero_mul] at hx
      exact ⟨hx, hrange⟩
    · rintro ⟨hx, hrange⟩
      refine ⟨s₀, hs₀, ?_, hrange⟩
      rw [hx, sub_self, zero_div, zero_mul]
  · have hown := h.own hspeedup
    have hgroup : ((readings float profile).filter fun r => r.1.2 = k.index).map Prod.snd =
        group k (measured profile) := by
      rw [group_measured float]
      refine congrArg _ (List.filter_congr fun r hr => decide_eq_decide.mpr ?_)
      exact (hown r.1 (mem_indices_of_mem_readings hr)).1
    have hbaseline : ((readings float profile).filter fun r => r.1.2 = k.baseline.index).map Prod.snd =
        group k.baseline (measured profile) := by
      rw [group_measured float]
      refine congrArg _ (List.filter_congr fun r hr => decide_eq_decide.mpr ?_)
      exact (hown r.1 (mem_indices_of_mem_readings hr)).2
    obtain ⟨s, hs, hrate⟩ := Sample.exists_total (mem_keysOf_iff.mp hk)
    have hget : data.get? k.index = some s := by
      rw [hdata, hgroup, hs]
    rw [programSpeedup, ← hrate, ← hbaseline, ← rate_of_isData hdata hs₀]
    constructor
    · rintro ⟨t, ht, hrow⟩
      rwa [Option.some.inj (ht.symm.trans hget)] at hrow
    · intro hrow
      exact ⟨s, hget, hrow⟩

/-! A profile of a shape that tells the samples of some keys and indices apart. -/

def weighedPoints (float : Text → Option ℚ) (w : Key × Index → Bool) (s : Shape) :
    ℚ → List Name → List ThroughputPoint
  | _, [] => []
  | speedup, name :: names =>
    ⟨name, (weigh w (s.key name, ⟨fieldValue float "selected" s.selection.1.selected,
      fieldValue float "name" name, speedup⟩)).delta⟩ :: weighedPoints float w s (100 * speedup) names

def weighed (float : Text → Option ℚ) (w : Key × Index → Bool) (shapes : List Shape) :
    List ThroughputExperiment :=
  shapes.map fun s => ⟨s.selection, s.virtualSpeedup, Positive.one,
    weighedPoints float w s s.virtualSpeedup s.names⟩

theorem map_weighedPoints (w : Key × Index → Bool) (s : Shape) (speedup : ℚ) (names : List Name) :
    (weighedPoints float w s speedup names).map (·.name) = names := by
  induction names generalizing speedup with
  | nil => rfl
  | cons name names ih =>
    rw [weighedPoints, List.map_cons, ih]

theorem shape_weighed (w : Key × Index → Bool) (shapes : List Shape) :
    (weighed float w shapes).map (·.shape) = shapes := by
  rw [weighed, List.map_map]
  refine (List.map_congr_left fun s _ => ?_).trans (List.map_id shapes)
  show (⟨s.selection, s.virtualSpeedup, (weighedPoints float w s _ s.names).map (·.name)⟩ : Shape) = s
  rw [map_weighedPoints]

theorem readingsOf_weighed (w : Key × Index → Bool) (s : Shape) (points : List ThroughputPoint)
    (speedup : ℚ) (names : List Name) :
    readingsOf float ⟨s.selection, s.virtualSpeedup, Positive.one, points⟩ speedup
      (weighedPoints float w s speedup names) =
      (indicesOf float s speedup names).map fun r => (r, weigh w r) := by
  induction names generalizing speedup with
  | nil => rfl
  | cons name names ih =>
    rw [weighedPoints, readingsOf, ih]
    rfl

theorem readings_weighed (w : Key × Index → Bool) (shapes : List Shape) :
    readings float (weighed float w shapes) = (indices float shapes).map fun r => (r, weigh w r) := by
  unfold readings weighed indices
  rw [List.flatMap_map, List.map_flatMap]
  exact congrArg (fun f => List.flatMap f shapes) (funext fun s => readingsOf_weighed w s _ _ _)

/-- The mean of the samples that a predicate takes, in a weighed profile. -/
theorem mean_readings_weighed (w p : Key × Index → Bool) (shapes : List Shape) :
    Sample.mean (((readings float (weighed float w shapes)).filter fun r => p r.1).map Prod.snd) =
      Sample.mean (((indices float shapes).filter p).map (weigh w)) := by
  rw [readings_weighed, List.filter_map, List.map_map]
  rfl

/-! A profile of each weight, in one form. -/

def weight (float : Text → Option ℚ) (w p : Key × Index → Bool) (shapes : List Shape) : ℚ :=
  Sample.mean (((indices float shapes).filter p).map (weigh w))

theorem keysOf_eq (float : Text → Option ℚ) (shapes : List Shape) : (indices float shapes).map Prod.fst = keysOf shapes := by
  unfold indices keysOf
  rw [List.map_flatMap]
  refine congrArg (fun f => List.flatMap f shapes) (funext fun s => ?_)
  generalize (s.virtualSpeedup : ℚ) = speedup
  induction s.names generalizing speedup with
  | nil => rfl
  | cons name names ih =>
    rw [indicesOf, List.map_cons, ih]
    rfl

theorem programSpeedup_weighed (w : Key × Index → Bool) (shapes : List Shape) (k : Key) :
    programSpeedup (weighed float w shapes) k =
      (weight float w (fun r => r.1 = k.baseline) shapes - weight float w (fun r => r.1 = k) shapes) /
        weight float w (fun r => r.1 = k.baseline) shapes * 100 := by
  unfold programSpeedup weight
  rw [group_measured float, group_measured float,
    mean_readings_weighed w (fun r => decide (r.1 = k)),
    mean_readings_weighed w (fun r => decide (r.1 = k.baseline))]

theorem weight_mem (w : Key × Index → Bool) {p : Key × Index → Bool}
    (h : (indices float shapes).filter p ≠ []) :
    1 / 2 ≤ weight float w p shapes ∧ weight float w p shapes ≤ 1 :=
  mean_weigh_mem w h

/-- A speedup of means between a half and one is in range. -/
theorem speedup_mem {b d : ℚ} (hb : 1 / 2 ≤ b ∧ b ≤ 1) (hd : 1 / 2 ≤ d ∧ d ≤ 1) :
    -100 ≤ (b - d) / b * 100 ∧ (b - d) / b * 100 ≤ 200 := by
  have hpos : 0 < b := by linarith [hb.1]
  have hlow : -1 ≤ (b - d) / b := by
    rw [le_div_iff₀ hpos]
    linarith
  have hhigh : (b - d) / b ≤ 2 := by
    rw [div_le_iff₀ hpos]
    linarith
  constructor
  · linarith
  · linarith

theorem filter_key_ne_nil (float : Text → Option ℚ) (h : k ∈ keysOf shapes) :
    ((indices float shapes).filter fun r => r.1 = k) ≠ [] := by
  rw [← keysOf_eq float, List.mem_map] at h
  obtain ⟨r, hr, rfl⟩ := h
  exact List.ne_nil_of_mem (List.mem_filter.mpr ⟨hr, decide_eq_true rfl⟩)

/-- There are samples of a key and of its baseline. -/
def HasBaseline (shapes : List Shape) (k : Key) : Prop :=
  k ∈ keysOf shapes ∧ k.baseline ∈ keysOf shapes

theorem exists_isLeast {l : List Index} {selected : Value} (hi : i ∈ l)
    (hselected : i.selected = selected) : ∃ i₀, IsLeast {j | j ∈ l ∧ j.selected = selected} i₀ := by
  have hne : (l.filter fun j => j.selected = selected).toFinset.Nonempty :=
    ⟨i, List.mem_toFinset.mpr (List.mem_filter.mpr ⟨hi, decide_eq_true hselected⟩)⟩
  have hset : {j | j ∈ l ∧ j.selected = selected} =
      ↑(l.filter fun j => j.selected = selected).toFinset := by
    ext j
    simp
  rw [hset]
  exact ⟨_, Finset.isLeast_min' _ hne⟩

/-- The row of a key in the table of a weighed profile, if it is the one that is meant. -/
theorem row_weighed {w : Key × Index → Bool} (hk : HasBaseline shapes k)
    (hagree : Agree float (weighed float w shapes) k) :
    Readable float shapes ∧ k.index ∈ (indices float shapes).map Prod.snd ∧
      ∀ i₀, IsLeast {i | i ∈ (indices float shapes).map Prod.snd ∧
          i.selected = textValue k.selected} i₀ →
        (weight float w (fun r => r.2 = i₀) shapes - weight float w (fun r => r.2 = k.index) shapes) /
          weight float w (fun r => r.2 = i₀) shapes * 100 =
        (weight float w (fun r => r.1 = k.baseline) shapes -
          weight float w (fun r => r.1 = k) shapes) /
          weight float w (fun r => r.1 = k.baseline) shapes * 100 := by
  obtain ⟨table, htable, hrows⟩ := hagree.coz
  obtain ⟨data, hdata, hcoz⟩ := cozTable_eq float (weighed float w shapes)
  rw [hcoz, shape_weighed] at htable
  by_cases hreadable : Readable float shapes
  · rw [if_pos hreadable] at htable
    have hrange := speedup_mem (weight_mem w (filter_key_ne_nil float hk.2))
      (weight_mem w (filter_key_ne_nil float hk.1))
    have hrow := (hrows _).mpr ⟨rfl, (programSpeedup_weighed w shapes k).symm ▸ hrange⟩
    obtain ⟨s, hs⟩ := get?_of_mem_getSpeedupData htable hrow
    have hmem : ∀ i, i ∈ (indices float shapes).map Prod.snd ↔ ∃ s, data.get? i = some s := by
      intro i
      have h := mem_indices_iff (i := i) hdata
      rwa [shape_weighed] at h
    refine ⟨hreadable, (hmem _).mpr ⟨s, hs⟩, fun i₀ hleast => ?_⟩
    obtain ⟨s₀, hs₀⟩ := (hmem _).mp hleast.1.1
    have hfirst : ∀ j s, data.get? j = some s → j.selected = i₀.selected → i₀ ≤ j :=
      fun j s hj hselected => hleast.2 ⟨(hmem j).mpr ⟨s, hj⟩, hselected.trans hleast.1.2⟩
    obtain ⟨t, ht, hx, -⟩ := (mem_getSpeedupData htable hs₀ hfirst hleast.1.2.symm).mp hrow
    rw [rate_of_isData hdata hs₀, rate_of_isData hdata ht, programSpeedup_weighed,
      mean_readings_weighed w (fun r => decide (r.2 = i₀)),
      mean_readings_weighed w (fun r => decide (r.2 = k.index))] at hx
    exact hx.symm
  · rw [if_neg hreadable] at htable
    cases htable

theorem filter_index_ne_nil (h : i ∈ (indices float shapes).map Prod.snd) :
    ((indices float shapes).filter fun r => r.2 = i) ≠ [] := by
  obtain ⟨r, hr, rfl⟩ := List.mem_map.mp h
  exact List.ne_nil_of_mem (List.mem_filter.mpr ⟨hr, decide_eq_true rfl⟩)

theorem weight_pos {w p : Key × Index → Bool} (h : (indices float shapes).filter p ≠ []) :
    0 < weight float w p shapes := by
  linarith [(weight_mem w h).1]

/-- Had the baseline not been the first row, its own speedup would not be zero. -/
theorem first_of_agree (hk : HasBaseline shapes k)
    (h : ∀ w, Agree float (weighed float w shapes) k.baseline) :
    IsLeast {i | i ∈ (indices float shapes).map Prod.snd ∧ i.selected = textValue k.selected}
      k.baseline.index := by
  have hbaseline : HasBaseline shapes k.baseline := ⟨hk.2, hk.2⟩
  have hmem := (row_weighed hbaseline (h fun _ => false)).2.1
  obtain ⟨i₀, hleast⟩ := exists_isLeast hmem
    (show k.baseline.index.selected = textValue k.selected from rfl)
  by_cases heq : i₀ = k.baseline.index
  · rwa [heq] at hleast
  · have hrow := (row_weighed hbaseline (h fun r => r.2 = i₀)).2.2 i₀ hleast
    have hhalf : weight float (fun r => r.2 = i₀) (fun r => r.2 = i₀) shapes = 1 / 2 :=
      mean_weigh_eq_half (filter_index_ne_nil hleast.1.1) fun r hr => (List.mem_filter.mp hr).2
    have hone : weight float (fun r => r.2 = i₀) (fun r => r.2 = k.baseline.index) shapes = 1 := by
      refine mean_weigh_eq_one (filter_index_ne_nil hmem) fun r hr => ?_
      have hr := of_decide_eq_true (List.mem_filter.mp hr).2
      rw [decide_eq_true_eq, hr]
      exact Ne.symm heq
    have hself : k.baseline.baseline = k.baseline := rfl
    rw [hhalf, hone, hself, sub_self, zero_div, zero_mul] at hrow
    norm_num at hrow

/-- Had other samples been added, they could have been weighed to make a difference. -/
theorem own_of_agree (hk : HasBaseline shapes k) (hspeedup : k.speedup ≠ 0)
    (hfirst : IsLeast {i | i ∈ (indices float shapes).map Prod.snd ∧
      i.selected = textValue k.selected} k.baseline.index)
    (h : ∀ w, Agree float (weighed float w shapes) k) :
    ∀ r ∈ indices float shapes,
      (r.2 = k.index ↔ r.1 = k) ∧ (r.2 = k.baseline.index ↔ r.1 = k.baseline) := by
  have hmem := (row_weighed hk (h fun _ => false)).2.1
  have hp := filter_key_ne_nil float hk.1
  have hq := filter_key_ne_nil float hk.2
  have hp' := filter_index_ne_nil hmem
  have hq' := filter_index_ne_nil hfirst.1.1
  have hratio := iff_of_ratio hp hq hp' hq' ?_ ?_ ?_
  · intro r hr
    simpa using hratio r hr
  · intro r _ hr
    rw [of_decide_eq_true hr, decide_eq_true_eq]
    exact fun heq => hspeedup (congrArg Key.speedup heq)
  · intro r _ hr
    rw [of_decide_eq_true hr, decide_eq_true_eq]
    exact fun heq => hspeedup (congrArg Index.speedup heq)
  · intro w
    have hrow := (row_weighed hk (h w)).2.2 _ hfirst
    have hb := weight_pos (w := w) hq
    have hb' := weight_pos (w := w) hq'
    rw [mul_left_inj' (by norm_num), sub_div, sub_div, div_self hb.ne', div_self hb'.ne',
      sub_right_inj] at hrow
    exact hrow

/-- An experiment with two points, of which the second counts twice. -/
def pointsPQ (virtualSpeedup : ℕ) : ThroughputExperiment :=
  ⟨⟨⟨['a'], 1, [], 0⟩, by decide⟩, virtualSpeedup, Positive.one,
    [⟨⟨['p'], by decide⟩, Positive.one⟩, ⟨⟨['q'], by decide⟩, Positive.two⟩]⟩

def keyOf (point : Text) (speedup : ℚ) : Key := ⟨['a', ':', '1'], point, speedup⟩

/-- The second point of the second experiment is read with a speedup of a thousand percent. -/
def indicesPQ : List (Key × Index) :=
  [(keyOf ['p'] 0, (keyOf ['p'] 0).index), (keyOf ['q'] 0, (keyOf ['q'] 0).index),
    (keyOf ['p'] 10, (keyOf ['p'] 10).index), (keyOf ['q'] 10, (keyOf ['q'] 1000).index)]

theorem indices_pointsPQ :
    indices (fun _ => none) [(pointsPQ 0).shape, (pointsPQ 10).shape] = indicesPQ := by
  have hselected : fieldValue (fun _ => none) "selected" (['a'] ++ ':' :: (toString 1).toList) =
      textValue ['a', ':', '1'] := by
    rw [fieldValue, readField_of_not_mem _ (by decide) (by decide)]
    rfl
  have hname : ∀ c : Char, c ≠ '=' → fieldValue (fun _ => none) "name" [c] = textValue [c] := by
    intro c hc
    have hclean : '=' ∉ [c] := fun h => hc (List.mem_singleton.mp h).symm
    rw [fieldValue, readField_of_not_mem _ (by decide) hclean, getValue]
    split_ifs <;> rfl
  have hp := hname 'p' (by decide)
  have hq := hname 'q' (by decide)
  simp only [indices, indicesOf, List.flatMap_cons, List.flatMap_nil, ThroughputExperiment.shape,
    pointsPQ, List.map_cons, List.map_nil, Selection.selected, if_pos, List.append_nil]
  rw [hselected, hp, hq]
  decide +kernel

end Coz

end Python
end Rocprofsys
