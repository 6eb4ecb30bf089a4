import Mathlib.Data.String.Basic
import Rocprofsys.Base.LastOf
import Rocprofsys.Base.Run

namespace Rocprofsys
namespace Python

open Base

/-! ## Settings -/

def defaultExcludeFunctions : List String := ["^<.*>$"]

def defaultExcludeFilenames : List String := ["(encoder|decoder|threading).py$", "^<.*>$"]

/-- `config` without the part that events change, and whether profiling is paused;
`hasFormatArgValues` says that the interpreter still has `inspect.formatargvalues`. -/
structure Config where
  paused : ℤ := 0
  traceC : Bool := false
  includeInternal : Bool := false
  includeArgs : Bool := false
  includeLine : Bool := false
  includeFilename : Bool := false
  fullFilepath : Bool := false
  hasFormatArgValues : Bool := false
  baseModulePath : String := ""
  restrictFunctions : List String := []
  restrictFilenames : List String := []
  includeFunctions : List String := []
  includeFilenames : List String := []
  excludeFunctions : List String := defaultExcludeFunctions
  excludeFilenames : List String := defaultExcludeFilenames

/-- `get_config`: threads after the first one get a copy, in which a full path asks for the
filename. -/
def Config.ofThread (cfg : Config) (first : Bool) : Config :=
  if first then cfg
  else { cfg with includeFilename := cfg.includeFilename || cfg.fullFilepath }

/-! ## Events -/

/-- A frame, with `co_name` and `co_filename` of its code. -/
structure Frame where
  id : ℕ
  func : String
  full : String
  deriving DecidableEq, Repr

inductive EventKind where
  | call
  | cCall
  | return
  | cReturn
  | cException
  deriving DecidableEq, Repr

/-- The kinds that are supported. -/
inductive PyTrace where
  | call
  | cCall
  | return
  | cReturn
  deriving DecidableEq, Repr

/-- `what`. -/
def EventKind.what : EventKind → Option PyTrace
  | .call => some .call
  | .cCall => some .cCall
  | .return => some .return
  | .cReturn => some .cReturn
  | .cException => none

def PyTrace.isC : PyTrace → Bool
  | .cCall | .cReturn => true
  | .call | .return => false

/-- What the interpreter tells: for a C function, the frame is that which calls it. -/
structure Event where
  kind : EventKind
  frame : Frame
  lineno : ℕ
  /-- The arguments of the frame as `inspect` formats them. -/
  args : String
  deriving DecidableEq, Repr

/-- A region, told apart from others with its label by the number of the event that pushed it. -/
structure Region where
  serial : ℕ
  label : String
  deriving DecidableEq, Repr

/-- What has begun and not ended, with the region that was pushed for it, if one was. -/
structure Opened where
  frame : Frame
  isC : Bool
  region : Option Region
  deriving DecidableEq, Repr

/-- `ignore_stack_depth` and `records` with the newest first; next to them the number of the
events and what the stream has left open, the innermost first. -/
structure State where
  ignoreStackDepth : ℤ := 0
  records : List Region := []
  serial : ℕ := 0
  opened : List Opened := []
  deriving DecidableEq, Repr

/-! ## The profiler function -/

section Profiler

variable (regexSearch : String → String → Bool) (cfg : Config)

/-- `_find_matching`. -/
def findMatching (expr : List String) (name : String) : Bool :=
  expr.any fun itr => regexSearch itr name

/-- What the filters make of a frame. -/
inductive Filtered where
  | skip
  | exclude
  | pass
  deriving DecidableEq, Repr

/-- The filters in their order; `force` passes over those that follow. -/
def filter (frame : Frame) : Filtered :=
  if cfg.restrictFunctions ≠ [] ∧ !findMatching regexSearch cfg.restrictFunctions frame.func then
    .skip
  else
    let force := decide (cfg.restrictFunctions ≠ [])
    let included := findMatching regexSearch cfg.includeFunctions frame.func
    if !force ∧ !included ∧ findMatching regexSearch cfg.excludeFunctions frame.func then
      if findMatching regexSearch defaultExcludeFunctions frame.func then .skip else .exclude
    else
      let force := force || included
      if !cfg.includeInternal ∧ cfg.baseModulePath.toList <+: frame.full.toList then .skip
      else if !force ∧ cfg.restrictFilenames ≠ [] ∧
          !findMatching regexSearch cfg.restrictFilenames frame.full then
        .skip
      else
        let force := force || decide (cfg.restrictFilenames ≠ [])
        if !force ∧ !findMatching regexSearch cfg.includeFilenames frame.full ∧
            findMatching regexSearch cfg.excludeFilenames frame.full then
          .skip
        else .pass

/-- `_file`. -/
def fileOf (full : String) : String :=
  match lastOf '/' full.toList with
  | some pos => String.ofList (full.toList.drop (pos + 1))
  | none => full

/-- `_get_args`. -/
def getArgs (e : Event) : String := if cfg.hasFormatArgValues then "(" ++ e.args ++ ")" else ""

/-- `_get_label`. -/
def getLabel (e : Event) : String :=
  (if cfg.includeFilename then "[" else "") ++ e.frame.func ++
    (if cfg.includeArgs then getArgs cfg e else "") ++ (if cfg.includeFilename then "]" else "") ++
    (if cfg.includeFilename then
      "[" ++ if cfg.fullFilepath then e.frame.full else fileOf e.frame.full
    else "") ++
    (if cfg.includeLine ∧ cfg.includeFilename then ":" ++ toString e.lineno ++ "]"
    else if cfg.includeLine then ":" ++ toString e.lineno
    else if cfg.includeFilename then "]"
    else "")

/-- `_update_ignore_stack_depth`. -/
def updateIgnoreStackDepth (depth : ℤ) : PyTrace → ℤ
  | .call => depth + 1
  | .return => depth - 1
  | .cCall | .cReturn => depth

/-- `_profiler_call` and `_profiler_return`. -/
def process (label : String) (s : State) : PyTrace → State
  | .call | .cCall => { s with records := ⟨s.serial, label⟩ :: s.records }
  | .return | .cReturn => { s with records := s.records.tail }

def profilerFunction (e : Event) (s : State) : State :=
  if cfg.paused > 0 then s
  else
    match e.kind.what with
    | none => s
    | some what =>
      if s.ignoreStackDepth > 0 then
        { s with ignoreStackDepth := updateIgnoreStackDepth s.ignoreStackDepth what }
      else if !cfg.traceC ∧ what.isC then s
      else
        match filter regexSearch cfg e.frame with
        | .skip => s
        | .exclude =>
          { s with ignoreStackDepth := updateIgnoreStackDepth s.ignoreStackDepth what }
        | .pass =>
          let label := getLabel cfg e
          if label = "" then s else process label s what

/-! ## Streams -/

/-- The region that an event has pushed. -/
def pushed (s s' : State) : Option Region :=
  if s'.records.length > s.records.length then s'.records.head? else none

/-- An event of a properly nested stream: the end of what is innermost, or the return of a frame
whose call was not seen. -/
def step (s : State) (e : Event) : Option State :=
  let s' := { profilerFunction regexSearch cfg e s with serial := s.serial + 1 }
  match e.kind, s.opened with
  | .call, opened => some { s' with opened := ⟨e.frame, false, pushed s s'⟩ :: opened }
  | .cCall, opened => some { s' with opened := ⟨e.frame, true, pushed s s'⟩ :: opened }
  | .return, [] => some s'
  | .return, o :: rest =>
    if o.isC = false ∧ o.frame = e.frame then some { s' with opened := rest } else none
  | .cReturn, o :: rest | .cException, o :: rest =>
    if o.isC = true ∧ o.frame = e.frame then some { s' with opened := rest } else none
  | .cReturn, [] | .cException, [] => none

/-! ## What is asked for -/

/-- Whether a frame is excluded by an expression that is not a default. -/
def excluded (frame : Frame) : Bool :=
  decide (cfg.paused ≤ 0) && filter regexSearch cfg frame == .exclude

/-- The open Python frames, the outermost first. -/
def frames (opened : List Opened) : List Frame :=
  (opened.reverse.filter fun o => !o.isC).map Opened.frame

/-- The number of open Python frames from the outermost excluded one inwards. -/
def depthOf (opened : List Opened) : ℕ :=
  ((frames opened).dropWhile fun f => !excluded regexSearch cfg f).length

/-- The regions are those that were pushed for what is open, and the depth is right. -/
structure Right (s : State) : Prop where
  records : s.records = s.opened.filterMap Opened.region
  depth : s.ignoreStackDepth = depthOf regexSearch cfg s.opened

/-- Whether the labels of a frame have text, which lines and arguments do not change. -/
def hasLabel (frame : Frame) : Bool := decide (getLabel cfg ⟨.call, frame, 0, ""⟩ ≠ "")

/-- Whether a frame, or a C function that is called in it, is traced where nothing is ignored. -/
def traced (isC : Bool) (frame : Frame) : Bool :=
  decide (cfg.paused ≤ 0) && (!isC || cfg.traceC) && filter regexSearch cfg frame == .pass &&
    hasLabel cfg frame

/-- No traced C function ends with an exception, and no frame that is excluded returns without its
call having been seen. -/
def Allows (s : State) (e : Event) : Prop :=
  match e.kind with
  | .cException => traced regexSearch cfg true e.frame = false ∨ depthOf regexSearch cfg s.opened > 0
  | .return => s.opened = [] → excluded regexSearch cfg e.frame = false
  | .call | .cCall | .cReturn => True

end Profiler

/-! ## One event -/

variable {regexSearch : String → String → Bool} {cfg : Config} {s s' : State} {e : Event}

theorem getLabel_eq_empty_iff : getLabel cfg e = "" ↔ hasLabel cfg e.frame = false := by
  unfold hasLabel getLabel getArgs
  rw [decide_eq_false_iff_not, not_not]
  simp only [String.append_eq_empty_iff]
  cases cfg.includeFilename <;> cases cfg.includeArgs <;> cases cfg.includeLine <;>
    cases cfg.hasFormatArgValues <;> simp [String.append_eq_empty_iff]

/-- Where nothing is ignored, an event is that of a traced frame, of an excluded one or of none. -/
theorem profilerFunction_of_le (hdepth : s.ignoreStackDepth ≤ 0) {what : PyTrace}
    (hwhat : e.kind.what = some what) :
    profilerFunction regexSearch cfg e s =
      if traced regexSearch cfg what.isC e.frame then process (getLabel cfg e) s what
      else if excluded regexSearch cfg e.frame then
        { s with ignoreStackDepth := updateIgnoreStackDepth s.ignoreStackDepth what }
      else s := by
  have hkeep : what.isC = true → updateIgnoreStackDepth s.ignoreStackDepth what =
      s.ignoreStackDepth := by
    cases what <;> simp [PyTrace.isC, updateIgnoreStackDepth]
  unfold profilerFunction traced excluded
  rw [hwhat]
  by_cases hpaused : cfg.paused > 0
  · rw [if_pos hpaused, decide_eq_false (not_le.mpr hpaused)]
    rfl
  · rw [if_neg hpaused, decide_eq_true (not_lt.mp hpaused)]
    simp only [if_neg (not_lt.mpr hdepth), Bool.true_and]
    by_cases hc : !cfg.traceC ∧ what.isC
    · obtain ⟨htrace, hisC⟩ := hc
      have hoff : cfg.traceC = false := by
        rw [← Bool.not_eq_true', htrace]
      rw [if_pos ⟨htrace, hisC⟩, hkeep hisC, hisC, hoff]
      simp
    · have htrace : (!what.isC || cfg.traceC) = true := by
        cases hisC : what.isC <;> cases htraceC : cfg.traceC <;> simp_all
      rw [if_neg hc, htrace]
      cases hfilter : filter regexSearch cfg e.frame with
      | skip => rfl
      | exclude => rfl
      | pass =>
        cases hlabel : hasLabel cfg e.frame with
        | false =>
          show (if getLabel cfg e = "" then s else _) = _
          rw [if_pos (getLabel_eq_empty_iff.mpr hlabel)]
          rfl
        | true =>
          have hne : getLabel cfg e ≠ "" := by
            intro hempty
            rw [getLabel_eq_empty_iff.mp hempty] at hlabel
            cases hlabel
          show (if getLabel cfg e = "" then s else _) = _
          rw [if_neg hne]
          rfl

theorem profilerFunction_of_pos (hpaused : cfg.paused ≤ 0) (hdepth : s.ignoreStackDepth > 0)
    {what : PyTrace} (hwhat : e.kind.what = some what) :
    profilerFunction regexSearch cfg e s =
      { s with ignoreStackDepth := updateIgnoreStackDepth s.ignoreStackDepth what } := by
  unfold profilerFunction
  rw [hwhat, if_neg (not_lt.mpr hpaused)]
  exact if_pos hdepth

/-! ## What is open -/

theorem frames_cons (o : Opened) (rest : List Opened) :
    frames (o :: rest) = frames rest ++ if o.isC then [] else [o.frame] := by
  unfold frames
  rw [List.reverse_cons, List.filter_append, List.map_append, List.filter_singleton]
  cases o.isC <;> rfl

theorem depthOf_cons (o : Opened) (rest : List Opened) :
    depthOf regexSearch cfg (o :: rest) =
      if o.isC then depthOf regexSearch cfg rest
      else if depthOf regexSearch cfg rest > 0 then depthOf regexSearch cfg rest + 1
      else if excluded regexSearch cfg o.frame then 1 else 0 := by
  unfold depthOf
  rw [frames_cons]
  cases o.isC with
  | true => rw [if_pos rfl, if_pos rfl, List.append_nil]
  | false =>
    rw [if_neg Bool.false_ne_true, if_neg Bool.false_ne_true, List.dropWhile_append]
    generalize (frames rest).dropWhile (fun f => !excluded regexSearch cfg f) = inner
    cases inner with
    | nil => cases h : excluded regexSearch cfg o.frame <;> simp [h]
    | cons f inner => simp

theorem depthOf_isC {o : Opened} (rest : List Opened) (h : o.isC = true) :
    depthOf regexSearch cfg (o :: rest) = depthOf regexSearch cfg rest := by
  rw [depthOf_cons, if_pos h]

theorem paused_of_excluded {frame : Frame} (h : excluded regexSearch cfg frame = true) :
    cfg.paused ≤ 0 :=
  of_decide_eq_true (Bool.and_eq_true_iff.mp h).1

theorem paused_of_depthOf {opened : List Opened} (h : depthOf regexSearch cfg opened > 0) :
    cfg.paused ≤ 0 := by
  induction opened with
  | nil => exact absurd h (lt_irrefl 0)
  | cons o rest ih =>
    rw [depthOf_cons] at h
    split_ifs at h with hisC hrest hex
    · exact ih h
    · exact ih hrest
    · exact paused_of_excluded hex
    · exact absurd h (lt_irrefl 0)

theorem not_traced_of_excluded {frame : Frame} (h : excluded regexSearch cfg frame = true)
    (isC : Bool) : traced regexSearch cfg isC frame = false := by
  have hfilter := (Bool.and_eq_true_iff.mp h).2
  rw [beq_iff_eq] at hfilter
  unfold traced
  rw [hfilter]
  simp

/-- What is open was pushed exactly if it is traced and nothing excluded was open around it. -/
def Consistent (regexSearch : String → String → Bool) (cfg : Config) : List Opened → Prop
  | [] => True
  | o :: rest =>
    (o.region.isSome = true ↔
      depthOf regexSearch cfg rest = 0 ∧ traced regexSearch cfg o.isC o.frame = true) ∧
      Consistent regexSearch cfg rest

/-- The invariant of a right run. -/
structure Inv (regexSearch : String → String → Bool) (cfg : Config) (s : State) : Prop
    extends Right regexSearch cfg s where
  consistent : Consistent regexSearch cfg s.opened

theorem profilerFunction_of_right (hs : Right regexSearch cfg s) {what : PyTrace}
    (hwhat : e.kind.what = some what) :
    profilerFunction regexSearch cfg e s =
      if depthOf regexSearch cfg s.opened > 0 then
        { s with ignoreStackDepth := updateIgnoreStackDepth s.ignoreStackDepth what }
      else if traced regexSearch cfg what.isC e.frame then process (getLabel cfg e) s what
      else if excluded regexSearch cfg e.frame then
        { s with ignoreStackDepth := updateIgnoreStackDepth s.ignoreStackDepth what }
      else s := by
  have hdepth := hs.depth
  by_cases hpos : depthOf regexSearch cfg s.opened > 0
  · rw [if_pos hpos]
    exact profilerFunction_of_pos (paused_of_depthOf hpos) (by omega) hwhat
  · rw [if_neg hpos]
    exact profilerFunction_of_le (by omega) hwhat

/-- The invariant after something begins for which nothing is pushed. -/
theorem inv_unpushed (hs : Inv regexSearch cfg s) {s₁ : State} {frame : Frame} {isC : Bool}
    (hrecords : s₁.records = s.records)
    (hnot : depthOf regexSearch cfg s.opened = 0 → traced regexSearch cfg isC frame = false)
    (hdepth : s₁.ignoreStackDepth = depthOf regexSearch cfg (⟨frame, isC, none⟩ :: s.opened)) :
    Inv regexSearch cfg { s₁ with opened := ⟨frame, isC, pushed s s₁⟩ :: s.opened } := by
  have hpushed : pushed s s₁ = none := by
    unfold pushed
    rw [hrecords]
    exact if_neg (lt_irrefl _)
  rw [hpushed]
  refine ⟨⟨?_, hdepth⟩, ?_, hs.consistent⟩
  · exact hrecords.trans hs.records
  · refine ⟨nofun, fun h => ?_⟩
    rw [hnot h.1] at h
    exact absurd h.2 Bool.false_ne_true

/-- An event that begins something keeps the invariant. -/
theorem inv_begin (hs : Inv regexSearch cfg s) {what : PyTrace} (hwhat : e.kind.what = some what)
    (hbegin : what = .call ∨ what = .cCall) {s₁ : State}
    (hs₁ : s₁ = { profilerFunction regexSearch cfg e s with serial := s.serial + 1 }) :
    Inv regexSearch cfg { s₁ with opened := ⟨e.frame, what.isC, pushed s s₁⟩ :: s.opened } := by
  have hdepth := hs.depth
  rw [profilerFunction_of_right hs.toRight hwhat] at hs₁
  by_cases hpos : depthOf regexSearch cfg s.opened > 0
  · -- Something excluded is open around it.
    rw [if_pos hpos] at hs₁
    refine inv_unpushed hs (by rw [hs₁]) (fun h => absurd h hpos.ne') ?_
    rw [hs₁, depthOf_cons]
    rcases hbegin with rfl | rfl
    · simp [PyTrace.isC, updateIgnoreStackDepth, hpos, hdepth]
    · simp [PyTrace.isC, updateIgnoreStackDepth, hdepth]
  · rw [if_neg hpos] at hs₁
    have hzero : depthOf regexSearch cfg s.opened = 0 := by omega
    cases htraced : traced regexSearch cfg what.isC e.frame with
    | false =>
      rw [if_neg (htraced ▸ Bool.false_ne_true)] at hs₁
      refine inv_unpushed hs ?_ (fun _ => htraced) ?_
      · rw [hs₁]
        split_ifs <;> rfl
      · rw [hs₁, depthOf_cons]
        rcases hbegin with rfl | rfl
        · cases hex : excluded regexSearch cfg e.frame <;>
            simp [PyTrace.isC, updateIgnoreStackDepth, hzero, hdepth]
        · cases hex : excluded regexSearch cfg e.frame <;>
            simp [PyTrace.isC, updateIgnoreStackDepth, hzero, hdepth]
    | true =>
      rw [if_pos htraced] at hs₁
      have hprocess : process (getLabel cfg e) s what =
          { s with records := ⟨s.serial, getLabel cfg e⟩ :: s.records } := by
        rcases hbegin with rfl | rfl <;> rfl
      rw [hprocess] at hs₁
      have hpushed : pushed s s₁ = some ⟨s.serial, getLabel cfg e⟩ := by
        rw [hs₁]
        exact if_pos (Nat.lt_succ_self _)
      have hex : excluded regexSearch cfg e.frame = false := by
        by_contra hnot
        rw [not_traced_of_excluded (eq_true_of_ne_false hnot)] at htraced
        cases htraced
      rw [hpushed]
      refine ⟨⟨?_, ?_⟩, ?_, hs.consistent⟩
      · rw [hs₁]
        show _ :: s.records = _ :: s.opened.filterMap Opened.region
        rw [hs.records]
      · show s₁.ignoreStackDepth = _
        rw [hs₁, depthOf_cons]
        show s.ignoreStackDepth = _
        rw [hdepth, hzero, hex]
        simp
      · exact ⟨fun _ => ⟨hzero, htraced⟩, fun _ => rfl⟩

/-- The region of what is innermost, which is the newest record, if one was pushed for it. -/
theorem records_of_opened (hs : Inv regexSearch cfg s) {o : Opened} {rest : List Opened}
    (hopened : s.opened = o :: rest) :
    s.records = o.region.toList ++ rest.filterMap Opened.region := by
  rw [hs.records, hopened, List.filterMap_cons]
  cases o.region <;> rfl

theorem region_eq_none (hs : Inv regexSearch cfg s) {o : Opened} {rest : List Opened}
    (hopened : s.opened = o :: rest)
    (h : depthOf regexSearch cfg rest = 0 → traced regexSearch cfg o.isC o.frame = false) :
    o.region = none := by
  have hconsistent := hs.consistent
  rw [hopened] at hconsistent
  cases hregion : o.region with
  | none => rfl
  | some region =>
    obtain ⟨hzero, htraced⟩ := hconsistent.1.mp (by rw [hregion]; rfl)
    rw [h hzero] at htraced
    cases htraced

/-- The end of what is innermost keeps the invariant, unless it is an exception. -/
theorem inv_end (hs : Inv regexSearch cfg s) {what : PyTrace} (hwhat : e.kind.what = some what)
    {o : Opened} {rest : List Opened} (hopened : s.opened = o :: rest)
    (hend : what = .return ∧ o.isC = false ∨ what = .cReturn ∧ o.isC = true)
    (hframe : o.frame = e.frame) {s₁ : State}
    (hs₁ : s₁ = { profilerFunction regexSearch cfg e s with serial := s.serial + 1 }) :
    Inv regexSearch cfg { s₁ with opened := rest } := by
  have hdepth := hs.depth
  have hrecords := records_of_opened hs hopened
  have hconsistent := hs.consistent
  rw [hopened] at hconsistent hdepth
  have hisC : what.isC = o.isC := by
    rcases hend with ⟨rfl, h⟩ | ⟨rfl, h⟩ <;> exact h.symm
  have hcons := @depthOf_cons regexSearch cfg o rest
  rw [profilerFunction_of_right hs.toRight hwhat, hopened, hisC, ← hframe] at hs₁
  by_cases hpos : depthOf regexSearch cfg (o :: rest) > 0
  · rw [if_pos hpos] at hs₁
    have hregion : o.region = none := by
      refine region_eq_none hs hopened fun hzero => ?_
      rw [hcons, hzero] at hpos
      split_ifs at hpos with hc hinner hex
      · exact absurd hpos (lt_irrefl 0)
      · exact absurd hinner (lt_irrefl 0)
      · exact not_traced_of_excluded hex _
      · exact absurd hpos (lt_irrefl 0)
    rw [hregion] at hrecords
    refine ⟨⟨?_, ?_⟩, hconsistent.2⟩
    · rw [hs₁]
      exact hrecords
    · rw [hs₁]
      show updateIgnoreStackDepth s.ignoreStackDepth what = (depthOf regexSearch cfg rest : ℤ)
      rw [hcons] at hdepth hpos
      rcases hend with ⟨rfl, h⟩ | ⟨rfl, h⟩
      · simp only [h, Bool.false_eq_true, if_false] at hdepth hpos
        show s.ignoreStackDepth - 1 = (depthOf regexSearch cfg rest : ℤ)
        split_ifs at hdepth hpos <;> omega
      · rw [if_pos h] at hdepth
        exact hdepth
  · rw [if_neg hpos] at hs₁
    have hzero : depthOf regexSearch cfg rest = 0 := by
      rw [hcons] at hpos
      split_ifs at hpos <;> omega
    have hsame : s.ignoreStackDepth = depthOf regexSearch cfg rest := by omega
    have hconsistent' := hconsistent.1
    cases htraced : traced regexSearch cfg o.isC o.frame with
    | false =>
      have hregion := region_eq_none hs hopened fun _ => htraced
      rw [hregion] at hrecords
      rw [if_neg (htraced ▸ Bool.false_ne_true)] at hs₁
      have hupdate : s₁.records = s.records ∧ s₁.ignoreStackDepth = s.ignoreStackDepth := by
        split_ifs at hs₁ with hex
        · rcases hend with ⟨rfl, h⟩ | ⟨rfl, h⟩
          · rw [hcons, h, hex, hzero] at hpos
            exact absurd hpos (by simp)
          · rw [hs₁]
            exact ⟨rfl, rfl⟩
        · rw [hs₁]
          exact ⟨rfl, rfl⟩
      exact ⟨⟨hupdate.1.trans hrecords, hupdate.2.trans hsame⟩, hconsistent.2⟩
    | true =>
      rw [if_pos htraced] at hs₁
      have hprocess : process (getLabel cfg e) s what = { s with records := s.records.tail } := by
        rcases hend with ⟨rfl, -⟩ | ⟨rfl, -⟩ <;> rfl
      rw [hprocess] at hs₁
      obtain ⟨region, hregion⟩ := Option.isSome_iff_exists.mp (hconsistent'.mpr ⟨hzero, htraced⟩)
      refine ⟨⟨?_, ?_⟩, hconsistent.2⟩
      · rw [hs₁]
        show s.records.tail = _
        rw [hrecords, hregion]
        rfl
      · rw [hs₁]
        exact hsame

/-- A return whose call was not seen is right unless the frame is excluded. -/
theorem right_unseen_iff (hs : Inv regexSearch cfg s) (hkind : e.kind = .return)
    (hopened : s.opened = []) {s₁ : State}
    (hs₁ : s₁ = { profilerFunction regexSearch cfg e s with serial := s.serial + 1 }) :
    (Right regexSearch cfg s₁ ↔ excluded regexSearch cfg e.frame = false) ∧
      (excluded regexSearch cfg e.frame = false → Inv regexSearch cfg s₁) := by
  have hdepth := hs.depth
  have hrecords := hs.records
  rw [hopened] at hdepth hrecords
  have hwhat : e.kind.what = some .return := by rw [hkind]; rfl
  have hnil : ¬ depthOf regexSearch cfg s.opened > 0 := by
    rw [hopened]
    exact lt_irrefl 0
  rw [profilerFunction_of_right hs.toRight hwhat, if_neg hnil] at hs₁
  have hinv : ∀ {t : State}, t.opened = [] → t.records = [] → t.ignoreStackDepth = 0 →
      Inv regexSearch cfg t := by
    intro t hopen hrec hzero
    refine ⟨⟨?_, ?_⟩, ?_⟩
    · rw [hrec, hopen]
      rfl
    · rw [hzero, hopen]
      rfl
    · rw [hopen]
      trivial
  cases hex : excluded regexSearch cfg e.frame with
  | true =>
    refine ⟨iff_of_false (fun hright => ?_) (by simp), fun h => absurd h (by simp)⟩
    rw [if_neg (not_traced_of_excluded hex _ ▸ Bool.false_ne_true), if_pos hex] at hs₁
    have hwrong := hright.depth
    rw [hs₁] at hwrong
    simp only [hopened] at hwrong
    rw [updateIgnoreStackDepth, hdepth] at hwrong
    omega
  | false =>
    rw [hex, if_neg Bool.false_ne_true] at hs₁
    have hgood : Inv regexSearch cfg s₁ := by
      rw [hs₁]
      split_ifs
      · exact hinv hopened (by rw [process, hrecords]; rfl) hdepth
      · exact hinv hopened hrecords hdepth
    exact ⟨iff_of_true hgood.toRight rfl, fun _ => hgood⟩

/-- The exception of a C function is right unless the function is traced. -/
theorem right_exception_iff (hs : Inv regexSearch cfg s) {o : Opened} {rest : List Opened}
    (hopened : s.opened = o :: rest) (hisC : o.isC = true) {s₁ : State}
    (hs₁ : s₁ = { s with serial := s.serial + 1, opened := rest }) :
    (Right regexSearch cfg s₁ ↔
      traced regexSearch cfg true o.frame = false ∨ depthOf regexSearch cfg s.opened > 0) ∧
      (traced regexSearch cfg true o.frame = false ∨ depthOf regexSearch cfg s.opened > 0 →
        Inv regexSearch cfg s₁) := by
  have hrecords := records_of_opened hs hopened
  have hconsistent := hs.consistent
  have hdepth := hs.depth
  rw [hopened] at hconsistent hdepth
  rw [depthOf_isC rest hisC] at hdepth
  rw [hopened, depthOf_isC rest hisC, hs₁]
  have hkeep : traced regexSearch cfg true o.frame = false ∨ depthOf regexSearch cfg rest > 0 →
      Inv regexSearch cfg { s with serial := s.serial + 1, opened := rest } := by
    intro hallowed
    have hregion : o.region = none := by
      refine region_eq_none hs hopened fun hzero => ?_
      rw [hisC]
      exact hallowed.resolve_right (by omega)
    rw [hregion] at hrecords
    exact ⟨⟨hrecords, hdepth⟩, hconsistent.2⟩
  refine ⟨⟨fun hright => ?_, fun h => (hkeep h).toRight⟩, hkeep⟩
  by_contra hnot
  obtain ⟨htraced, hpos⟩ := not_or.mp hnot
  have hzero : depthOf regexSearch cfg rest = 0 := by omega
  have hon : traced regexSearch cfg o.isC o.frame = true := by
    rw [hisC]
    exact eq_true_of_ne_false htraced
  obtain ⟨region, hregion⟩ := Option.isSome_iff_exists.mp (hconsistent.1.mpr ⟨hzero, hon⟩)
  have hleft := hright.records
  rw [hrecords, hregion] at hleft
  have hlength := congrArg List.length hleft
  simp only [Option.toList_some, List.singleton_append, List.length_cons] at hlength
  omega

theorem inv_start (regexSearch : String → String → Bool) (cfg : Config) :
    Inv regexSearch cfg {} :=
  ⟨⟨rfl, rfl⟩, trivial⟩

/-- The state after an event, but for what is open. -/
def after (regexSearch : String → String → Bool) (cfg : Config) (s : State) (e : Event) : State :=
  { profilerFunction regexSearch cfg e s with serial := s.serial + 1 }

theorem step_return_cons (hkind : e.kind = .return) {o : Opened} {rest : List Opened}
    (hopened : s.opened = o :: rest) : step regexSearch cfg s e =
      if o.isC = false ∧ o.frame = e.frame then
        some { after regexSearch cfg s e with opened := rest } else none := by
  unfold step
  rw [hkind, hopened]
  rfl

theorem step_return_nil (hkind : e.kind = .return) (hopened : s.opened = []) :
    step regexSearch cfg s e = some (after regexSearch cfg s e) := by
  unfold step
  rw [hkind, hopened]
  rfl

theorem step_end_nil (hkind : e.kind = .cReturn ∨ e.kind = .cException) (hopened : s.opened = []) :
    step regexSearch cfg s e = none := by
  unfold step
  rcases hkind with hkind | hkind <;> rw [hkind, hopened]

theorem step_end_cons (hkind : e.kind = .cReturn ∨ e.kind = .cException) {o : Opened}
    {rest : List Opened} (hopened : s.opened = o :: rest) : step regexSearch cfg s e =
      if o.isC = true ∧ o.frame = e.frame then
        some { after regexSearch cfg s e with opened := rest } else none := by
  unfold step
  rcases hkind with hkind | hkind <;> rw [hkind, hopened] <;> rfl

theorem after_exception (hkind : e.kind = .cException) :
    after regexSearch cfg s e = { s with serial := s.serial + 1 } := by
  unfold after profilerFunction
  rw [hkind]
  split_ifs <;> rfl

/-- A step from a right state leads to a right one exactly if it is allowed. -/
theorem right_step_iff (hs : Inv regexSearch cfg s) (h : step regexSearch cfg s e = some s') :
    (Right regexSearch cfg s' ↔ Allows regexSearch cfg s e) ∧
      (Allows regexSearch cfg s e → Inv regexSearch cfg s') := by
  have hfine : Inv regexSearch cfg s' → Allows regexSearch cfg s e →
      (Right regexSearch cfg s' ↔ Allows regexSearch cfg s e) ∧
        (Allows regexSearch cfg s e → Inv regexSearch cfg s') :=
    fun hinv hallowed => ⟨iff_of_true hinv.toRight hallowed, fun _ => hinv⟩
  have hwhat : ∀ {kind what}, e.kind = kind → kind.what = some what → e.kind.what = some what :=
    fun hkind hw => by rw [hkind, hw]
  cases hkind : e.kind with
  | call =>
    have hallowed : Allows regexSearch cfg s e := by rw [Allows, hkind]; trivial
    unfold step at h
    rw [hkind] at h
    cases h
    exact hfine (inv_begin hs (hwhat hkind rfl) (Or.inl rfl) rfl) hallowed
  | cCall =>
    have hallowed : Allows regexSearch cfg s e := by rw [Allows, hkind]; trivial
    unfold step at h
    rw [hkind] at h
    cases h
    exact hfine (inv_begin hs (hwhat hkind rfl) (Or.inr rfl) rfl) hallowed
  | «return» =>
    cases hopened : s.opened with
    | nil =>
      rw [step_return_nil hkind hopened] at h
      have hallows : Allows regexSearch cfg s e ↔ excluded regexSearch cfg e.frame = false := by
        rw [Allows, hkind]
        exact ⟨fun hex => hex hopened, fun hex _ => hex⟩
      rw [hallows, ← Option.some.inj h]
      exact right_unseen_iff hs hkind hopened rfl
    | cons o rest =>
      have hallowed : Allows regexSearch cfg s e := by
        rw [Allows, hkind]
        intro hnil
        rw [hopened] at hnil
        cases hnil
      rw [step_return_cons hkind hopened] at h
      split_ifs at h with hmatch
      rw [← Option.some.inj h] at hfine ⊢
      exact hfine (inv_end hs (hwhat hkind rfl) hopened (Or.inl ⟨rfl, hmatch.1⟩) hmatch.2 rfl)
        hallowed
  | cReturn =>
    have hallowed : Allows regexSearch cfg s e := by rw [Allows, hkind]; trivial
    cases hopened : s.opened with
    | nil =>
      rw [step_end_nil (Or.inl hkind) hopened] at h
      cases h
    | cons o rest =>
      rw [step_end_cons (Or.inl hkind) hopened] at h
      split_ifs at h with hmatch
      rw [← Option.some.inj h] at hfine ⊢
      exact hfine (inv_end hs (hwhat hkind rfl) hopened (Or.inr ⟨rfl, hmatch.1⟩) hmatch.2 rfl)
        hallowed
  | cException =>
    cases hopened : s.opened with
    | nil =>
      rw [step_end_nil (Or.inr hkind) hopened] at h
      cases h
    | cons o rest =>
      rw [step_end_cons (Or.inr hkind) hopened] at h
      split_ifs at h with hmatch
      rw [← Option.some.inj h, after_exception hkind, Allows, hkind]
      have hiff := right_exception_iff hs hopened hmatch.1 rfl
      rw [hmatch.2] at hiff
      exact hiff

/-- On every thread, a properly nested stream is profiled right throughout if and only if no traced
C function ends with an exception and no excluded frame returns without its call having been
seen. -/
theorem runsWith_profiled_iff (regexSearch : String → String → Bool) (cfg : Config) (first : Bool)
    {events : List Event}
    (h : (runFrom (step regexSearch (cfg.ofThread first)) {} events).isSome = true) :
    RunsWith (step regexSearch (cfg.ofThread first))
        (fun _ s => Right regexSearch (cfg.ofThread first) s) {} events ↔
      Along (step regexSearch (cfg.ofThread first)) (Allows regexSearch (cfg.ofThread first)) {}
        events :=
  runsWith_iff_along (Inv regexSearch (cfg.ofThread first))
    (fun _ _ _ hs hstep => right_step_iff hs hstep) (inv_start regexSearch _) h

/-! ### A call with a C call in it -/

/-- As `std::regex_search` finds them for the names below. -/
def searchNames (itr name : String) : Bool := itr == name

def work : Frame := ⟨1, "work", "/home/app.py"⟩

def skipped : Frame := ⟨2, "skipped", "/home/app.py"⟩

def tracingC : Config where
  traceC := true
  baseModulePath := "/opt/rocprofsys"
  excludeFunctions := "skipped" :: defaultExcludeFunctions

def workWith (kind : EventKind) : List Event :=
  [⟨.call, work, 1, ""⟩, ⟨.cCall, work, 2, ""⟩, ⟨kind, work, 2, ""⟩, ⟨.return, work, 3, ""⟩]

theorem right_cReturn : RunsWith (step searchNames (tracingC.ofThread true))
    (fun _ s => Right searchNames (tracingC.ofThread true) s) {} (workWith .cReturn) := by
  refine (runsWith_profiled_iff searchNames tracingC true (by decide)).mpr ?_
  have hincluded : excluded searchNames (tracingC.ofThread true) work = false := by decide
  exact ⟨trivial, fun _ _ => ⟨trivial, fun _ _ => ⟨trivial, fun _ _ =>
    ⟨fun _ => hincluded, fun _ _ => trivial⟩⟩⟩⟩

/-- A C function that raises an exception is popped by the return of the frame that calls it, which
is then left open; and the return of an excluded frame makes the depth negative. -/
theorem not_right_cException :
    (∃ s, runFrom (step searchNames (tracingC.ofThread true)) {} (workWith .cException) = some s ∧
      s.opened = [] ∧ s.records = [⟨0, "work"⟩] ∧
      ¬ Right searchNames (tracingC.ofThread true) s) ∧
    (∃ s, runFrom (step searchNames (tracingC.ofThread true)) {}
        [⟨.return, skipped, 1, ""⟩] = some s ∧
      s.ignoreStackDepth = -1 ∧ ¬ Right searchNames (tracingC.ofThread true) s) := by
  refine ⟨⟨_, rfl, rfl, by decide, fun h => absurd h.records (by decide)⟩,
    ⟨_, rfl, by decide, fun h => absurd h.depth (by decide)⟩⟩

end Python
end Rocprofsys
