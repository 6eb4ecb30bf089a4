import Rocprofsys.Base.Emission

namespace Rocprofsys
namespace Sdk

open Base

/-! ## Marker callbacks -/

/-- The operations of the marker core API. A start returns the id that its stop names. -/
inductive MarkerOperation where
  | roctxRangePushA (message : String)
  | roctxRangePop
  | roctxRangeStartA (message : String) (id : UInt64)
  | roctxRangeStop (id : UInt64)
  | roctxMarkA (message : String)
  | other (name : String)
  deriving DecidableEq, Repr

/-- A call of the API with the timestamps of its callbacks in the enter and the exit phase. -/
structure MarkerCall where
  operation : MarkerOperation
  enter : UInt64
  exit : UInt64
  deriving DecidableEq, Repr

/-- A range that is not ended: its message, which the code finds through a hash, and the time
at which it began. -/
structure MarkerRange where
  message : String
  begin : UInt64
  deriving DecidableEq, Repr

/-- The ranges of a thread, newest first. -/
structure MarkerRanges where
  pushed : List MarkerRange := []
  started : List MarkerRange := []
  deriving DecidableEq, Repr

/-- A region as perfetto or the trace cache gets it. -/
structure Region where
  name : String
  begin : UInt64
  finish : UInt64
  deriving DecidableEq, Repr

/-- The regions of one callback. -/
structure Regions where
  perfetto : Region
  cached : Region
  deriving DecidableEq, Repr

/-- `tool_tracing_callback_start`. -/
def callbackStart (ranges : MarkerRanges) (operation : MarkerOperation) (ts : UInt64) :
    MarkerRanges :=
  match operation with
  | .roctxRangePushA message => { ranges with pushed := ⟨message, ts⟩ :: ranges.pushed }
  | .roctxRangeStartA message _ => { ranges with started := ⟨message, ts⟩ :: ranges.started }
  | _ => ranges

/-- The outputs at the end of `tool_tracing_callback_stop`: the cache takes the begin time
from the user data. -/
def outputRegions (name : String) (beginTs userData ts : UInt64) : Regions where
  perfetto := ⟨name, beginTs, ts⟩
  cached := ⟨name, userData, ts⟩

/-- `tool_tracing_callback_stop`; `none` is the abort where no range is left. -/
def callbackStop (ranges : MarkerRanges) (operation : MarkerOperation) (userData ts : UInt64) :
    Option (MarkerRanges × List Regions) :=
  match operation with
  | .roctxRangePop =>
    match ranges.pushed with
    | [] => none
    | range :: pushed =>
      some ({ ranges with pushed }, [outputRegions range.message range.begin userData ts])
  | .roctxRangeStop _ =>
    match ranges.started with
    | [] => none
    | range :: started =>
      some ({ ranges with started }, [outputRegions range.message range.begin userData ts])
  | .roctxMarkA message => some (ranges, [outputRegions message userData userData ts])
  | .roctxRangePushA _ => some (ranges, [])
  | .roctxRangeStartA _ _ => some (ranges, [])
  | .other name => some (ranges, [outputRegions name userData userData ts])

/-- Both callbacks of a call; the user data holds the time of the first. -/
def markerCall (ranges : MarkerRanges) (c : MarkerCall) : Option (MarkerRanges × List Regions) :=
  callbackStop (callbackStart ranges c.operation c.enter) c.operation c.enter c.exit

/-! ## What is to be reported -/

/-- The open ranges, newest first, the started ones with their ids. -/
structure OpenRanges where
  pushed : List MarkerRange := []
  started : List (UInt64 × MarkerRange) := []

def MarkerRange.ended (range : MarkerRange) (ts : UInt64) : Region :=
  ⟨range.message, range.begin, ts⟩

/-- A pop ends the innermost pushed range, a stop the started range with its id. A start has
an id that no open range has. -/
def ended (ranges : OpenRanges) (c : MarkerCall) : Option (OpenRanges × List Region) :=
  match c.operation with
  | .roctxRangePushA message =>
    some ({ ranges with pushed := ⟨message, c.enter⟩ :: ranges.pushed }, [])
  | .roctxRangePop =>
    match ranges.pushed with
    | [] => none
    | range :: pushed => some ({ ranges with pushed }, [range.ended c.exit])
  | .roctxRangeStartA message id =>
    if (ranges.started.lookup id).isSome then none
    else some ({ ranges with started := (id, ⟨message, c.enter⟩) :: ranges.started }, [])
  | .roctxRangeStop id =>
    (ranges.started.lookup id).map fun range =>
      ({ ranges with started := ranges.started.eraseP fun entry => entry.1 == id },
        [range.ended c.exit])
  | .roctxMarkA message => some (ranges, [⟨message, c.enter, c.exit⟩])
  | .other name => some (ranges, [⟨name, c.enter, c.exit⟩])

/-- Each region once, the same in perfetto and in the trace cache. -/
def Reports (calls : List MarkerCall) (regions : List Region) : Prop :=
  emitAll markerCall {} calls = some (regions.map fun region => ⟨region, region⟩)

/-- A range is ended at the time at which it began, and a stop names a range that began like
the one that was started last. -/
def EndsAtBegin (ranges : MarkerRanges × OpenRanges) (c : MarkerCall) : Prop :=
  match c.operation with
  | .roctxRangePop => ∀ range ∈ ranges.2.pushed.head?, c.enter = range.begin
  | .roctxRangeStop id =>
    ∀ range ∈ ranges.2.started.lookup id,
      ranges.1.started.head? = some range ∧ c.enter = range.begin
  | _ => True

/-- All ranges are ended at their begin. -/
def AllEndAtBegin (calls : List MarkerCall) : Prop :=
  Along (besides markerCall ended) EndsAtBegin ({}, {}) calls

/-! ## One call -/

/-- The ranges that the code keeps for the open ones. -/
structure Tracks (ranges : MarkerRanges) (open_ : OpenRanges) : Prop where
  pushed : ranges.pushed = open_.pushed
  started : ranges.started.length = open_.started.length

theorem region_mk_inj {name name' : String} {b b' f f' : UInt64} :
    (⟨name, b, f⟩ : Region) = ⟨name', b', f'⟩ ↔ name = name' ∧ b = b' ∧ f = f' :=
  Region.mk.injEq _ _ _ _ _ _ ▸ Iff.rfl

/-- The outputs are those of a range exactly if it has the name and both begin times. -/
theorem outputRegions_eq_iff {range range' : MarkerRange} {userData ts : UInt64} :
    [outputRegions range.message range.begin userData ts] =
        [range'.ended ts].map (fun region => (⟨region, region⟩ : Regions)) ↔
      range = range' ∧ userData = range'.begin := by
  rw [List.map_singleton, List.singleton_inj, outputRegions, MarkerRange.ended,
    Regions.mk.injEq, region_mk_inj, region_mk_inj]
  constructor
  · intro h
    obtain ⟨⟨hmessage, hbegin, -⟩, -, huser, -⟩ := h
    refine ⟨?_, huser⟩
    cases range
    cases range'
    cases hmessage
    cases hbegin
    rfl
  · intro h
    obtain ⟨rfl, huser⟩ := h
    exact ⟨⟨rfl, rfl, rfl⟩, rfl, huser, rfl⟩

theorem pop_endsAtBegin_iff {ranges : MarkerRanges × OpenRanges} {range : MarkerRange}
    {pushed : List MarkerRange} {enter exit : UInt64} (h : ranges.2.pushed = range :: pushed) :
    EndsAtBegin ranges ⟨.roctxRangePop, enter, exit⟩ ↔ enter = range.begin := by
  show (∀ range ∈ ranges.2.pushed.head?, enter = range.begin) ↔ _
  rw [h]
  exact ⟨fun hrange => hrange _ rfl, fun hrange _ hmem => Option.some.inj hmem ▸ hrange⟩

theorem stop_endsAtBegin_iff {ranges : MarkerRanges × OpenRanges} {id : UInt64}
    {range : MarkerRange} {enter exit : UInt64} (h : ranges.2.started.lookup id = some range) :
    EndsAtBegin ranges ⟨.roctxRangeStop id, enter, exit⟩ ↔
      ranges.1.started.head? = some range ∧ enter = range.begin := by
  show (∀ range ∈ ranges.2.started.lookup id,
    ranges.1.started.head? = some range ∧ enter = range.begin) ↔ _
  rw [h]
  exact ⟨fun hrange => hrange _ rfl, fun hrange _ hmem => Option.some.inj hmem ▸ hrange⟩

/-- The entry of a started range is taken out. -/
theorem length_eraseP_id {started : List (UInt64 × MarkerRange)} {id : UInt64}
    {range : MarkerRange} (h : started.lookup id = some range) :
    (started.eraseP fun entry => entry.1 == id).length = started.length - 1 := by
  obtain ⟨newer, older, rfl, -⟩ := List.lookup_eq_some_iff.mp h
  have hmem : (id, range) ∈ newer ++ (id, range) :: older := List.mem_append_cons_self
  exact List.length_eraseP_of_mem hmem (beq_self_eq_true id)

/-- A pop ends the range that was pushed last. -/
theorem markerCall_pop {ranges : MarkerRanges} {open_ : OpenRanges} {range : MarkerRange}
    {pushed : List MarkerRange} (h : Tracks ranges open_) (hopen : open_.pushed = range :: pushed)
    (enter exit : UInt64) :
    ∃ ranges' written, markerCall ranges ⟨.roctxRangePop, enter, exit⟩ = some (ranges', written) ∧
      Tracks ranges' { open_ with pushed } ∧ written.length = 1 ∧
      (written = [range.ended exit].map (fun region => (⟨region, region⟩ : Regions)) ↔
        EndsAtBegin (ranges, open_) ⟨.roctxRangePop, enter, exit⟩) := by
  have hpushed : ranges.pushed = range :: pushed := h.pushed.trans hopen
  refine ⟨{ ranges with pushed }, [outputRegions range.message range.begin enter exit], ?_,
    ⟨rfl, h.started⟩, rfl, ?_⟩
  · show callbackStop ranges .roctxRangePop enter exit = _
    rw [callbackStop, hpushed]
  · rw [outputRegions_eq_iff, pop_endsAtBegin_iff hopen]
    exact ⟨And.right, fun henter => ⟨rfl, henter⟩⟩

/-- A stop ends the range that was started last, which need not be the one it names. -/
theorem markerCall_stop {ranges : MarkerRanges} {open_ : OpenRanges} {range : MarkerRange}
    {id : UInt64} (h : Tracks ranges open_) (hlookup : open_.started.lookup id = some range)
    (enter exit : UInt64) :
    ∃ ranges' written,
      markerCall ranges ⟨.roctxRangeStop id, enter, exit⟩ = some (ranges', written) ∧
      Tracks ranges' { open_ with started := open_.started.eraseP fun entry => entry.1 == id } ∧
      written.length = 1 ∧
      (written = [range.ended exit].map (fun region => (⟨region, region⟩ : Regions)) ↔
        EndsAtBegin (ranges, open_) ⟨.roctxRangeStop id, enter, exit⟩) := by
  have hlength := length_eraseP_id hlookup
  cases hstarted : ranges.started with
  | nil =>
    -- The code keeps as many started ranges as there are, so one is left.
    have hnil : open_.started = [] :=
      List.eq_nil_of_length_eq_zero (by rw [← h.started, hstarted, List.length_nil])
    rw [hnil] at hlookup
    cases hlookup
  | cons range' started =>
    refine ⟨{ ranges with started }, [outputRegions range'.message range'.begin enter exit], ?_,
      ⟨h.pushed, ?_⟩, rfl, ?_⟩
    · show callbackStop ranges (.roctxRangeStop id) enter exit = _
      rw [callbackStop, hstarted]
    · show started.length = (open_.started.eraseP fun entry => entry.1 == id).length
      rw [hlength, ← h.started, hstarted, List.length_cons, Nat.add_sub_cancel]
    · rw [outputRegions_eq_iff, stop_endsAtBegin_iff hlookup, hstarted, List.head?_cons,
        Option.some_inj]

/-- What the callbacks of a call do to the ranges, and when they output what is to be
reported. -/
theorem markerCall_tracks (ranges : MarkerRanges) (open_ : OpenRanges) (c : MarkerCall)
    (open' : OpenRanges) (asked : List Region) (h : Tracks ranges open_)
    (hended : ended open_ c = some (open', asked)) :
    ∃ ranges' written, markerCall ranges c = some (ranges', written) ∧ Tracks ranges' open' ∧
      written.length = asked.length ∧
      (written = asked.map (fun region => (⟨region, region⟩ : Regions)) ↔
        EndsAtBegin (ranges, open_) c) := by
  obtain ⟨operation, enter, exit⟩ := c
  cases operation with
  | roctxRangePushA message =>
    cases hended
    refine ⟨_, [], rfl, ⟨?_, h.started⟩, rfl, fun _ => trivial, fun _ => rfl⟩
    show _ :: ranges.pushed = _ :: open_.pushed
    rw [h.pushed]
  | roctxRangeStartA message id =>
    change (if (open_.started.lookup id).isSome then none else _) = some (open', asked) at hended
    split at hended
    · cases hended
    · cases hended
      refine ⟨_, [], rfl, ⟨h.pushed, ?_⟩, rfl, fun _ => trivial, fun _ => rfl⟩
      show ranges.started.length + 1 = open_.started.length + 1
      rw [h.started]
  | roctxMarkA message =>
    cases hended
    exact ⟨_, _, rfl, h, rfl, fun _ => trivial, fun _ => rfl⟩
  | other name =>
    cases hended
    exact ⟨_, _, rfl, h, rfl, fun _ => trivial, fun _ => rfl⟩
  | roctxRangePop =>
    cases hopen : open_.pushed with
    | nil =>
      rw [ended, hopen] at hended
      cases hended
    | cons range pushed =>
      rw [ended, hopen] at hended
      cases hended
      exact markerCall_pop h hopen enter exit
  | roctxRangeStop id =>
    obtain ⟨range, hlookup, heq⟩ := Option.map_eq_some_iff.mp hended
    cases heq
    exact markerCall_stop h hlookup enter exit

/-! ## The calls of a thread -/

end Sdk
end Rocprofsys
