import Mathlib.Algebra.Order.Ring.Nat
import Mathlib.Data.List.Basic
import Rocprofsys.Base.Run

namespace Rocprofsys
namespace Tracing

open Base

/-! ## The category on a thread -/

/-- `category_stack`: the entries of a category that a thread has open. -/
structure CategoryStack where
  profile : Int32 := 0
  tracing : Int32 := 0
  deriving DecidableEq

/-- The forms of `push_perfetto` and `pop_perfetto`. -/
inductive Form where
  | plain
  | timestamp (ts : UInt64)
  | track (uuid ts : UInt64)
  deriving DecidableEq, Repr

/-- The track that an event stands on; without one it is the track of the thread. -/
def Form.on : Form → Option UInt64
  | .plain => none
  | .timestamp _ => none
  | .track uuid _ => some uuid

/-- `TRACE_EVENT_BEGIN` and `TRACE_EVENT_END`, with the name that the pop is called with. -/
inductive Event where
  | begin (form : Form) (name : String)
  | finish (form : Form) (name : String)
  deriving DecidableEq, Repr

/-- An entry in perfetto. -/
structure Slice where
  track : Option UInt64
  name : String
  deriving DecidableEq, Repr

/-- The entries that are begun and not ended, from the events with the newest first. -/
def slices : List Event → List Slice
  | [] => []
  | .begin form name :: events => ⟨form.on, name⟩ :: slices events
  | .finish form name :: events => (slices events).erase ⟨form.on, name⟩

/-- A thread as the functions for a category see it: whether the category is enabled, the
counters, the bundle stack of the thread, if there is one, and the perfetto events. Both lists
have the newest first. -/
structure ThreadState where
  enabled : Bool
  stack : CategoryStack
  bundles : Option (List UInt64)
  events : List Event
  deriving DecidableEq

namespace ThreadState

/-- `category_push_disabled`. -/
def categoryPushDisabled (s : ThreadState) : Bool := !s.enabled

/-- `tracing_pop_disabled`. -/
def tracingPopDisabled (s : ThreadState) : Bool := !s.enabled && decide (s.stack.tracing ≤ 0)

/-- `profile_pop_disabled`. -/
def profilePopDisabled (s : ThreadState) : Bool := !s.enabled && decide (s.stack.profile ≤ 0)

/-! ## Profile entries -/

variable (hash : String → UInt64)

/-- `push_timemory`. -/
def pushTimemory (s : ThreadState) (name : String) : ThreadState :=
  if s.categoryPushDisabled then s
  else
    match s.bundles with
    | none => s
    | some bundles =>
      { s with
        bundles := some (hash name :: bundles)
        stack := { s.stack with profile := s.stack.profile + 1 } }

/-- `get_timemory`: the newest bundle with the hash of the name. -/
def getTimemory (s : ThreadState) (name : String) : Option Nat :=
  if s.profilePopDisabled then none
  else (s.bundles.getD []).findIdx? (· == hash name)

/-- `destroy_timemory`. -/
def destroyTimemory (s : ThreadState) (index : Nat) : ThreadState :=
  { s with bundles := s.bundles.map fun bundles => bundles.eraseIdx index }

/-- `pop_timemory`. The counter stays as it is. -/
def popTimemory (s : ThreadState) (name : String) : ThreadState :=
  if s.profilePopDisabled then s
  else
    match s.getTimemory hash name with
    | none => s
    | some index => s.destroyTimemory index

/-! ## Perfetto entries -/

/-- `push_perfetto_ts` and `push_perfetto_track`, and what `push_perfetto` does itself. -/
def pushPerfetto (s : ThreadState) (form : Form) (name : String) : ThreadState :=
  if s.categoryPushDisabled then s
  else
    { s with
      stack := { s.stack with tracing := s.stack.tracing + 1 }
      events := .begin form name :: s.events }

/-- `pop_perfetto_ts` and `pop_perfetto_track`, and what `pop_perfetto` does itself. -/
def popPerfetto (s : ThreadState) (form : Form) (name : String) : ThreadState :=
  if s.tracingPopDisabled then s
  else
    { s with
      stack := { s.stack with tracing := s.stack.tracing - 1 }
      events := .finish form name :: s.events }

end ThreadState

/-! ## Runs -/

inductive Call where
  | pushTimemory (name : String)
  | popTimemory (name : String)
  | pushPerfetto (form : Form) (name : String)
  | popPerfetto (form : Form) (name : String)
  | setEnabled (on : Bool)

namespace ThreadState

variable (hash : String → UInt64)

def call (s : ThreadState) : Call → ThreadState
  | .pushTimemory name => s.pushTimemory hash name
  | .popTimemory name => s.popTimemory hash name
  | .pushPerfetto form name => s.pushPerfetto form name
  | .popPerfetto form name => s.popPerfetto form name
  | .setEnabled on => { s with enabled := on }

/-- A thread before its first call of the category; it may have no bundle stack. -/
def start (enabled hasBundles : Bool) : ThreadState where
  enabled := enabled
  stack := {}
  bundles := if hasBundles then some [] else none
  events := []

/-- The profile entries pushed and not yet popped. -/
def entries (s : ThreadState) : List UInt64 := s.bundles.getD []

/-- Both counters are the numbers of entries. -/
structure Counts (s : ThreadState) : Prop where
  profile : s.stack.profile.toInt = s.entries.length
  tracing : s.stack.tracing.toInt = (slices s.events).length

/-- A pop is honoured exactly if its entry is open. -/
def Honours (s : ThreadState) : Call → Prop
  | .popTimemory name => (s.popTimemory hash name).bundles ≠ s.bundles ↔ hash name ∈ s.entries
  | .popPerfetto form name =>
    (s.popPerfetto form name).events ≠ s.events ↔ ⟨form.on, name⟩ ∈ slices s.events
  | _ => True

/-- The counters are right all along a run, and the pops of open entries are honoured and
all others ignored. -/
def Guards (s : ThreadState) (calls : List Call) : Prop :=
  Throughout (call hash) Counts (Honours hash) s calls

/-- No profile entry is popped, no perfetto entry is popped that is not open, unless the
category is disabled with none open, and no counter overflows. -/
def Allows (s : ThreadState) : Call → Prop
  | .pushTimemory _ => s.enabled = true → s.bundles.isSome → s.entries.length + 1 < 2 ^ 31
  | .popTimemory name => hash name ∉ s.entries
  | .pushPerfetto _ _ => s.enabled = true → (slices s.events).length + 1 < 2 ^ 31
  | .popPerfetto form name =>
    ⟨form.on, name⟩ ∈ slices s.events ∨ s.enabled = false ∧ slices s.events = []
  | .setEnabled _ => True

end ThreadState

/-! ## One call -/

section Step

variable {hash : String → UInt64} {s : ThreadState}

theorem toInt_add_one {c : Int32} {n : Nat} (h : c.toInt = n) :
    (c + 1).toInt = (n + 1 : Nat) ↔ n + 1 < 2 ^ 31 := by
  have hlt := c.toInt_lt
  rw [Int32.toInt_add, h, show (1 : Int32).toInt = 1 from rfl, Int.bmod_def]
  omega

theorem toInt_sub_one {c : Int32} {n : Nat} (h : c.toInt = (n + 1 : Nat)) :
    (c - 1).toInt = n := by
  have hlt := c.toInt_lt
  rw [Int32.toInt_sub, h, show (1 : Int32).toInt = 1 from rfl, Int.bmod_def]
  omega

theorem nonpos_iff {c : Int32} {n : Nat} (h : c.toInt = n) : c ≤ 0 ↔ n = 0 := by
  rw [Int32.le_iff_toInt_le, h, show (0 : Int32).toInt = 0 from rfl]
  omega

/-- Right counters after a call, and a call that does what it should. -/
def Right (hash : String → UInt64) (s : ThreadState) (c : Call) : Prop :=
  (s.call hash c).Counts ∧ s.Honours hash c

theorem right_pushTimemory (h : s.Counts) (name : String) :
    Right hash s (.pushTimemory name) ↔ s.Allows hash (.pushTimemory name) := by
  show (s.pushTimemory hash name).Counts ∧ True ↔
    (s.enabled = true → s.bundles.isSome → s.entries.length + 1 < 2 ^ 31)
  rw [and_true, ThreadState.pushTimemory, ThreadState.categoryPushDisabled]
  cases henabled : s.enabled with
  | false => exact ⟨fun _ hfalse => absurd hfalse Bool.false_ne_true, fun _ => h⟩
  | true =>
    rw [if_neg (by decide)]
    cases hbundles : s.bundles with
    | none => exact ⟨fun _ _ hfalse => absurd hfalse Bool.false_ne_true, fun _ => h⟩
    | some bundles =>
      have hentries : s.entries = bundles := by
        rw [ThreadState.entries, hbundles]
        rfl
      have hprofile := h.profile
      rw [hentries] at hprofile ⊢
      refine ⟨fun hcounts _ _ => (toInt_add_one hprofile).mp hcounts.profile, fun hlt => ?_⟩
      exact ⟨(toInt_add_one hprofile).mpr (hlt rfl rfl), h.tracing⟩

theorem right_pushPerfetto (h : s.Counts) (form : Form) (name : String) :
    Right hash s (.pushPerfetto form name) ↔ s.Allows hash (.pushPerfetto form name) := by
  show (s.pushPerfetto form name).Counts ∧ True ↔
    (s.enabled = true → (slices s.events).length + 1 < 2 ^ 31)
  rw [and_true, ThreadState.pushPerfetto, ThreadState.categoryPushDisabled]
  cases henabled : s.enabled with
  | false => exact ⟨fun _ hfalse => absurd hfalse Bool.false_ne_true, fun _ => h⟩
  | true =>
    rw [if_neg (by decide)]
    refine ⟨fun hcounts _ => (toInt_add_one h.tracing).mp hcounts.tracing, fun hlt => ?_⟩
    exact ⟨h.profile, (toInt_add_one h.tracing).mpr (hlt rfl)⟩

/-- A profile entry that is popped leaves the counter behind. -/
theorem right_popTimemory (h : s.Counts) (name : String) :
    Right hash s (.popTimemory name) ↔ s.Allows hash (.popTimemory name) := by
  show (s.popTimemory hash name).Counts ∧ _ ↔ hash name ∉ s.entries
  by_cases hmem : hash name ∈ s.entries
  · refine ⟨fun ⟨hcounts, _⟩ => ?_, fun hnot => absurd hmem hnot⟩
    have hpos : 0 < s.entries.length := List.length_pos_of_mem hmem
    have hdisabled : ¬s.profilePopDisabled = true := by
      rw [ThreadState.profilePopDisabled, Bool.and_eq_true, decide_eq_true_iff,
        nonpos_iff h.profile]
      omega
    obtain ⟨index, hindex⟩ : ∃ index, s.getTimemory hash name = some index := by
      rw [ThreadState.getTimemory, if_neg hdisabled, ← Option.isSome_iff_exists,
        List.findIdx?_isSome, List.any_eq_true]
      exact ⟨hash name, hmem, beq_self_eq_true _⟩
    have hlt : index < s.entries.length := by
      rw [ThreadState.getTimemory, if_neg hdisabled] at hindex
      exact (List.findIdx?_eq_some_iff_getElem.mp hindex).1
    have hpop : s.popTimemory hash name = s.destroyTimemory index := by
      rw [ThreadState.popTimemory, if_neg hdisabled, hindex]
    have hlength : (s.destroyTimemory index).entries.length = s.entries.length - 1 := by
      rw [ThreadState.entries, ThreadState.entries, ThreadState.destroyTimemory] at *
      cases hbundles : s.bundles with
      | none =>
        rw [hbundles] at hlt
        exact absurd hlt (Nat.not_lt_zero index)
      | some bundles =>
        rw [hbundles] at hlt
        exact List.length_eraseIdx_of_lt hlt
    rw [hpop] at hcounts
    have hprofile : s.stack.profile.toInt = ((s.destroyTimemory index).entries.length : Int) :=
      hcounts.profile
    rw [hlength, h.profile] at hprofile
    omega
  · have hsame : s.popTimemory hash name = s := by
      rw [ThreadState.popTimemory]
      by_cases hdisabled : s.profilePopDisabled = true
      · exact if_pos hdisabled
      · have hnone : s.getTimemory hash name = none := by
          rw [ThreadState.getTimemory, if_neg hdisabled, List.findIdx?_eq_none_iff]
          intro entry hentry
          rw [beq_eq_false_iff_ne]
          intro heq
          subst heq
          exact hmem hentry
        rw [if_neg hdisabled, hnone]
    refine ⟨fun _ => hmem, fun _ => ⟨hsame.symm ▸ h, ?_⟩⟩
    show (s.popTimemory hash name).bundles ≠ s.bundles ↔ hash name ∈ s.entries
    rw [hsame]
    exact ⟨fun hne => absurd rfl hne, fun hin => absurd hin hmem⟩

theorem right_popPerfetto (h : s.Counts) (form : Form) (name : String) :
    Right hash s (.popPerfetto form name) ↔ s.Allows hash (.popPerfetto form name) := by
  show (s.popPerfetto form name).Counts ∧ ((s.popPerfetto form name).events ≠ s.events ↔
    ⟨form.on, name⟩ ∈ slices s.events) ↔
      (⟨form.on, name⟩ ∈ slices s.events ∨ s.enabled = false ∧ slices s.events = [])
  have hdisabled : s.tracingPopDisabled = true ↔ s.enabled = false ∧ slices s.events = [] := by
    rw [ThreadState.tracingPopDisabled, Bool.and_eq_true, Bool.not_eq_true', decide_eq_true_iff,
      nonpos_iff h.tracing, List.length_eq_zero_iff]
  rw [← hdisabled, ThreadState.popPerfetto]
  by_cases hoff : s.tracingPopDisabled = true
  · have hnil := (hdisabled.mp hoff).2
    rw [if_pos hoff, hnil]
    refine ⟨fun _ => .inr hoff, fun _ => ⟨h, ?_⟩⟩
    exact ⟨fun hne => absurd rfl hne, fun hin => absurd hin List.not_mem_nil⟩
  · rw [if_neg hoff]
    have hends : Event.finish form name :: s.events ≠ s.events := List.cons_ne_self _ _
    refine ⟨fun ⟨_, hhonours⟩ => .inl (hhonours.mp hends), fun hor => ?_⟩
    have hmem := hor.resolve_right hoff
    refine ⟨⟨h.profile, toInt_sub_one ?_⟩, fun _ => hmem, fun _ => hends⟩
    have hpos := List.length_pos_of_mem hmem
    have hlength : (slices (.finish form name :: s.events)).length =
        (slices s.events).length - 1 := List.length_erase_of_mem hmem
    rw [h.tracing, hlength]
    omega

theorem right_iff_allows (hash : String → UInt64) (s : ThreadState) (c : Call) (h : s.Counts) :
    Right hash s c ↔ s.Allows hash c := by
  cases c with
  | pushTimemory name => exact right_pushTimemory h name
  | popTimemory name => exact right_popTimemory h name
  | pushPerfetto form name => exact right_pushPerfetto h form name
  | popPerfetto form name => exact right_popPerfetto h form name
  | setEnabled on => exact ⟨fun _ => trivial, fun _ => ⟨⟨h.profile, h.tracing⟩, trivial⟩⟩

end Step

/-! ## Whole runs -/

/-- The counters guard the pops exactly as long as no profile entry is popped, every popped
perfetto entry is open, or none and the category disabled, and no counter overflows. -/
theorem guards_iff_allows (hash : String → UInt64) (enabled hasBundles : Bool)
    (calls : List Call) :
    ThreadState.Guards hash (ThreadState.start enabled hasBundles) calls ↔
      AtSteps (ThreadState.call hash) (ThreadState.Allows hash)
        (ThreadState.start enabled hasBundles) calls := by
  refine throughout_iff_atSteps (right_iff_allows hash) ?_
  cases hasBundles with
  | true => exact ⟨rfl, rfl⟩
  | false => exact ⟨rfl, rfl⟩

/-- A profile entry that is pushed and popped is still counted. -/
theorem not_guards_pushPop :
    ¬∀ hash : String → UInt64, ThreadState.Guards hash (ThreadState.start true true)
      [.pushTimemory "main", .popTimemory "main"] := by
  intro h
  have hcounts := ((h fun _ => 0).states _ (List.prefix_refl _)).profile
  exact absurd hcounts (by decide)

end Tracing
end Rocprofsys
