import Rocprofsys.Base.Run

namespace Rocprofsys
namespace Core

open Base

/-! ## The state of a thread -/

inductive ThreadState where
  | enabled
  | internal
  | completed
  | disabled
  deriving DecidableEq, Repr

def ThreadState.toNat : ThreadState → Nat
  | .enabled => 0
  | .internal => 1
  | .completed => 2
  | .disabled => 3

/-- `get_thread_state_value` and `get_thread_state_history` of a thread, the newest entry
first. -/
structure Thread where
  value : ThreadState := .enabled
  history : List ThreadState := []
  deriving DecidableEq, Repr

namespace Thread

/-- `get_thread_state() >= ThreadState::Completed`. -/
def isOver (t : Thread) : Bool := ThreadState.completed.toNat ≤ t.value.toNat

/-- `set_thread_state`, which returns the old state. -/
def setThreadState (t : Thread) (n : ThreadState) : ThreadState × Thread :=
  (t.value, { t with value := n })

/-- `push_thread_state`. It returns the entry of the history, if it makes one. -/
def pushThreadState (t : Thread) (v : ThreadState) : ThreadState × Thread :=
  if t.isOver then (t.value, t)
  else
    let (old, t) := t.setThreadState v
    (old, { t with history := old :: t.history })

/-- `pop_thread_state`. -/
def popThreadState (t : Thread) : ThreadState × Thread :=
  if t.isOver then (t.value, t)
  else
    match t.history with
    | [] => (t.value, t)
    | old :: history =>
      let t := { (t.setThreadState old).2 with history }
      (t.value, t)

end Thread

/-! ## Scopes -/

inductive Call where
  | push (v : ThreadState)
  | pop
  | set (n : ThreadState)
  deriving DecidableEq, Repr

/-- A thread, the states before the pushes of the scopes that are open on it, and whether the
last `set_thread_state` was to `Completed` or `Disabled`. -/
structure Scopes where
  thread : Thread := {}
  saved : List ThreadState := []
  forced : Bool := false

namespace Scopes

/-- A pop that no push belongs to closes no scope. -/
def call (s : Scopes) : Call → Scopes
  | .push v =>
    { s with thread := (s.thread.pushThreadState v).2, saved := s.thread.value :: s.saved }
  | .pop => { s with thread := s.thread.popThreadState.2, saved := s.saved.tail }
  | .set n =>
    let thread := (s.thread.setThreadState n).2
    { s with thread, forced := thread.isOver }

/-- The history has an entry for each open scope. -/
def Counted (s : Scopes) : Prop := s.thread.history.length = s.saved.length

/-- A pop leads back to the state before its push, unless one that is set stays. -/
def Restored (s : Scopes) : Call → Prop
  | .pop => ∀ v ∈ s.saved.head?, (s.call .pop).forced = true ∨ (s.call .pop).thread.value = v
  | _ => True

/-- All along a sequence of calls, the scopes are counted and the states restored. -/
def Restores (calls : List Call) : Prop := Throughout call Counted Restored {} calls

/-- No scope is opened or closed by a thread that is completed or disabled. -/
def Runs (s : Scopes) : Call → Prop
  | .push _ => s.thread.isOver = false
  | .pop => s.saved ≠ [] → s.thread.isOver = false
  | .set _ => True

instance (s : Scopes) (c : Call) : Decidable (s.Runs c) :=
  match c with
  | .push _ => inferInstanceAs (Decidable (_ = _))
  | .pop => inferInstanceAs (Decidable (_ → _))
  | .set _ => isTrue trivial

/-- The entries of the history are the states to come back to. -/
def Matches (s : Scopes) : Prop := s.thread.history = s.saved

variable {s : Scopes}

theorem right_push (h : s.Matches) (v : ThreadState) :
    (s.call (.push v)).Counted ↔ s.Runs (.push v) := by
  show (s.thread.pushThreadState v).2.history.length = s.saved.length + 1 ↔
    s.thread.isOver = false
  rw [Thread.pushThreadState]
  cases hover : s.thread.isOver with
  | true =>
    rw [if_pos rfl, h]
    refine iff_of_false ?_ (by decide)
    omega
  | false =>
    rw [if_neg (by decide)]
    refine iff_of_true ?_ rfl
    show (s.thread.value :: s.thread.history).length = s.saved.length + 1
    rw [h, List.length_cons]

theorem matches_push (h : s.Matches) {v : ThreadState} (hruns : s.Runs (.push v)) :
    (s.call (.push v)).Matches := by
  have hover : s.thread.isOver = false := hruns
  show (s.thread.pushThreadState v).2.history = s.thread.value :: s.saved
  rw [Thread.pushThreadState, hover, ← h]
  rfl

/-- The state is the newest entry, which is no longer in the history. -/
theorem popThreadState_of_running {t : Thread} (hover : t.isOver = false) {v : ThreadState}
    {history : List ThreadState} (hhistory : t.history = v :: history) :
    t.popThreadState.2 = ⟨v, history⟩ := by
  rw [Thread.popThreadState, hover, if_neg (by decide), hhistory]
  rfl

theorem matches_pop (h : s.Matches) (hruns : s.Runs .pop) : (s.call .pop).Matches := by
  show s.thread.popThreadState.2.history = s.saved.tail
  cases hsaved : s.saved with
  | nil =>
    have hhistory : s.thread.history = [] := h.trans hsaved
    rw [Thread.popThreadState, hhistory]
    split <;> exact hhistory
  | cons v saved =>
    have hover : s.thread.isOver = false := hruns (by rw [hsaved]; exact List.cons_ne_nil _ _)
    rw [popThreadState_of_running hover (h.trans hsaved), List.tail_cons]

theorem right_pop (h : s.Matches) :
    (s.call .pop).Counted ∧ s.Restored .pop ↔ s.Runs .pop := by
  constructor
  · intro ⟨hcounted, _⟩ hopen
    cases hover : s.thread.isOver with
    | false => rfl
    | true =>
      have hcounted : s.thread.popThreadState.2.history.length = s.saved.tail.length := hcounted
      rw [Thread.popThreadState, hover, if_pos rfl, h, List.length_tail] at hcounted
      have hpos := List.length_pos_iff.mpr hopen
      omega
  · intro hruns
    refine ⟨congrArg List.length (matches_pop h hruns), fun v hv => Or.inr ?_⟩
    obtain ⟨saved, hsaved⟩ := List.head?_eq_some_iff.mp hv
    have hover : s.thread.isOver = false := hruns (by rw [hsaved]; exact List.cons_ne_nil _ _)
    show s.thread.popThreadState.2.value = v
    rw [popThreadState_of_running hover (h.trans hsaved)]

theorem right_iff_runs (s : Scopes) (c : Call) (h : s.Matches) :
    (s.call c).Counted ∧ s.Restored c ↔ s.Runs c := by
  cases c with
  | push v => exact (and_iff_left trivial).trans (right_push h v)
  | pop => exact right_pop h
  | set n => exact iff_of_true ⟨congrArg List.length h, trivial⟩ trivial

theorem matches_call (s : Scopes) (c : Call) (h : s.Matches) (hruns : s.Runs c) :
    (s.call c).Matches := by
  cases c with
  | push v => exact matches_push h hruns
  | pop => exact matches_pop h hruns
  | set n => exact h

end Scopes

/-- The states are restored exactly as long as no scope is opened or closed while the thread is
completed or disabled. -/
theorem restores_iff_runs (calls : List Call) :
    Scopes.Restores calls ↔ AtSteps Scopes.call Scopes.Runs {} calls :=
  throughout_iff_atSteps_of_inv (fun _ h => congrArg List.length h) Scopes.matches_call
    Scopes.right_iff_runs rfl

/-- A scope of a disabled thread is not left. -/
theorem not_restores_disabled : ¬ Scopes.Restores [.push .disabled, .pop] := by
  intro h
  have hrestored := h.steps [.push .disabled] .pop (List.prefix_refl _)
  exact absurd (hrestored .enabled rfl) (by decide)

end Core
end Rocprofsys
