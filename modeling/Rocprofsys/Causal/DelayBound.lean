import Rocprofsys.Causal.Delay

namespace Rocprofsys
namespace Causal
namespace Delay

open Base

variable {s s' : State}

/-! ## The invariant -/

/-- What a call has read to compute with is a delay that some thread has reached. -/
def Stage.Bounded (reached : Int) : Stage → Prop
  | .constructing value => value ≤ reached
  | .lessLocal readLocal => readLocal ≤ reached
  | .add readLocal _ => readLocal ≤ reached
  | _ => True

structure Bounded (s : State) : Prop where
  globalReached : s.global ≤ s.reached
  localReached : ∀ v ∈ s.locals, v ≤ s.reached
  activities : ∀ a ∈ s.activities, a.stage.Bounded s.reached

theorem bounded_initial (threads : Nat) : Bounded (initial threads) where
  globalReached := Int.le_refl 0
  localReached v hv := by
    rw [List.eq_of_mem_replicate hv]
    exact Int.le_refl 0
  activities a ha := absurd ha List.not_mem_nil

theorem Stage.Bounded.mono {stage : Stage} {reached reached' : Int} (h : stage.Bounded reached)
    (hle : reached ≤ reached') : stage.Bounded reached' := by
  cases stage with
  | constructing value => exact Int.le_trans h hle
  | lessLocal readLocal => exact Int.le_trans h hle
  | add readLocal readGlobal => exact Int.le_trans h hle
  | _ => trivial

/-- A local delay raises what is reached, whatever its value. -/
theorem Bounded.setLocal (h : Bounded s) (t : Nat) (v : Int) : Bounded (s.setLocal t v) where
  globalReached := Int.le_trans h.globalReached (Int.le_max_left _ _)
  localReached w hw := by
    rcases List.mem_or_eq_of_mem_set hw with hw | rfl
    · exact Int.le_trans (h.localReached w hw) (Int.le_max_left _ _)
    · exact Int.le_max_right _ _
  activities a ha := (h.activities a ha).mono (Int.le_max_left _ _)

theorem Bounded.resume (h : Bounded s) (i thread : Nat) {stage : Option Stage}
    (hstage : ∀ st, stage = some st → st.Bounded s.reached) :
    Bounded { s with activities := Delay.resume s.activities i thread stage } where
  globalReached := h.globalReached
  localReached := h.localReached
  activities a ha := by
    cases stage with
    | none => exact h.activities a (List.mem_of_mem_eraseIdx ha)
    | some st =>
      rcases List.mem_or_eq_of_mem_set ha with ha | rfl
      · exact h.activities a ha
      · exact hstage st rfl

/-! ## The steps -/

/-- A step leaves a bounded state, and a call that goes on with what it may have read. -/
def Outcome (r : State × Option Stage) : Prop :=
  Bounded r.1 ∧ ∀ stage, r.2 = some stage → stage.Bounded r.1.reached

theorem outcome_none (h : Bounded s) : Outcome (s, none) :=
  ⟨h, fun stage hstage => by cases hstage⟩

theorem outcome_some (h : Bounded s) {stage : Stage} (hstage : stage.Bounded s.reached) :
    Outcome (s, some stage) := by
  refine ⟨h, fun stage' hsome => ?_⟩
  cases hsome
  exact hstage

/-- Only the addition in `delay::process` raises the global delay. -/
theorem outcome_advance (h : Bounded s) {t : Nat} {own : Int} (hown : s.locals[t]? = some own)
    (elapsed : Nat) {stage : Stage} (hstage : stage.Bounded s.reached)
    (hadd : ∀ readLocal readGlobal, stage = .add readLocal readGlobal → s.global ≤ readGlobal) :
    Outcome (s.advance t own elapsed stage) := by
  have hreached := h.localReached own (List.mem_of_getElem? hown)
  cases stage with
  | init => exact outcome_some h h.globalReached
  | constructing value => exact outcome_none (h.setLocal t value)
  | process =>
    rw [State.advance]
    by_cases hactive : s.active = true
    · rw [if_pos hactive]
      exact outcome_some h trivial
    · rw [if_neg hactive]
      exact outcome_some h trivial
  | active => exact outcome_some h trivial
  | compared readGlobal =>
    rw [State.advance]
    by_cases hless : readGlobal < own
    · rw [if_pos hless]
      exact outcome_some h trivial
    · rw [if_neg hless]
      exact outcome_some h trivial
  | less => exact outcome_some h hreached
  | lessLocal readLocal => exact outcome_some h hstage
  | add readLocal readGlobal =>
    have hread : readLocal ≤ s.reached := hstage
    have hglobal := hadd readLocal readGlobal rfl
    refine outcome_none ⟨?_, h.localReached, h.activities⟩
    show s.global + (readLocal - readGlobal) ≤ s.reached
    omega
  | notLess => exact outcome_some h trivial
  | comparedAgain readGlobal =>
    rw [State.advance]
    by_cases hgreater : own < readGlobal
    · rw [if_pos hgreater]
      exact outcome_some h trivial
    · rw [if_neg hgreater]
      exact outcome_none h
  | greater => exact outcome_none (h.setLocal t _)
  | inactive => exact outcome_some h trivial
  | assign readGlobal => exact outcome_none (h.setLocal t readGlobal)
  | credit => exact outcome_some h trivial
  | crediting readGlobal =>
    rw [State.advance]
    by_cases hcredit : 0 < readGlobal - own
    · rw [if_pos hcredit]
      exact outcome_some h trivial
    · rw [if_neg hcredit]
      exact outcome_none h
  | creditBy diff => exact outcome_none (h.setLocal t _)
  | block => exact outcome_some h trivial
  | blocked preblockGlobal => exact outcome_some h trivial
  | postblock diff => exact outcome_none (h.setLocal t _)
  | sync => exact outcome_some h trivial
  | fill value next =>
    rw [State.advance]
    by_cases hnext : next < s.locals.length
    · rw [if_pos hnext]
      exact outcome_some (h.setLocal next value) trivial
    · rw [if_neg hnext]
      exact outcome_none h

/-- A step changes no activity but its own. -/
theorem activities_advance (t : Nat) (own : Int) (elapsed : Nat) (stage : Stage) :
    (s.advance t own elapsed stage).1.activities = s.activities := by
  cases stage with
  | fill value next =>
    rw [State.advance]
    split <;> rfl
  | _ => rfl

theorem bounded_step {e : Event} (h : Bounded s) (hallows : Allows s e)
    (hstep : step s e = some s') : Bounded s' := by
  cases e with
  | setActive active =>
    cases hstep
    exact ⟨h.globalReached, h.localReached, h.activities⟩
  | inherit child parent =>
    obtain ⟨v, -, rfl⟩ := Option.map_eq_some_iff.mp hstep
    exact h.setLocal child v
  | selected t sampleDelay =>
    rw [step] at hstep
    by_cases hactive : s.active = true
    · rw [if_pos hactive] at hstep
      obtain ⟨own, -, rfl⟩ := Option.map_eq_some_iff.mp hstep
      exact h.setLocal t _
    · rw [if_neg hactive] at hstep
      cases hstep
  | call t c =>
    cases hstep
    refine ⟨h.globalReached, h.localReached, fun a ha => ?_⟩
    rcases List.mem_append.mp ha with ha | ha
    · exact h.activities a ha
    · rw [List.mem_singleton.mp ha]
      cases c <;> trivial
  | advance i elapsed =>
    obtain ⟨a, ha, hmap⟩ := Option.bind_eq_some_iff.mp hstep
    obtain ⟨own, hown, rfl⟩ := Option.map_eq_some_iff.mp hmap
    have hadd : ∀ readLocal readGlobal, a.stage = .add readLocal readGlobal →
        s.global ≤ readGlobal := fun readLocal readGlobal hstage =>
      hallows readGlobal (by rw [ha]; exact congrArg Stage.readForAdd hstage)
    obtain ⟨hbounded, hnext⟩ :=
      outcome_advance h hown elapsed (h.activities a (List.mem_of_getElem? ha)) hadd
    have hresumed := hbounded.resume i a.thread hnext
    rw [activities_advance] at hresumed
    exact hresumed
  | noPostblock i =>
    rw [step] at hstep
    split at hstep
    · cases hstep
      exact ⟨h.globalReached, h.localReached,
        fun a ha => h.activities a (List.mem_of_mem_eraseIdx ha)⟩
    · cases hstep

/-! ## Runs -/

/-- When no addition falls between the read and the addition of another one, the global delay
stays within the largest local delay reached. -/
theorem run_global_le_reached {threads : Nat} {es : List Event}
    (hallows : Along step Allows (initial threads) es)
    (hrun : runFrom step (initial threads) es = some s) : s.global ≤ s.reached :=
  (invariant_of_run (fun _ _ _ h hallows hstep => bounded_step h hallows hstep)
    (bounded_initial threads) hallows hrun).globalReached

/-- A selected sample on one thread, imposed on the other one. -/
def imposed : List Event :=
  [.setActive true, .selected 0 10, .call 0 .process, .advance 0 0, .advance 0 0, .advance 0 0,
    .advance 0 0, .advance 0 0, .advance 0 0, .call 1 .process, .advance 0 0, .advance 0 0,
    .advance 0 0, .advance 0 0, .advance 0 0, .advance 0 12]

theorem run_imposed_global_le_reached :
    ∃ s, runFrom step (initial 2) imposed = some s ∧ s.global ≤ s.reached :=
  ⟨_, rfl, run_global_le_reached (show Along step Allows (initial 2) imposed by decide) rfl⟩

/-- Two threads that add the same difference. -/
def addedTwice : List Event :=
  [.setActive true, .selected 0 10, .selected 1 10, .call 0 .process, .call 1 .process,
    .advance 0 0, .advance 1 0, .advance 0 0, .advance 1 0, .advance 0 0, .advance 1 0,
    .advance 0 0, .advance 1 0, .advance 0 0, .advance 1 0, .advance 0 0, .advance 0 0]

theorem not_run_global_le_reached_twice :
    ¬∀ (threads : Nat) (es : List Event) (s : State),
      runFrom step (initial threads) es = some s → s.global ≤ s.reached := by
  intro h
  exact absurd (h 2 addedTwice _ rfl) (by decide)

end Delay
end Causal
end Rocprofsys
