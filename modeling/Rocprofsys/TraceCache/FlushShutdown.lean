import Rocprofsys.TraceCache.FlushWorker

namespace Rocprofsys
namespace TraceCache

open Base

namespace FlushWorker

/-! ## What a step can do -/

/-- Stores leave everything but the buffer and what is reserved in it. -/
structure Stores (s s' : State) : Prop where
  isRunning : s'.isRunning = s.isRunning
  originPid : s'.system.storage.originPid = s.system.storage.originPid
  exitFinished : s'.exitFinished = s.exitFinished
  isOpen : s'.isOpen = s.isOpen
  thread : s'.thread = s.thread
  stopper : s'.stopper = s.stopper
  flushing : s'.system.flushing = s.system.flushing
  outputs : s'.system.outputs = s.system.outputs
  reserved : s.system.reserved <+: s'.system.reserved

inductive Steps (s : State) : Action → State → Prop
  | store {a : Action} {s' : State} (hown : a.isOwn = false) (h : Stores s s') : Steps s a s'
  | left {currentPid : Int} (hout : s.stopper = .outside) (hthread : s.thread.isSome = true) :
    Steps s (.start currentPid) { s with stopper := .terminated }
  | start {currentPid : Int} (hout : s.stopper = .outside) (hthread : s.thread = none) :
    Steps s (.start currentPid) { s with
      system.storage.isRunning := true
      system.storage.originPid := currentPid
      system.outputs := []
      isOpen := true
      thread := some .checking }
  | shutdown {currentPid : Int} (hout : s.stopper = .outside) (hthread : s.thread.isSome = true) :
    Steps s (.shutdown currentPid)
      { s.setRunning false with stopper := .signalled currentPid }
  | check (h : s.thread = some .checking) :
    Steps s .work { s with thread := some (.flushing !s.isRunning) }
  | idle {force : Bool} (h : s.thread = some (.flushing force))
    (hflushes : s.system.storage.flushes force = false) :
    Steps s .work { s with
      thread := some (if s.system.flushing.isSome then .writing force else State.afterFlush force) }
  | flush {force : Bool} (h : s.thread = some (.flushing force))
    (hflushes : s.system.storage.flushes force = true) :
    Steps s .work { s with system := s.system.snapshot force, thread := some (.writing force) }
  | write {force : Bool} {snap : Snapshot} (h : s.thread = some (.writing force))
    (hsnap : s.system.flushing = some snap) :
    Steps s .work
      { s with system := s.system.write snap, thread := some (State.afterFlush force) }
  | test (h : s.thread = some .testing) :
    Steps s .work { s with thread := some (if s.isRunning then .dozing else .checking) }
  | doze (h : s.thread = some .dozing) : Steps s .work { s with thread := some .sleeping }
  | close (h : s.thread = some .closing) :
    Steps s .work { s with isOpen := false, thread := some .finishing }
  | finish (h : s.thread = some .finishing) :
    Steps s .work { s with exitFinished := true, thread := some .notifying }
  | notify (h : s.thread = some .notifying) :
    Steps s .work { s with thread := some .exited, stopper := s.stopper.wake }
  | signal {currentPid : Int} (h : s.stopper = .signalled currentPid) :
    Steps s .stop { s with
      thread := s.thread.map WorkerPoint.wake
      stopper := if currentPid = s.system.storage.originPid then .testing else .outside }
  | testExit (h : s.stopper = .testing) :
    Steps s .stop { s with stopper := if s.exitFinished then .joining else .dozing }
  | dozeStop (h : s.stopper = .dozing) : Steps s .stop { s with stopper := .sleeping }
  | join (h : s.stopper = .joining) (hthread : s.thread = some .exited) :
    Steps s .stop { s with thread := none, stopper := .outside }
  | timeOut (h : s.thread = some .sleeping) : Steps s .timeOut { s with thread := some .checking }
  | wakeWorker (h : s.thread = some .sleeping) :
    Steps s .wakeWorker { s with thread := some .testing }
  | wakeStopper (h : s.stopper = .sleeping) : Steps s .wakeStopper { s with stopper := .testing }

variable {s s' : State} {a : Action}

theorem Stores.refl (s : State) : Stores s s :=
  ⟨rfl, rfl, rfl, rfl, rfl, rfl, rfl, rfl, List.prefix_refl _⟩

theorem isRunning_reserve (system : System) (writer : Nat) (r : Record) :
    (system.reserve writer r).storage.isRunning = system.storage.isRunning :=
  system.storage.prepared_isRunning _

theorem originPid_reserve (system : System) (writer : Nat) (r : Record) :
    (system.reserve writer r).storage.originPid = system.storage.originPid := by
  show (system.storage.prepared _).originPid = _
  unfold BufferStorage.prepared
  split <;> rfl

theorem steps_of_work (h : s.thread.bind s.work = some s') : Steps s .work s' := by
  obtain ⟨point, hpoint, hwork⟩ := Option.bind_eq_some_iff.mp h
  cases point with
  | checking =>
    cases hwork
    exact .check hpoint
  | flushing force =>
    cases hflushes : s.system.storage.flushes force with
    | false =>
      have hsnapshot : s.system.snapshot force = s.system := by
        simp [System.snapshot, BufferStorage.snapshot, hflushes]
      simp only [State.work, hsnapshot, Option.some.injEq] at hwork
      rw [← hwork]
      exact .idle hpoint hflushes
    | true =>
      have hsome : (s.system.snapshot force).flushing.isSome = true := by
        simp [System.snapshot, BufferStorage.snapshot, hflushes]
      simp only [State.work, hsome, if_true, Option.some.injEq] at hwork
      rw [← hwork]
      exact .flush hpoint hflushes
  | writing force =>
    obtain ⟨snap, hsnap, rfl⟩ := Option.map_eq_some_iff.mp hwork
    exact .write hpoint hsnap
  | testing =>
    cases hwork
    exact .test hpoint
  | dozing =>
    cases hwork
    exact .doze hpoint
  | sleeping => cases hwork
  | closing =>
    cases hwork
    exact .close hpoint
  | finishing =>
    cases hwork
    exact .finish hpoint
  | notifying =>
    cases hwork
    exact .notify hpoint
  | exited => cases hwork

theorem steps_of_stop (h : s.stop = some s') : Steps s .stop s' := by
  unfold State.stop at h
  cases hstopper : s.stopper with
  | outside =>
    rw [hstopper] at h
    cases h
  | signalled currentPid =>
    rw [hstopper] at h
    cases h
    exact .signal hstopper
  | testing =>
    rw [hstopper] at h
    cases h
    exact .testExit hstopper
  | dozing =>
    rw [hstopper] at h
    cases h
    exact .dozeStop hstopper
  | sleeping =>
    rw [hstopper] at h
    cases h
  | joining =>
    rw [hstopper] at h
    obtain ⟨hthread, heq⟩ := Option.ite_none_right_eq_some.mp h
    cases heq
    exact .join hstopper hthread
  | terminated =>
    rw [hstopper] at h
    cases h

theorem steps_of_start {currentPid : Int} (hout : s.stopper = .outside) :
    Steps s (.start currentPid) (s.start currentPid) := by
  unfold State.start
  split
  · exact .store rfl (.refl s)
  · split
    · next hthread => exact .left hout hthread
    · next hthread => exact .start hout (Option.not_isSome_iff_eq_none.mp hthread)

theorem steps_of_shutdown {currentPid : Int} (hout : s.stopper = .outside) :
    Steps s (.shutdown currentPid) (s.shutdown currentPid) := by
  unfold State.shutdown
  split
  · next h => exact .shutdown hout (Bool.and_eq_true_iff.mp h).2
  · exact .store rfl (.refl s)

theorem steps_of_step (h : step s a = some s') : Steps s a s' := by
  cases a with
  | enter writer r =>
    obtain ⟨_, heq⟩ := Option.ite_none_right_eq_some.mp h
    cases heq
    exact .store rfl ⟨rfl, rfl, rfl, rfl, rfl, rfl, rfl, rfl, List.prefix_refl _⟩
  | reserve writer =>
    obtain ⟨r, _, rfl⟩ := Option.map_eq_some_iff.mp h
    exact .store rfl ⟨isRunning_reserve _ _ _, originPid_reserve _ _ _, rfl, rfl, rfl, rfl, rfl,
      rfl, List.prefix_append _ _⟩
  | serialize writer =>
    obtain ⟨t, _, rfl⟩ := Option.map_eq_some_iff.mp h
    exact .store rfl ⟨rfl, rfl, rfl, rfl, rfl, rfl, rfl, rfl, List.prefix_refl _⟩
  | start currentPid =>
    obtain ⟨hout, heq⟩ := Option.ite_none_right_eq_some.mp h
    cases heq
    exact steps_of_start hout
  | shutdown currentPid =>
    obtain ⟨hout, heq⟩ := Option.ite_none_right_eq_some.mp h
    cases heq
    exact steps_of_shutdown hout
  | work => exact steps_of_work h
  | timeOut =>
    obtain ⟨hthread, heq⟩ := Option.ite_none_right_eq_some.mp h
    cases heq
    exact .timeOut hthread
  | stop => exact steps_of_stop h
  | wakeWorker =>
    obtain ⟨hthread, heq⟩ := Option.ite_none_right_eq_some.mp h
    cases heq
    exact .wakeWorker hthread
  | wakeStopper =>
    obtain ⟨hstopper, heq⟩ := Option.ite_none_right_eq_some.mp h
    cases heq
    exact .wakeStopper hstopper

/-! ## What holds at the points of the thread -/

/-- Whether `stop` has been called and has not returned. -/
def StopPoint.isInside : StopPoint → Bool
  | .outside | .terminated => false
  | _ => true

/-- What holds while the thread is at a point, or is not there. -/
def At (s : State) : Option WorkerPoint → Prop
  | none =>
    s.system.flushing = none ∧ s.isRunning = false ∧ s.isOpen = false ∧ s.stopper.isInside = false
  | some (.flushing force) => s.system.flushing = none ∧ (force = true → s.isRunning = false)
  | some (.writing force) =>
    s.system.flushing.isSome = true ∧ (force = true → s.isRunning = false)
  | some .closing => s.system.flushing = none ∧ s.isRunning = false
  | some .finishing => s.system.flushing = none ∧ s.isRunning = false ∧ s.isOpen = false
  | some .notifying | some .exited =>
    s.system.flushing = none ∧ s.isRunning = false ∧ s.isOpen = false ∧ s.exitFinished = true
  | some _ => s.system.flushing = none

theorem at_initial : At State.initial State.initial.thread := ⟨rfl, rfl, rfl, rfl⟩

theorem At.stores {point : Option WorkerPoint} (h : At s point) (hstores : Stores s s') :
    At s' point := by
  have hflushing := hstores.flushing
  have hrunning := hstores.isRunning
  have hopen := hstores.isOpen
  have hfinished := hstores.exitFinished
  have hstopper := hstores.stopper
  cases point with
  | none => simpa [At, hflushing, hrunning, hopen, hstopper] using h
  | some point => cases point <;> simpa [At, hflushing, hrunning, hopen, hfinished] using h

/-- Neither the place of `stop` nor a cleared `is_running` matters where there is a thread. -/
theorem At.stopper {point : WorkerPoint} (h : At s (some point)) (stopper : StopPoint) :
    At { s with stopper := stopper } (some point) := by
  cases point <;> exact h

theorem At.cleared {point : WorkerPoint} (h : At s (some point)) :
    At (s.setRunning false) (some point) := by
  cases point with
  | flushing force => exact ⟨h.1, fun _ => rfl⟩
  | writing force => exact ⟨h.1, fun _ => rfl⟩
  | closing => exact ⟨h.1, rfl⟩
  | finishing => exact ⟨h.1, rfl, h.2.2⟩
  | notifying => exact ⟨h.1, rfl, h.2.2⟩
  | exited => exact ⟨h.1, rfl, h.2.2⟩
  | checking => exact h
  | testing => exact h
  | dozing => exact h
  | sleeping => exact h

theorem At.wake {point : WorkerPoint} (h : At s (some point)) : At s (some point.wake) := by
  cases point <;> exact h

/-- A thread that `stop` waits for is there. -/
theorem At.isSome {point : Option WorkerPoint} (h : At s point)
    (hinside : s.stopper.isInside = true) : point.isSome = true := by
  cases point with
  | none =>
    have houtside : s.stopper.isInside = false := h.2.2.2
    rw [houtside] at hinside
    cases hinside
  | some point => rfl

theorem At.afterFlush {force : Bool} (hflushing : s.system.flushing = none)
    (hrunning : force = true → s.isRunning = false) :
    At s (some (State.afterFlush force)) := by
  cases force with
  | false => exact hflushing
  | true => exact ⟨hflushing, hrunning rfl⟩

theorem flushing_snapshot {system : System} {force : Bool}
    (hflushes : system.storage.flushes force = true) :
    (system.snapshot force).flushing =
      some ⟨system.storage.tail, system.storage.head, system.reserved, system.completed⟩ := by
  simp [System.snapshot, BufferStorage.snapshot, hflushes]

theorem isRunning_snapshot (system : System) (force : Bool) :
    (system.snapshot force).storage.isRunning = system.storage.isRunning := by
  unfold System.snapshot BufferStorage.snapshot
  cases system.storage.flushes force <;> rfl

theorem Steps.at (hstep : Steps s a s') (h : At s s.thread) : At s' s'.thread := by
  cases hstep with
  | store _ hstores =>
    rw [hstores.thread]
    exact h.stores hstores
  | left _ hthread =>
    obtain ⟨point, hpoint⟩ := Option.isSome_iff_exists.mp hthread
    rw [hpoint] at h
    show At _ s.thread
    rw [hpoint]
    exact h.stopper _
  | start _ hthread =>
    rw [hthread] at h
    exact h.1
  | shutdown _ hthread =>
    obtain ⟨point, hpoint⟩ := Option.isSome_iff_exists.mp hthread
    rw [hpoint] at h
    show At _ s.thread
    rw [hpoint]
    exact h.cleared.stopper _
  | check hpoint =>
    rw [hpoint] at h
    refine ⟨h, fun hforce => ?_⟩
    show s.isRunning = false
    simpa using hforce
  | idle hpoint hflushes =>
    rw [hpoint] at h
    show At _ (some (if s.system.flushing.isSome then _ else _))
    rw [h.1]
    exact At.afterFlush h.1 h.2
  | flush hpoint hflushes =>
    rw [hpoint] at h
    refine ⟨?_, fun hforce => ?_⟩
    · show (s.system.snapshot _).flushing.isSome = true
      rw [flushing_snapshot hflushes]
      rfl
    · show (s.system.snapshot _).storage.isRunning = false
      rw [isRunning_snapshot]
      exact h.2 hforce
  | write hpoint hsnap =>
    rw [hpoint] at h
    exact At.afterFlush rfl h.2
  | test hpoint =>
    rw [hpoint] at h
    show At _ (some (if s.isRunning then _ else _))
    split <;> exact h
  | doze hpoint =>
    rw [hpoint] at h
    exact h
  | close hpoint =>
    rw [hpoint] at h
    exact ⟨h.1, h.2, rfl⟩
  | finish hpoint =>
    rw [hpoint] at h
    exact ⟨h.1, h.2.1, h.2.2, rfl⟩
  | notify hpoint =>
    rw [hpoint] at h
    exact h
  | signal hstopper =>
    obtain ⟨point, hpoint⟩ := Option.isSome_iff_exists.mp (h.isSome (by rw [hstopper]; rfl))
    rw [hpoint] at h
    show At _ (s.thread.map WorkerPoint.wake)
    rw [hpoint]
    exact h.wake.stopper _
  | testExit hstopper =>
    obtain ⟨point, hpoint⟩ := Option.isSome_iff_exists.mp (h.isSome (by rw [hstopper]; rfl))
    rw [hpoint] at h
    show At _ s.thread
    rw [hpoint]
    exact h.stopper _
  | dozeStop hstopper =>
    obtain ⟨point, hpoint⟩ := Option.isSome_iff_exists.mp (h.isSome (by rw [hstopper]; rfl))
    rw [hpoint] at h
    show At _ s.thread
    rw [hpoint]
    exact h.stopper _
  | join hstopper hthread =>
    rw [hthread] at h
    exact ⟨h.1, h.2.1, h.2.2.1, rfl⟩
  | timeOut hpoint =>
    rw [hpoint] at h
    exact h
  | wakeWorker hpoint =>
    rw [hpoint] at h
    exact h
  | wakeStopper hstopper =>
    obtain ⟨point, hpoint⟩ := Option.isSome_iff_exists.mp (h.isSome (by rw [hstopper]; rfl))
    rw [hpoint] at h
    show At _ s.thread
    rw [hpoint]
    exact h.stopper _

theorem at_of_run {actions : List Action} (h : At s s.thread)
    (hrun : runFrom step s actions = some s') : At s' s'.thread :=
  invariant_of_run (fun _ _ _ hat _ hstep => (steps_of_step hstep).at hat) h
    (along_of_forall (fun _ _ => trivial) s actions) hrun

/-! ## How long a shutdown takes

Once `is_running` is cleared the thread only moves towards its end. -/

def WorkerPoint.remaining : WorkerPoint → Nat
  | .dozing | .flushing false => 9
  | .sleeping | .writing false => 8
  | .testing => 7
  | .checking => 6
  | .flushing true => 5
  | .writing true => 4
  | .closing => 3
  | .finishing => 2
  | .notifying => 1
  | .exited => 0

def StopPoint.remaining : StopPoint → Nat
  | .signalled _ => 5
  | .testing => 4
  | .dozing => 3
  | .sleeping => 2
  | .joining => 1
  | .outside | .terminated => 0

/-- A notification costs the thread a step and gives `stop` two, hence the factor. -/
def State.remaining (s : State) : Nat :=
  3 * s.thread.elim 0 WorkerPoint.remaining + s.stopper.remaining

theorem WorkerPoint.remaining_le (point : WorkerPoint) : point.remaining ≤ 9 := by
  cases point with
  | flushing force => cases force <;> simp [remaining]
  | writing force => cases force <;> simp [remaining]
  | _ => simp [remaining]

theorem WorkerPoint.remaining_wake (point : WorkerPoint) :
    point.wake.remaining ≤ point.remaining := by
  cases point with
  | sleeping => simp [wake, remaining]
  | _ => exact Nat.le_refl _

theorem StopPoint.remaining_wake (point : StopPoint) :
    point.wake.remaining ≤ point.remaining + 2 := by
  cases point <;> simp [wake, remaining]

theorem WorkerPoint.remaining_afterFlush (force : Bool) :
    (State.afterFlush force).remaining + 1 ≤ (WorkerPoint.writing force).remaining ∧
      (WorkerPoint.writing force).remaining + 1 = (WorkerPoint.flushing force).remaining := by
  cases force <;> exact ⟨by decide, rfl⟩

theorem remaining_of_thread {point point' : WorkerPoint} (h : s.thread = some point)
    (h' : s'.thread = some point') (hlt : point'.remaining + 1 ≤ point.remaining)
    (hstopper : s'.stopper.remaining ≤ s.stopper.remaining + 2) :
    s'.remaining + 1 ≤ s.remaining := by
  rw [State.remaining, State.remaining, h, h', Option.elim_some, Option.elim_some]
  omega

theorem remaining_of_stopper
    (hthread : s'.thread.elim 0 WorkerPoint.remaining ≤ s.thread.elim 0 WorkerPoint.remaining)
    (hlt : s'.stopper.remaining + 1 ≤ s.stopper.remaining) :
    s'.remaining + 1 ≤ s.remaining := by
  rw [State.remaining, State.remaining]
  omega

/-- A step of the storage's own takes one off, and no other step that is taken while it shuts down
adds one, unless it wakes `stop` without a notification. -/
theorem Steps.remaining (hstep : Steps s a s') (hrunning : s.isRunning = false)
    (hinside : s.stopper.isInside = true) (hwake : a ≠ .wakeStopper) :
    s'.isRunning = false ∧ s'.remaining + (if a.isOwn then 1 else 0) ≤ s.remaining := by
  have hout : s.stopper ≠ .outside := by
    intro hout
    rw [hout] at hinside
    cases hinside
  have hstopper : s.stopper.remaining ≤ s.stopper.remaining + 2 := Nat.le_add_right _ _
  cases hstep with
  | store hown hstores =>
    refine ⟨hstores.isRunning.trans hrunning, ?_⟩
    rw [State.remaining, hstores.thread, hstores.stopper, hown]
    exact Nat.le_refl _
  | left h _ => exact absurd h hout
  | start h _ => exact absurd h hout
  | shutdown h _ => exact absurd h hout
  | check hpoint =>
    have hforce : some (WorkerPoint.flushing !s.isRunning) = some (.flushing true) := by
      rw [hrunning]
      rfl
    exact ⟨hrunning, remaining_of_thread hpoint hforce (Nat.le_refl 6) hstopper⟩
  | @idle force hpoint _ =>
    refine ⟨hrunning, remaining_of_thread hpoint rfl ?_ hstopper⟩
    obtain ⟨hafter, hwriting⟩ := WorkerPoint.remaining_afterFlush force
    split <;> omega
  | @flush force hpoint _ =>
    refine ⟨(isRunning_snapshot _ _).trans hrunning, remaining_of_thread hpoint rfl ?_ hstopper⟩
    obtain ⟨_, hwriting⟩ := WorkerPoint.remaining_afterFlush force
    omega
  | @write force _ hpoint _ =>
    obtain ⟨hafter, _⟩ := WorkerPoint.remaining_afterFlush force
    exact ⟨hrunning, remaining_of_thread hpoint rfl hafter hstopper⟩
  | test hpoint =>
    have hpoint' : some (if s.isRunning then WorkerPoint.dozing else .checking) =
        some .checking := by
      rw [hrunning]
      rfl
    exact ⟨hrunning, remaining_of_thread hpoint hpoint' (Nat.le_refl 7) hstopper⟩
  | doze hpoint => exact ⟨hrunning, remaining_of_thread hpoint rfl (Nat.le_refl 9) hstopper⟩
  | close hpoint => exact ⟨hrunning, remaining_of_thread hpoint rfl (Nat.le_refl 3) hstopper⟩
  | finish hpoint => exact ⟨hrunning, remaining_of_thread hpoint rfl (Nat.le_refl 2) hstopper⟩
  | notify hpoint =>
    exact ⟨hrunning,
      remaining_of_thread hpoint rfl (Nat.le_refl 1) s.stopper.remaining_wake⟩
  | @signal currentPid h =>
    refine ⟨hrunning, remaining_of_stopper ?_ ?_⟩
    · show (s.thread.map WorkerPoint.wake).elim 0 WorkerPoint.remaining ≤ _
      cases s.thread with
      | none => exact Nat.le_refl _
      | some point => exact point.remaining_wake
    · show (if currentPid = s.system.storage.originPid then StopPoint.testing
        else .outside).remaining + 1 ≤ s.stopper.remaining
      rw [h]
      split
      · exact Nat.le_refl 5
      · exact Nat.le_add_left 1 4
  | testExit h =>
    refine ⟨hrunning, remaining_of_stopper (Nat.le_refl _) ?_⟩
    show (if s.exitFinished then StopPoint.joining else .dozing).remaining + 1 ≤
      s.stopper.remaining
    rw [h]
    split
    · exact Nat.le_add_left 2 2
    · exact Nat.le_refl 4
  | dozeStop h =>
    refine ⟨hrunning, remaining_of_stopper (Nat.le_refl _) ?_⟩
    rw [h]
    exact Nat.le_refl 3
  | join h _ =>
    refine ⟨hrunning, remaining_of_stopper (Nat.zero_le _) ?_⟩
    rw [h]
    exact Nat.le_refl 1
  | timeOut hpoint =>
    exact ⟨hrunning, remaining_of_thread hpoint rfl (Nat.le_add_left 7 1) hstopper⟩
  | wakeWorker hpoint =>
    exact ⟨hrunning,
      Nat.le_of_succ_le (remaining_of_thread hpoint rfl (Nat.le_refl 8) hstopper)⟩
  | wakeStopper _ => exact absurd rfl hwake

/-- A step taken while `stop` runs. -/
def Inside (s : State) (_ : Action) : Prop := s.stopper.isInside = true

theorem remaining_of_run {actions : List Action} (hrunning : s.isRunning = false)
    (hinside : Along step Inside s actions) (hwake : Action.wakeStopper ∉ actions)
    (hrun : runFrom step s actions = some s') :
    actions.countP Action.isOwn + s'.remaining ≤ s.remaining := by
  induction actions generalizing s with
  | nil =>
    cases hrun
    simp
  | cons a actions ih =>
    obtain ⟨t, hstep, hrest⟩ := Option.bind_eq_some_iff.mp hrun
    rw [List.mem_cons, not_or] at hwake
    obtain ⟨hrunning', hle⟩ :=
      (steps_of_step hstep).remaining hrunning hinside.1 (Ne.symm hwake.1)
    have hlater := ih hrunning' (hinside.2 t hstep) hwake.2 hrest
    rw [List.countP_cons]
    omega

/-! ## The notification that nobody hears -/

/-- The thread notifies `stop` when that has seen `exit_finished` unset and does not sleep yet. -/
def Unheard (s : State) (actions : List Action) : Prop :=
  ∃ before after s', actions = before ++ Action.work :: after ∧
    runFrom step s before = some s' ∧ s'.thread = some .notifying ∧ s'.stopper = .dozing

/-- Whether `stop` sleeps or is about to. -/
def StopPoint.awaits : StopPoint → Bool
  | .dozing | .sleeping => true
  | _ => false

/-- `stop` waits for a thread that has nothing left to do. -/
def Lost (s : State) : Prop := s.thread = some .exited ∧ s.stopper.awaits = true

/-- A step is the unheard notification. -/
def Misses (s : State) (a : Action) : Prop :=
  a = .work ∧ s.thread = some .notifying ∧ s.stopper = .dozing

theorem lost_notify :
    Lost { s with thread := some .exited, stopper := s.stopper.wake } ↔ s.stopper = .dozing := by
  constructor
  · intro hlost
    have hawaits : s.stopper.wake.awaits = true := hlost.2
    cases hs : s.stopper with
    | dozing => rfl
    | _ =>
      rw [hs] at hawaits
      cases hawaits
  · intro hs
    refine ⟨rfl, ?_⟩
    show s.stopper.wake.awaits = true
    rw [hs]
    rfl

/-- Whether the thread has set `exit_finished`. -/
def WorkerPoint.isLate : WorkerPoint → Bool
  | .notifying | .exited => true
  | _ => false

/-- The thread is neither at its end nor about to notify. -/
theorem lost_iff_of_thread {point point' : WorkerPoint} (h : s.thread = some point)
    (h' : s'.thread = some point') (hpoint : point.isLate = false) (hpoint' : point' ≠ .exited) :
    Lost s' ↔ Lost s ∨ Misses s a := by
  constructor
  · intro hlost
    exact absurd (Option.some.inj (h'.symm.trans hlost.1)) hpoint'
  · intro hlost
    rcases hlost with hlost | hmisses
    · cases h.symm.trans hlost.1
      cases hpoint
    · cases h.symm.trans hmisses.2.1
      cases hpoint

theorem not_lost_of_stopper (h : s.stopper.awaits = false) : ¬ Lost s := by
  intro hlost
  rw [hlost.2] at h
  cases h

/-- `stop` does not wait, before or after. -/
theorem lost_iff_of_stopper (h : s.stopper.awaits = false) (h' : s'.stopper.awaits = false) :
    Lost s' ↔ Lost s ∨ Misses s a := by
  constructor
  · intro hlost
    exact absurd hlost (not_lost_of_stopper h')
  · intro hlost
    rcases hlost with hlost | hmisses
    · exact absurd hlost (not_lost_of_stopper h)
    · rw [hmisses.2.2] at h
      cases h

/-- The notification is lost where it is missed, and stays so. -/
theorem Steps.lost (hstep : Steps s a s') (hat : At s s.thread) (hwake : a ≠ .wakeStopper) :
    Lost s' ↔ Lost s ∨ Misses s a := by
  cases hstep with
  | store hown hstores =>
    have hmisses : ¬ Misses s a := by
      intro h
      rw [h.1] at hown
      cases hown
    simp [Lost, hstores.thread, hstores.stopper, hmisses]
  | left hout _ => exact lost_iff_of_stopper (by rw [hout]; rfl) rfl
  | start hout _ => exact lost_iff_of_stopper (by rw [hout]; rfl) (by rw [hout]; rfl)
  | shutdown hout _ => exact lost_iff_of_stopper (by rw [hout]; rfl) rfl
  | check hpoint =>
    exact lost_iff_of_thread hpoint rfl rfl (fun h => WorkerPoint.noConfusion h)
  | @idle force hpoint _ =>
    rw [hpoint] at hat
    refine @lost_iff_of_thread _ _ _ _ (State.afterFlush force) hpoint ?_ rfl ?_
    · show some (if s.system.flushing.isSome then _ else _) = _
      rw [hat.1]
      rfl
    · cases force <;> exact fun h => WorkerPoint.noConfusion h
  | flush hpoint _ =>
    exact lost_iff_of_thread hpoint rfl rfl (fun h => WorkerPoint.noConfusion h)
  | @write force _ hpoint _ =>
    refine lost_iff_of_thread hpoint rfl rfl ?_
    cases force <;> exact fun h => WorkerPoint.noConfusion h
  | test hpoint =>
    refine lost_iff_of_thread hpoint rfl rfl ?_
    split <;> exact fun h => WorkerPoint.noConfusion h
  | doze hpoint => exact lost_iff_of_thread hpoint rfl rfl (by decide)
  | close hpoint => exact lost_iff_of_thread hpoint rfl rfl (by decide)
  | finish hpoint => exact lost_iff_of_thread hpoint rfl rfl (by decide)
  | notify hpoint =>
    have hbefore : ¬ Lost s := fun h =>
      WorkerPoint.noConfusion (Option.some.inj (hpoint.symm.trans h.1))
    rw [lost_notify]
    simp [hbefore, Misses, hpoint]
  | @signal currentPid hstopper =>
    refine lost_iff_of_stopper (by rw [hstopper]; rfl) ?_
    show (if currentPid = s.system.storage.originPid then StopPoint.testing else _).awaits = false
    split <;> rfl
  | testExit hstopper =>
    have hbefore : ¬ Lost s := not_lost_of_stopper (by rw [hstopper]; rfl)
    have hafter : ¬ Lost { s with stopper := if s.exitFinished then .joining else .dozing } := by
      intro hlost
      have hthread : s.thread = some .exited := hlost.1
      rw [hthread] at hat
      have hawaits : (if s.exitFinished then StopPoint.joining else .dozing).awaits = true :=
        hlost.2
      rw [if_pos hat.2.2.2] at hawaits
      cases hawaits
    simp [hbefore, hafter, Misses]
  | dozeStop hstopper => simp [Lost, hstopper, StopPoint.awaits, Misses]
  | join hstopper _ => exact lost_iff_of_stopper (by rw [hstopper]; rfl) rfl
  | timeOut hpoint => exact lost_iff_of_thread hpoint rfl rfl (by decide)
  | wakeWorker hpoint => exact lost_iff_of_thread hpoint rfl rfl (by decide)
  | wakeStopper _ => exact absurd rfl hwake

theorem not_unheard_nil : ¬ Unheard s [] := by
  intro h
  obtain ⟨before, _, _, hsplit, _⟩ := h
  cases before <;> cases hsplit

/-- A longer run misses the notification before its last step or at it. -/
theorem unheard_append_singleton {done : List Action} {t : State}
    (hrun : runFrom step s done = some t) :
    Unheard s (done ++ [a]) ↔ Unheard s done ∨ Misses t a := by
  constructor
  · intro h
    obtain ⟨before, after, u, hsplit, hbefore, hu⟩ := h
    rcases List.eq_nil_or_concat after with rfl | ⟨after, last, rfl⟩
    · obtain ⟨rfl, ha⟩ := List.append_inj' hsplit rfl
      rw [hrun] at hbefore
      cases hbefore
      cases ha
      exact Or.inr ⟨rfl, hu⟩
    · refine Or.inl ⟨before, after, u, ?_, hbefore, hu⟩
      rw [List.concat_eq_append, ← List.cons_append, ← List.append_assoc] at hsplit
      exact (List.append_inj' hsplit rfl).1
  · intro h
    rcases h with hunheard | hmisses
    · obtain ⟨before, after, u, hsplit, hu⟩ := hunheard
      exact ⟨before, after ++ [a], u, by rw [hsplit]; simp, hu⟩
    · exact ⟨done, [], t, by rw [hmisses.1], hrun, hmisses.2⟩

/-- A run that no spurious wake-up helps loses the notification exactly by missing it. -/
theorem lost_of_run {actions : List Action} (hat : At s s.thread) (hlost : ¬ Lost s)
    (hwake : Action.wakeStopper ∉ actions) (hrun : runFrom step s actions = some s') :
    Lost s' ↔ Unheard s actions := by
  have hinv : ∀ done t e t',
      (Action.wakeStopper ∉ done →
        runFrom step s done = some t ∧ (Lost t ↔ Unheard s done)) →
      step t e = some t' →
      (Action.wakeStopper ∉ done ++ [e] →
        runFrom step s (done ++ [e]) = some t' ∧ (Lost t' ↔ Unheard s (done ++ [e]))) := by
    intro done t e t' hdone hstep hnot
    rw [List.mem_append, not_or, List.mem_singleton] at hnot
    obtain ⟨hrun, hiff⟩ := hdone hnot.1
    refine ⟨?_, ?_⟩
    · rw [runFrom_append, hrun]
      show (step t e).bind _ = _
      rw [hstep]
      rfl
    · rw [(steps_of_step hstep).lost (at_of_run hat hrun) (Ne.symm hnot.2), hiff,
        unheard_append_singleton hrun]
  have hstart : Lost s ↔ Unheard s [] := iff_of_false hlost not_unheard_nil
  have hend := @history_of_run _ _ step
    (fun done t => Action.wakeStopper ∉ done →
      runFrom step s done = some t ∧ (Lost t ↔ Unheard s done))
    hinv [] s s' actions (fun _ => ⟨rfl, hstart⟩) hrun
  exact (hend hwake).2

/-- Somebody can take a step until `stop` sleeps in wait for a thread that has exited. -/
theorem blocked_iff (hat : At s s.thread) (hinside : s.stopper.isInside = true) :
    (∀ a, a.isOwn = true → step s a = none) ↔ s.stopper = .sleeping ∧ Lost s := by
  constructor
  · intro h
    have hwork : s.thread.bind s.work = none := h .work rfl
    have hstop : s.stop = none := h .stop rfl
    have htime : step s .timeOut = none := h .timeOut rfl
    obtain ⟨point, hpoint⟩ := Option.isSome_iff_exists.mp (hat.isSome hinside)
    have hexited : point = .exited := by
      rw [hpoint] at hat
      rw [hpoint, Option.bind_some] at hwork
      cases point with
      | exited => rfl
      | writing force =>
        obtain ⟨snap, hsnap⟩ := Option.isSome_iff_exists.mp hat.1
        rw [State.work, hsnap] at hwork
        cases hwork
      | sleeping =>
        rw [step, if_pos hpoint] at htime
        cases htime
      | _ => cases hwork
    subst hexited
    unfold State.stop at hstop
    cases hstopper : s.stopper with
    | outside =>
      rw [hstopper] at hinside
      cases hinside
    | terminated =>
      rw [hstopper] at hinside
      cases hinside
    | sleeping => exact ⟨rfl, hpoint, by rw [hstopper]; rfl⟩
    | joining =>
      rw [hstopper] at hstop
      simp [hpoint] at hstop
    | _ =>
      rw [hstopper] at hstop
      cases hstop
  · intro ⟨hstopper, hthread, _⟩ a hown
    cases a with
    | work =>
      show s.thread.bind s.work = none
      rw [hthread]
      rfl
    | timeOut =>
      rw [step, hthread]
      rfl
    | stop =>
      show s.stop = none
      rw [State.stop, hstopper]
    | _ => cases hown

theorem shutdown_eq (currentPid : Int) (hrunning : s.isRunning = true) (hat : At s s.thread) :
    s.shutdown currentPid = { s.setRunning false with stopper := .signalled currentPid } := by
  cases hthread : s.thread with
  | none =>
    rw [hthread] at hat
    rw [hat.2.1] at hrunning
    cases hrunning
  | some point =>
    rw [State.shutdown, hrunning, hthread]
    rfl

theorem remaining_signalled (currentPid : Int) :
    State.remaining { s.setRunning false with stopper := .signalled currentPid } ≤ 32 := by
  show 3 * s.thread.elim 0 WorkerPoint.remaining + 5 ≤ 32
  cases s.thread with
  | none => decide
  | some point =>
    have hle := point.remaining_le
    show 3 * point.remaining + 5 ≤ 32
    omega

/-- Shutting down takes the worker and the caller at most 32 steps, whatever the threads that store
do.  As long as it has not returned one of the two can go on, except when the worker has notified
between the caller's test of `exit_finished` and its sleep: then nothing but a spurious wake-up ends
the wait. -/
theorem shutdown_settles {actions during : List Action} {s t : State} {currentPid : Int}
    (hbefore : runFrom step State.initial actions = some s) (hrunning : s.isRunning = true)
    (hcall : runFrom step s (.shutdown currentPid :: during) = some t)
    (hinside : Along step Inside (s.shutdown currentPid) during)
    (hreturned : t.stopper.isInside = true) (hwake : Action.wakeStopper ∉ during) :
    during.countP Action.isOwn ≤ 32 ∧
      ((∀ a, a.isOwn = true → step t a = none) ↔
        t.stopper = .sleeping ∧ Unheard (s.shutdown currentPid) during) := by
  obtain ⟨s₁, hfirst, hrun⟩ := Option.bind_eq_some_iff.mp hcall
  obtain ⟨_, heq⟩ := Option.ite_none_right_eq_some.mp hfirst
  cases heq
  have hat := at_of_run at_initial hbefore
  have hat₁ := (steps_of_step hfirst).at hat
  have hsignalled := shutdown_eq currentPid hrunning hat
  have hcleared : (s.shutdown currentPid).isRunning = false := by
    rw [hsignalled]
    rfl
  have hlost : ¬ Lost (s.shutdown currentPid) := by
    rw [hsignalled]
    exact not_lost_of_stopper rfl
  have hbound : (s.shutdown currentPid).remaining ≤ 32 := by
    rw [hsignalled]
    exact remaining_signalled currentPid
  have hcount := remaining_of_run hcleared hinside hwake hrun
  refine ⟨by omega, ?_⟩
  rw [blocked_iff (at_of_run hat₁ hrun) hreturned, lost_of_run hat₁ hlost hwake hrun]

/-- The caller tests, the worker comes to its end, the caller goes to sleep. -/
def unheardShutdown : List Action := [.stop, .stop, .work, .work, .work, .work, .work, .stop]

theorem blocked_unheardShutdown :
    ∃ t, runFrom step (State.initial.start 0) (.shutdown 0 :: unheardShutdown) = some t ∧
      ∀ a, a.isOwn = true → step t a = none := by
  have hinside : Along step Inside ((State.initial.start 0).shutdown 0) unheardShutdown := by
    refine ⟨rfl, fun s hs => ?_⟩
    cases hs
    refine ⟨rfl, fun s hs => ?_⟩
    cases hs
    refine ⟨rfl, fun s hs => ?_⟩
    cases hs
    refine ⟨rfl, fun s hs => ?_⟩
    cases hs
    refine ⟨rfl, fun s hs => ?_⟩
    cases hs
    refine ⟨rfl, fun s hs => ?_⟩
    cases hs
    refine ⟨rfl, fun s hs => ?_⟩
    cases hs
    exact ⟨rfl, fun _ _ => trivial⟩
  have hwake : Action.wakeStopper ∉ unheardShutdown := by simp [unheardShutdown]
  have hunheard : Unheard ((State.initial.start 0).shutdown 0) unheardShutdown :=
    ⟨[.stop, .stop, .work, .work, .work, .work], [.stop], _, rfl, rfl, rfl, rfl⟩
  have hbefore : runFrom step State.initial [.start 0] = some (State.initial.start 0) := rfl
  exact ⟨_, rfl, (shutdown_settles hbefore rfl rfl hinside rfl hwake).2.mpr ⟨rfl, hunheard⟩⟩

end FlushWorker
end TraceCache
end Rocprofsys
