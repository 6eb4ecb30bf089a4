import Rocprofsys.TraceCache.FlushShutdown
import Rocprofsys.TraceCache.StoreAndFlush

namespace Rocprofsys
namespace TraceCache

open Base

namespace FlushWorker

/-! ## What is in the file when a shutdown returns -/

namespace State

/-- The chunks in the file. -/
def written (s : State) : List (Chunk × Nat) := s.system.outputs.flatMap Output.spanned

/-- The chunks of the flush in progress. -/
def inFlight (s : State) : List (Chunk × Nat) := s.system.flushing.elim [] Snapshot.spanned

/-- The chunks in the file, on their way to it and reserved behind them. -/
def held (s : State) : List (Chunk × Nat) := s.written ++ s.inFlight ++ s.system.reserved

/-- The file. -/
def content (s : State) : Bytes := s.system.outputs.flatMap Output.bytes

end State

/-- Reservations stay clear of everything that is not in the file, and a flush
that moves the tail finds no store between its reservation and its end. -/
def Safe (s : State) : Action → Prop
  | .reserve writer => ∀ r, s.admitted writer = some r → s.system.Safe (.reserve writer r)
  | .work => ∀ force, s.thread = some (.flushing force) → s.system.Safe (.snapshot force)
  | _ => True

/-- The buffer follows a log, and a writer is at one of its stores. -/
structure Follows (s : State) : Prop where
  log : ∃ log, s.system.Follows log
  admitted : ∀ writer r, s.admitted writer = some r → s.system.tickets writer = none

variable {s s' : State} {a : Action}

theorem Follows.same (h : Follows s) (hsystem : s'.system = s.system)
    (hadmitted : s'.admitted = s.admitted) : Follows s' where
  log := by
    rw [hsystem]
    exact h.log
  admitted := by
    rw [hsystem, hadmitted]
    exact h.admitted

/-- The flags of the storage and a new file are nothing to the log. -/
theorem Follows.reset (h : Follows s) (isRunning : Bool) (originPid : Int) {outputs : List Output}
    (houtputs : ∀ out ∈ outputs, out.Published)
    (hsystem : s'.system = { s.system with
      storage.isRunning := isRunning
      storage.originPid := originPid
      outputs := outputs })
    (hadmitted : s'.admitted = s.admitted) : Follows s' where
  log := by
    obtain ⟨log, hlog⟩ := h.log
    rw [hsystem]
    exact ⟨log, ⟨hlog.storage.tracks, hlog.storage.room⟩, hlog.tickets, hlog.flushing,
      hlog.reserved_eq, hlog.completed, houtputs⟩
  admitted := by
    rw [hsystem, hadmitted]
    exact h.admitted

theorem Follows.outputs (h : Follows s) : ∀ out ∈ s.system.outputs, out.Published := by
  obtain ⟨_, hlog⟩ := h.log
  exact hlog.published

theorem follows_initial : Follows State.initial where
  log := by
    have hlog := System.Follows.start 0
    exact ⟨_, ⟨hlog.storage.tracks, hlog.storage.room⟩, hlog.tickets, hlog.flushing,
      hlog.reserved_eq, hlog.completed, hlog.published⟩
  admitted _ _ h := by cases h

theorem Follows.work (h : Follows s) (hat : At s s.thread) (hsafe : Safe s .work)
    (hstep : Steps s .work s') : Follows s' := by
  obtain ⟨log, hlog⟩ := h.log
  cases hstep with
  | store hown _ => cases hown
  | @flush force hpoint _ =>
    rw [hpoint] at hat
    obtain ⟨log', hlog'⟩ := hlog.snapshot hat.1 (hsafe force hpoint)
    refine ⟨⟨log', hlog'⟩, fun writer r hadmitted => ?_⟩
    have htickets : (s.system.snapshot force).tickets = s.system.tickets := by
      unfold System.snapshot BufferStorage.snapshot
      cases s.system.storage.flushes force <;> rfl
    show (s.system.snapshot force).tickets writer = none
    rw [htickets]
    exact h.admitted writer r hadmitted
  | write _ hsnap => exact ⟨⟨_, hlog.write hsnap⟩, h.admitted⟩
  | _ => exact h.same rfl rfl

theorem Follows.step (h : Follows s) (hat : At s s.thread) (hsafe : Safe s a)
    (hstep : step s a = some s') : Follows s' := by
  cases a with
  | enter writer r =>
    obtain ⟨hfree, heq⟩ := Option.ite_none_right_eq_some.mp hstep
    cases heq
    refine ⟨h.log, fun writer' r' hadmitted => ?_⟩
    by_cases hwriter : writer' = writer
    · subst hwriter
      exact Option.isNone_iff_eq_none.mp (Bool.and_eq_true_iff.mp hfree).2
    · exact h.admitted writer' r' ((Function.update_of_ne hwriter ..).symm.trans hadmitted)
  | reserve writer =>
    obtain ⟨r, hr, rfl⟩ := Option.map_eq_some_iff.mp hstep
    obtain ⟨log, hlog⟩ := h.log
    refine ⟨hlog.reserve (h.admitted writer r hr) (hsafe r hr), fun writer' r' hadmitted => ?_⟩
    by_cases hwriter : writer' = writer
    · subst hwriter
      cases (Function.update_self ..).symm.trans hadmitted
    · have hbefore := h.admitted writer' r' ((Function.update_of_ne hwriter ..).symm.trans hadmitted)
      exact (Function.update_of_ne hwriter ..).trans hbefore
  | serialize writer =>
    obtain ⟨t, ht, rfl⟩ := Option.map_eq_some_iff.mp hstep
    obtain ⟨log, hlog⟩ := h.log
    refine ⟨⟨_, hlog.serialize ht⟩, fun writer' r' hadmitted => ?_⟩
    by_cases hwriter : writer' = writer
    · subst hwriter
      exact Function.update_self ..
    · exact (Function.update_of_ne hwriter ..).trans (h.admitted writer' r' hadmitted)
  | start currentPid =>
    obtain ⟨_, heq⟩ := Option.ite_none_right_eq_some.mp hstep
    cases heq
    unfold State.start
    split
    · exact h
    · split
      · exact h.same rfl rfl
      · exact h.reset true currentPid (fun _ hout => absurd hout List.not_mem_nil) rfl rfl
  | shutdown currentPid =>
    obtain ⟨_, heq⟩ := Option.ite_none_right_eq_some.mp hstep
    cases heq
    unfold State.shutdown
    split
    · exact h.reset false s.system.storage.originPid h.outputs rfl rfl
    · exact h
  | work => exact h.work hat hsafe (steps_of_work hstep)
  | stop =>
    cases steps_of_stop hstep with
    | store hown _ => cases hown
    | _ => exact h.same rfl rfl
  | timeOut =>
    obtain ⟨_, heq⟩ := Option.ite_none_right_eq_some.mp hstep
    cases heq
    exact h.same rfl rfl
  | wakeWorker =>
    obtain ⟨_, heq⟩ := Option.ite_none_right_eq_some.mp hstep
    cases heq
    exact h.same rfl rfl
  | wakeStopper =>
    obtain ⟨_, heq⟩ := Option.ite_none_right_eq_some.mp hstep
    cases heq
    exact h.same rfl rfl

/-- Nothing is reserved behind a flush that finds nothing to write. -/
theorem Follows.reserved_eq_nil (h : Follows s) (hflushes : s.system.storage.flushes true = false) :
    s.system.reserved = [] := by
  obtain ⟨log, hlog⟩ := h.log
  have hends : s.system.storage.head = s.system.storage.tail := by
    simpa [BufferStorage.flushes] using hflushes
  have hwritten := hlog.storage.tracks.head_eq_tail_iff.mp hends
  have hempty : chunksBytes (s.system.reserved.map Prod.fst) = [] := by
    rw [← hlog.reserved_eq]
    exact List.drop_eq_nil_of_le (by omega)
  cases hreserved : s.system.reserved with
  | nil => rfl
  | cons entry rest =>
    have hlength : 0 < entry.1.bytes.length := by
      rw [Chunk.length_bytes]
      exact Nat.lt_add_right _ (by decide)
    rw [hreserved, List.map_cons, chunksBytes, List.flatMap_cons, List.append_eq_nil_iff] at hempty
    rw [hempty.1] at hlength
    exact absurd hlength (Nat.lt_irrefl 0)

/-! ## What was reserved before the shutdown -/

/-- How far what was held when `stop` was called has come, by the point of the thread. -/
def Promised (first : List (Chunk × Nat)) (s : State) : Option WorkerPoint → Prop
  | some (.writing true) => first <+: s.written ++ s.inFlight
  | some .closing | some .finishing | some .notifying | some .exited | none => first <+: s.written
  | some _ => first <+: s.held

/-- The call of `stop` that has cleared `is_running` is in the process that started the thread. -/
structure Returns (first : List (Chunk × Nat)) (s : State) : Prop where
  promised : Promised first s s.thread
  originPid : ∀ currentPid, s.stopper = .signalled currentPid →
    currentPid = s.system.storage.originPid
  returned : s.stopper = .outside → s.thread = none

theorem Promised.stores {first : List (Chunk × Nat)} {point : Option WorkerPoint}
    (h : Promised first s point) (hstores : Stores s s') : Promised first s' point := by
  have hwritten : s'.written = s.written := by rw [State.written, hstores.outputs, State.written]
  have hflight : s'.inFlight = s.inFlight := by rw [State.inFlight, hstores.flushing, State.inFlight]
  have hheld : s.held <+: s'.held := by
    rw [State.held, State.held, hwritten, hflight]
    exact (List.prefix_append_right_inj _).mpr hstores.reserved
  unfold Promised at h ⊢
  rw [hwritten, hflight]
  split at h
  · exact h
  · exact h
  · exact h
  · exact h
  · exact h
  · exact h
  · exact h.trans hheld

theorem Promised.wake {first : List (Chunk × Nat)} {point : WorkerPoint}
    (h : Promised first s (some point)) : Promised first s (some point.wake) := by
  cases point with
  | sleeping => exact h
  | _ => exact h

/-- A flush that finds nothing to write leaves nothing behind it in the buffer. -/
theorem Promised.afterFlush {first : List (Chunk × Nat)} {force : Bool} (h : first <+: s.held)
    (hflushing : s.system.flushing = none) (hreserved : force = true → s.system.reserved = []) :
    Promised first s (some (State.afterFlush force)) := by
  cases force with
  | false => exact h
  | true =>
    show first <+: s.written
    rwa [State.held, State.inFlight, hflushing, hreserved rfl, Option.elim_none, List.append_nil,
      List.append_nil] at h

/-- The snapshot takes over what is reserved. -/
theorem Promised.flush {first : List (Chunk × Nat)} {force : Bool} (h : first <+: s.held)
    (hflushing : s.system.flushing = none) (hflushes : s.system.storage.flushes force = true) :
    Promised first { s with system := s.system.snapshot force, thread := some (.writing force) }
      (some (.writing force)) := by
  have hreserved : (s.system.snapshot force).reserved = [] := by
    simp [System.snapshot, BufferStorage.snapshot, hflushes]
  have houtputs : (s.system.snapshot force).outputs = s.system.outputs := by
    simp [System.snapshot, BufferStorage.snapshot, hflushes]
  rw [State.held, State.inFlight, hflushing, Option.elim_none, List.append_nil] at h
  have hflight : first <+:
      (s.system.snapshot force).outputs.flatMap Output.spanned ++
        (s.system.snapshot force).flushing.elim [] Snapshot.spanned := by
    rw [houtputs, flushing_snapshot hflushes]
    exact h
  cases force with
  | true => exact hflight
  | false => exact hflight.trans (List.prefix_append _ _)

/-- The write puts the flush in progress behind what is in the file. -/
theorem Promised.write {first : List (Chunk × Nat)} {force : Bool} {snap : Snapshot}
    (h : Promised first s (some (.writing force))) (hsnap : s.system.flushing = some snap) :
    Promised first
      { s with system := s.system.write snap, thread := some (State.afterFlush force) }
      (some (State.afterFlush force)) := by
  have hwritten : (s.system.write snap).outputs.flatMap Output.spanned =
      s.written ++ s.inFlight := by
    rw [State.inFlight, hsnap]
    simp [System.write, State.written]
  cases force with
  | true =>
    show first <+: (s.system.write snap).outputs.flatMap Output.spanned
    rw [hwritten]
    exact h
  | false =>
    show first <+: (s.system.write snap).outputs.flatMap Output.spanned ++ [] ++ s.system.reserved
    rw [hwritten, List.append_nil]
    exact h

theorem ne_outside_of_isInside (h : s.stopper.isInside = true) : s.stopper ≠ .outside := by
  intro hout
  rw [hout] at h
  cases h

/-- A step of the thread, or of nobody in particular. -/
theorem Returns.stay {first : List (Chunk × Nat)} (h : Returns first s)
    (hinside : s.stopper.isInside = true) (hstopper : s'.stopper = s.stopper)
    (horigin : s'.system.storage.originPid = s.system.storage.originPid)
    (hpromised : Promised first s' s'.thread) : Returns first s' where
  promised := hpromised
  originPid currentPid hsignalled := by
    rw [hstopper] at hsignalled
    rw [horigin]
    exact h.originPid currentPid hsignalled
  returned hout := by
    rw [hstopper] at hout
    exact absurd hout (ne_outside_of_isInside hinside)

theorem Steps.returns {first : List (Chunk × Nat)} (hstep : Steps s a s') (h : Returns first s)
    (hat : At s s.thread) (hfollows : Follows s) (hinside : s.stopper.isInside = true) :
    Returns first s' := by
  have hpromised := h.promised
  cases hstep with
  | store _ hstores =>
    refine h.stay hinside hstores.stopper hstores.originPid ?_
    rw [hstores.thread]
    exact hpromised.stores hstores
  | left hout _ => exact absurd hout (ne_outside_of_isInside hinside)
  | start hout _ => exact absurd hout (ne_outside_of_isInside hinside)
  | shutdown hout _ => exact absurd hout (ne_outside_of_isInside hinside)
  | check hpoint =>
    rw [hpoint] at hpromised
    exact h.stay hinside rfl rfl hpromised
  | @idle force hpoint hflushes =>
    rw [hpoint] at hpromised hat
    refine h.stay hinside rfl rfl ?_
    show Promised first _ (some (if s.system.flushing.isSome then _ else _))
    rw [hat.1]
    refine Promised.afterFlush hpromised hat.1 fun hforce => ?_
    rw [hforce] at hflushes
    exact hfollows.reserved_eq_nil hflushes
  | @flush force hpoint hflushes =>
    rw [hpoint] at hpromised hat
    refine h.stay hinside rfl ?_ (Promised.flush hpromised hat.1 hflushes)
    show (s.system.snapshot force).storage.originPid = _
    unfold System.snapshot BufferStorage.snapshot
    cases s.system.storage.flushes force <;> rfl
  | write hpoint hsnap =>
    rw [hpoint] at hpromised
    exact h.stay hinside rfl rfl (hpromised.write hsnap)
  | test hpoint =>
    rw [hpoint] at hpromised
    refine h.stay hinside rfl rfl ?_
    show Promised first _ (some (if s.isRunning then _ else _))
    split <;> exact hpromised
  | doze hpoint =>
    rw [hpoint] at hpromised
    exact h.stay hinside rfl rfl hpromised
  | close hpoint =>
    rw [hpoint] at hpromised
    exact h.stay hinside rfl rfl hpromised
  | finish hpoint =>
    rw [hpoint] at hpromised
    exact h.stay hinside rfl rfl hpromised
  | notify hpoint =>
    rw [hpoint] at hpromised
    refine ⟨hpromised, fun currentPid hsignalled => ?_, fun hout => ?_⟩
    · refine h.originPid currentPid ?_
      cases hs : s.stopper with
      | signalled pid =>
        rw [← hsignalled]
        show _ = s.stopper.wake
        rw [hs]
        rfl
      | _ =>
        have hwake : s.stopper.wake = .signalled currentPid := hsignalled
        rw [hs] at hwake
        cases hwake
    · have hwake : s.stopper.wake = .outside := hout
      cases hs : s.stopper with
      | outside => exact absurd hs (ne_outside_of_isInside hinside)
      | _ =>
        rw [hs] at hwake
        cases hwake
  | @signal currentPid hstopper =>
    obtain ⟨point, hpoint⟩ := Option.isSome_iff_exists.mp (hat.isSome hinside)
    have hpid := h.originPid currentPid hstopper
    have htesting : (if currentPid = s.system.storage.originPid then StopPoint.testing
        else .outside) = .testing := if_pos hpid
    rw [hpoint] at hpromised
    refine ⟨?_, fun pid hsignalled => ?_, fun hout => ?_⟩
    · show Promised first _ (s.thread.map WorkerPoint.wake)
      rw [hpoint]
      exact hpromised.wake
    · cases htesting.symm.trans hsignalled
    · cases htesting.symm.trans hout
  | testExit _ =>
    refine ⟨hpromised, fun pid hsignalled => ?_, fun hout => ?_⟩
    · have hpoint : (if s.exitFinished then StopPoint.joining else .dozing) = .signalled pid :=
        hsignalled
      split at hpoint <;> cases hpoint
    · have hpoint : (if s.exitFinished then StopPoint.joining else .dozing) = .outside := hout
      split at hpoint <;> cases hpoint
  | dozeStop _ =>
    exact ⟨hpromised, fun _ hsignalled => StopPoint.noConfusion hsignalled, fun hout => StopPoint.noConfusion hout⟩
  | join _ hpoint =>
    rw [hpoint] at hpromised
    exact ⟨hpromised, fun _ hsignalled => StopPoint.noConfusion hsignalled, fun _ => rfl⟩
  | timeOut hpoint =>
    rw [hpoint] at hpromised
    exact h.stay hinside rfl rfl hpromised
  | wakeWorker hpoint =>
    rw [hpoint] at hpromised
    exact h.stay hinside rfl rfl hpromised
  | wakeStopper _ =>
    exact ⟨hpromised, fun _ hsignalled => StopPoint.noConfusion hsignalled, fun hout => StopPoint.noConfusion hout⟩

/-- What holds in every state of a safe run. -/
structure Tracked (s : State) : Prop where
  at_thread : At s s.thread
  follows : Follows s

theorem tracked_of_run {actions : List Action} (h : Tracked s) (hsafe : Along step Safe s actions)
    (hrun : runFrom step s actions = some s') : Tracked s' :=
  invariant_of_run
    (fun _ _ _ htracked hallows hstep =>
      ⟨(steps_of_step hstep).at htracked.at_thread,
        htracked.follows.step htracked.at_thread hallows hstep⟩)
    h hsafe hrun

theorem tracked_initial : Tracked State.initial := ⟨at_initial, follows_initial⟩

theorem returns_of_run {first : List (Chunk × Nat)} {actions : List Action} (h : Returns first s)
    (htracked : Tracked s) (hsafe : Along step (fun s a => Inside s a ∧ Safe s a) s actions)
    (hrun : runFrom step s actions = some s') : Tracked s' ∧ Returns first s' :=
  @invariant_of_run _ _ step (fun s a => Inside s a ∧ Safe s a)
    (fun s => Tracked s ∧ Returns first s)
    (fun _ _ _ hboth hallows hstep =>
      have hsteps := steps_of_step hstep
      ⟨⟨hsteps.at hboth.1.at_thread,
        hboth.1.follows.step hboth.1.at_thread hallows.2 hstep⟩,
        hsteps.returns hboth.2 hboth.1.at_thread hboth.1.follows hallows.1⟩)
    s s' actions ⟨htracked, h⟩ hsafe hrun

/-- While the storage runs nothing of the flush at the end has happened. -/
theorem returns_shutdown (hat : At s s.thread) (hrunning : s.isRunning = true) :
    Returns s.held
      { s.setRunning false with stopper := .signalled s.system.storage.originPid } where
  promised := by
    show Promised s.held _ s.thread
    cases hthread : s.thread with
    | none =>
      rw [hthread] at hat
      rw [hat.2.1] at hrunning
      cases hrunning
    | some point =>
      rw [hthread] at hat
      have hstopped : ∀ {p : Prop}, s.isRunning = false → p := by
        intro p h
        rw [h] at hrunning
        cases hrunning
      cases point with
      | writing force =>
        cases force with
        | false => exact List.prefix_refl _
        | true => exact hstopped (hat.2 rfl)
      | closing => exact hstopped hat.2
      | finishing => exact hstopped hat.2.1
      | notifying => exact hstopped hat.2.1
      | exited => exact hstopped hat.2.1
      | _ => exact List.prefix_refl _
  originPid currentPid hsignalled := by
    cases hsignalled
    rfl
  returned hout := StopPoint.noConfusion hout

theorem bytes_of_published {outputs : List Output} (h : ∀ out ∈ outputs, out.Published) :
    outputs.flatMap Output.bytes = chunksBytes ((outputs.flatMap Output.spanned).map Prod.fst) := by
  induction outputs with
  | nil => rfl
  | cons out outputs ih =>
    have hlater := ih fun out hout => h out (List.mem_cons_of_mem _ hout)
    rw [List.flatMap_cons, List.flatMap_cons, (h out List.mem_cons_self).bytes_eq, hlater]
    simp [chunksBytes]

/-- When a shutdown returns in the process that started the worker, the worker's thread is gone and
the file closed.  All that was reserved when it was called is in the file, in that order, and the
file is the bytes of chunks that were serialized, whatever the other threads have stored since. -/
theorem held_written_of_shutdown {actions during : List Action} {s t : State}
    (hsafe : Along step Safe State.initial actions)
    (hbefore : runFrom step State.initial actions = some s) (hrunning : s.isRunning = true)
    (hcall : runFrom step s (.shutdown s.system.storage.originPid :: during) = some t)
    (hduring : Along step (fun s a => Inside s a ∧ Safe s a)
      (s.shutdown s.system.storage.originPid) during)
    (hreturned : t.stopper = .outside) :
    t.thread = none ∧ t.isOpen = false ∧ s.held <+: t.written ∧
      t.content = chunksBytes (t.written.map Prod.fst) := by
  obtain ⟨s₁, hfirst, hrun⟩ := Option.bind_eq_some_iff.mp hcall
  obtain ⟨_, heq⟩ := Option.ite_none_right_eq_some.mp hfirst
  cases heq
  have htracked := tracked_of_run tracked_initial hsafe hbefore
  have hreturns : Returns s.held (s.shutdown s.system.storage.originPid) := by
    rw [shutdown_eq _ hrunning htracked.at_thread]
    exact returns_shutdown htracked.at_thread hrunning
  have htracked₁ : Tracked (s.shutdown s.system.storage.originPid) :=
    ⟨(steps_of_step hfirst).at htracked.at_thread,
      htracked.follows.step htracked.at_thread (show Safe s (.shutdown _) from trivial) hfirst⟩
  obtain ⟨hend, hreturn⟩ := returns_of_run hreturns htracked₁ hduring hrun
  have hnone := hreturn.returned hreturned
  have hat := hend.at_thread
  have hpromised := hreturn.promised
  rw [hnone] at hat hpromised
  refine ⟨hnone, hat.2.2.1, hpromised, ?_⟩
  exact bytes_of_published hend.follows.outputs

def smallRecord : Record := { bulkRecord with payload := [1, 2, 3] }

/-- A store, and a shutdown that the worker answers with its last flush. -/
def storeThenShutdown : List Action × List Action :=
  ([.start 0, .enter 0 smallRecord, .reserve 0, .serialize 0],
    [.stop, .work, .work, .work, .work, .work, .stop, .work, .stop])

theorem held_written_storeThenShutdown :
    ∃ s t, runFrom step State.initial storeThenShutdown.1 = some s ∧
      runFrom step s (.shutdown 0 :: storeThenShutdown.2) = some t ∧ t.thread = none ∧
      t.isOpen = false ∧ s.held <+: t.written ∧
      t.content = chunksBytes (t.written.map Prod.fst) := by
  refine ⟨_, _, rfl, rfl, ?_⟩
  apply @held_written_of_shutdown storeThenShutdown.1 storeThenShutdown.2
  · refine ⟨trivial, fun s hs => ?_⟩
    cases hs
    refine ⟨trivial, fun s hs => ?_⟩
    cases hs
    refine ⟨fun r hr => ?_, fun s hs => ?_⟩
    · cases hr
      refine ⟨?_, ?_⟩
      · show BufferStorage.unflushed _ + BufferStorage.cost _ _ < _
        decide
      · decide
    cases hs
    exact ⟨trivial, fun _ _ => trivial⟩
  · rfl
  · rfl
  · rfl
  · refine ⟨⟨rfl, trivial⟩, fun s hs => ?_⟩
    cases hs
    refine ⟨⟨rfl, fun force hforce => by cases hforce⟩, fun s hs => ?_⟩
    cases hs
    refine ⟨⟨rfl, fun force hforce hflushes writer => ?_⟩, fun s hs => ?_⟩
    · show Function.update (Function.update (fun _ => none) 0 _) 0 none writer = none
      rw [Function.update_idem]
      simp [Function.update_apply]
    cases hs
    refine ⟨⟨rfl, fun force hforce => by cases hforce⟩, fun s hs => ?_⟩
    cases hs
    refine ⟨⟨rfl, fun force hforce => by cases hforce⟩, fun s hs => ?_⟩
    cases hs
    refine ⟨⟨rfl, fun force hforce => by cases hforce⟩, fun s hs => ?_⟩
    cases hs
    refine ⟨⟨rfl, trivial⟩, fun s hs => ?_⟩
    cases hs
    refine ⟨⟨rfl, fun force hforce => by cases hforce⟩, fun s hs => ?_⟩
    cases hs
    exact ⟨⟨rfl, trivial⟩, fun _ _ => trivial⟩
  · rfl

end FlushWorker
end TraceCache
end Rocprofsys
