import Rocprofsys.Components.CommTotals

namespace Rocprofsys
namespace Components
namespace CommData

open Base

/-! ## What a run leaves on each track -/

theorem bytes_of_mem {call : MpiCall} {t : Track × ℕ} (h : t ∈ call.transfers) :
    call.bytes t.1 = t.2 := by
  cases call with
  | send count size | recv count size | isend count size | irecv count size
  | bcast count size =>
    cases List.mem_singleton.mp h
    simp [MpiCall.bytes, MpiCall.transfers, group]
  | allreduce | sendrecv | gather | alltoall =>
    rcases List.mem_pair.mp h with rfl | rfl
    · simp [MpiCall.bytes, MpiCall.transfers, group]
    · simp [MpiCall.bytes, MpiCall.transfers, group]

theorem eq_bytes_of_mem_group {call : MpiCall} {track : Track} {bytes : ℕ}
    (h : bytes ∈ group track call.transfers) : bytes = call.bytes track := by
  unfold group at h
  obtain ⟨t, ht, rfl⟩ := List.mem_map.mp h
  obtain ⟨hmem, htrack⟩ := List.mem_filter.mp ht
  rw [← bytes_of_mem hmem, beq_iff_eq.mp htrack]

section Run

variable {τ : Type} {calls : List (Observed τ)} {run : List (Step τ)}

theorem eq_bytes_of_mem_toPerfetto {c : Observed τ} {track : Track} {bytes : ℕ}
    (h : bytes ∈ c.toPerfetto track) : bytes = c.call.bytes track := by
  unfold Observed.toPerfetto at h
  split at h
  · exact eq_bytes_of_mem_group h
  · cases h

/-! Calls without an overflow. -/

section Fits

variable (hsizes : ∀ c ∈ calls, c.call.PositiveSizes)
  (hfits : ∀ c ∈ calls, c.call.FitsInt c.session.useTimemory)
include hsizes hfits

theorem program_eq :
    program calls = calls.flatMap fun c =>
      (record c.session c.call.transfers (c.call.added c.toolId)).map (Step.mk c) := by
  apply List.flatMap_congr
  intro c hc
  rw [Observed.audit, audit_eq_some (hsizes c hc) (hfits c hc), Option.getD_some]

/-- What one kind of actions carries in a sequence of calls. -/
theorem filterMap_program {β : Type} {f : Action → Option β} {g : Observed τ → List β}
    (hg : ∀ c ∈ calls,
      (record c.session c.call.transfers (c.call.added c.toolId)).filterMap f = g c) :
    (program calls).filterMap (fun step => f step.action) = calls.flatMap g := by
  rw [program_eq hsizes hfits, List.filterMap_flatMap]
  apply List.flatMap_congr
  intro c hc
  rw [List.filterMap_map]
  exact hg c hc

/-- An action carries the bytes of its call. -/
theorem filterMap_bytes {f : Action → Option ℕ} {g : Observed τ → List ℕ} {track : Track}
    (hg : ∀ c ∈ calls,
      (record c.session c.call.transfers (c.call.added c.toolId)).filterMap f = g c)
    (hbytes : ∀ c, ∀ bytes ∈ g c, bytes = c.call.bytes track)
    (hrun : run.Perm (program calls)) :
    run.filterMap (fun step => (f step.action).map fun _ => step.of.call.bytes track) =
      run.filterMap fun step => f step.action := by
  apply List.filterMap_congr
  intro step hstep
  have hmem := hrun.mem_iff.mp hstep
  rw [program_eq hsizes hfits] at hmem
  obtain ⟨c, hc, hmem⟩ := List.mem_flatMap.mp hmem
  obtain ⟨action, haction, rfl⟩ := List.mem_map.mp hmem
  cases hf : f action with
  | none => rfl
  | some bytes =>
    have hcarried : bytes ∈ g c := by
      rw [← hg c hc]
      exact List.mem_filterMap.mpr ⟨action, haction, hf⟩
    rw [hbytes c bytes hcarried]
    rfl

theorem perfettoTransfers_eq (hrun : run.Perm (program calls)) (track : Track) :
    perfettoTransfers track run = run.filterMap fun step => step.action.perfettoBytes track :=
  filterMap_bytes hsizes hfits (fun _ _ => filterMap_perfettoBytes_record)
    (fun _ _ => eq_bytes_of_mem_toPerfetto) hrun

theorem perfettoTransfers_perm (hrun : run.Perm (program calls)) (track : Track) :
    (perfettoTransfers track run).Perm (calls.flatMap fun c => c.toPerfetto track) := by
  have hall : ((program calls).filterMap fun step => step.action.perfettoBytes track) =
      calls.flatMap fun c => c.toPerfetto track :=
    filterMap_program hsizes hfits fun _ _ => filterMap_perfettoBytes_record
  rw [perfettoTransfers_eq hsizes hfits hrun, ← hall]
  exact hrun.filterMap _

theorem cacheTransfers_eq (hrun : run.Perm (program calls)) (track : Track) :
    cacheTransfers track run =
      run.filterMap fun step => (step.action.cacheEvent track).bind CacheEvent.bytes :=
  @filterMap_bytes τ calls run hsizes hfits
    (fun a => (a.cacheEvent track).bind CacheEvent.bytes) (fun c => c.toCache track) track
    (fun _ _ => filterMap_cacheBytes_record) (fun _ _ => eq_bytes_of_mem_group) hrun

theorem cacheTransfers_perm (hrun : run.Perm (program calls)) (track : Track) :
    (cacheTransfers track run).Perm (calls.flatMap fun c => c.toCache track) := by
  have hall : ((program calls).filterMap fun step =>
      (step.action.cacheEvent track).bind CacheEvent.bytes) =
      calls.flatMap fun c => c.toCache track :=
    @filterMap_program τ calls hsizes hfits ℕ
      (fun a => (a.cacheEvent track).bind CacheEvent.bytes) (fun c => c.toCache track)
      fun _ _ => filterMap_cacheBytes_record
  rw [cacheTransfers_eq hsizes hfits hrun, ← hall]
  exact hrun.filterMap _

end Fits

theorem sum_toPerfetto_le (calls : List (Observed τ)) (track : Track) :
    (calls.flatMap fun c => c.toPerfetto track).sum ≤
      (calls.flatMap fun c => c.toCache track).sum := by
  have hsub : (calls.flatMap fun c => c.toPerfetto track).Sublist
      (calls.flatMap fun c => c.toCache track) := by
    apply List.Sublist.flatMap_right
    intro c _
    unfold Observed.toPerfetto
    split
    · exact List.Sublist.refl _
    · exact List.nil_sublist _
  exact hsub.sum_le_sum fun _ _ => Nat.zero_le _

/-! ### Counter tracks -/

theorem foldl_write {amounts : List ℕ} (h : amounts.sum < 2 ^ 64) :
    amounts.foldl CounterTrack.write ⟨0, []⟩ = ⟨amounts.sum, runningTotals amounts⟩ := by
  induction amounts using List.reverseRecOn with
  | nil => rfl
  | append_singleton amounts a ih =>
    have hsum : (amounts ++ [a]).sum = amounts.sum + a := by simp
    rw [List.foldl_append, ih (by omega), runningTotals_append_singleton, hsum]
    show CounterTrack.mk ((amounts.sum + a) % 2 ^ 64) _ = _
    rw [Nat.mod_eq_of_lt (by omega)]

variable [DecidableEq τ]

theorem perfetto_step (s : State τ) (step : Step τ) (track : Track) :
    (s.step step).perfetto track = (step.action.perfettoBytes track).elim (s.perfetto track)
      (s.perfetto track).write := by
  unfold State.step
  cases step.action with
  | writePerfetto t bytes =>
    by_cases ht : t = track
    · subst ht
      simp [Action.perfettoBytes]
    · simp [Action.perfettoBytes, ht, Function.update_of_ne (Ne.symm ht)]
  | growCache | storeSample | addTracker => rfl

theorem perfetto_final (run : List (Step τ)) (track : Track) :
    (final run).perfetto track =
      (run.filterMap fun step => step.action.perfettoBytes track).foldl CounterTrack.write
        ⟨0, []⟩ :=
  @foldl_part (Step τ) ℕ (State τ) CounterTrack State.step (fun s => s.perfetto track)
    (fun step => step.action.perfettoBytes track) CounterTrack.write
    (fun s step => perfetto_step s step track) State.initial run

/-! ### Tracks of the cache -/

theorem cache_step (s : State τ) (step : Step τ) (track : Track) :
    (s.step step).cache track = (Step.cacheEvent track step).elim (s.cache track)
      (s.cache track).step := by
  unfold State.step Step.cacheEvent
  cases step.action with
  | growCache t bytes =>
    by_cases ht : t = track
    · subst ht
      simp [Action.cacheEvent]
    · simp [Action.cacheEvent, ht, Function.update_of_ne (Ne.symm ht)]
  | storeSample t =>
    by_cases ht : t = track
    · subst ht
      simp [Action.cacheEvent]
    · simp [Action.cacheEvent, ht, Function.update_of_ne (Ne.symm ht)]
  | writePerfetto | addTracker => rfl

theorem cache_final (run : List (Step τ)) (track : Track) :
    (final run).cache track =
      (run.filterMap (Step.cacheEvent track)).foldl CacheTrack.step ⟨0, 0, fun _ => 0, []⟩ :=
  @foldl_part (Step τ) (τ × CacheEvent) (State τ) (CacheTrack τ) State.step
    (fun s => s.cache track) (Step.cacheEvent track) CacheTrack.step
    (fun s step => cache_step s step track) State.initial run

omit [DecidableEq τ] in
theorem filterMap_cacheEvents (run : List (Step τ)) (track : Track) :
    ((run.filterMap (Step.cacheEvent track)).filterMap fun e => e.2.bytes) =
      run.filterMap fun step => (step.action.cacheEvent track).bind CacheEvent.bytes := by
  rw [List.filterMap_filterMap]
  apply List.filterMap_congr
  intro step _
  unfold Step.cacheEvent
  cases step.action.cacheEvent track <;> rfl

theorem stampedTotals_append_singleton (amounts : List ℕ) (a : ℕ) :
    stampedTotals (amounts ++ [a]) =
      stampedTotals amounts ++ [(amounts.length + 1, ((amounts ++ [a]).sum : ℚ))] := by
  unfold stampedTotals
  rw [runningTotals_append_singleton, List.zipIdx_append, List.map_append, length_runningTotals]
  simp

/-- Where the threads take turns, each reads what it has just added to. -/
theorem samples_of_takesTurns {events : List (τ × CacheEvent)} (hturns : TakesTurns events)
    {t : CacheTrack τ} {done : List ℕ} (hvalue : t.value = done.sum)
    (hclock : t.clock = done.length) (hsamples : t.samples = stampedTotals done)
    (htotal : (done ++ events.filterMap fun e => e.2.bytes).sum < 2 ^ 64)
    (hdoubles : ∀ part, part <+: done ++ (events.filterMap fun e => e.2.bytes) →
      HasBits 53 part.sum) :
    (events.foldl CacheTrack.step t).samples =
      stampedTotals (done ++ events.filterMap fun e => e.2.bytes) := by
  induction events using TakesTurns.induct generalizing t done with
  | case1 =>
    rw [List.filterMap_nil, List.append_nil]
    exact hsamples
  | case2 thread bytes thread' rest ih =>
    obtain ⟨rfl, hrest⟩ := hturns
    have hshift : done ++ ((thread, CacheEvent.grow bytes) :: (thread, .store) :: rest).filterMap
        (fun e => e.2.bytes) = done ++ [bytes] ++ rest.filterMap fun e => e.2.bytes := by
      rw [List.append_assoc]
      rfl
    rw [hshift] at htotal hdoubles ⊢
    have hbound : (done ++ [bytes]).sum < 2 ^ 64 := by
      rw [List.sum_append] at htotal
      omega
    have hgrown : (t.value + bytes) % 2 ^ 64 = (done ++ [bytes]).sum := by
      rw [List.sum_append, List.sum_singleton] at hbound ⊢
      rw [hvalue, Nat.mod_eq_of_lt hbound]
    have hexact := (hdoubles (done ++ [bytes]) (List.prefix_append _ _)).nearestDouble hbound
    apply ih hrest _ _ _ htotal hdoubles
    · exact hgrown
    · show t.clock + 1 = _
      rw [hclock, List.length_append, List.length_singleton]
    · show t.samples ++ [(Function.update t.now thread (t.clock + 1) thread,
        nearestDouble ((t.value + bytes) % 2 ^ 64 : ℕ))] = _
      rw [Function.update_self, hgrown, hexact, hsamples, hclock, stampedTotals_append_singleton]
  | case3 events hnil hpair =>
    unfold TakesTurns at hturns
    split at hturns
    · exact absurd rfl hnil
    · rename_i thread bytes thread' rest
      exact absurd rfl (hpair thread bytes thread' rest)
    · exact hturns.elim

/-! ### Trackers -/

theorem stored_foldl (s : State τ) (run : List (Step τ)) :
    (run.foldl State.step s).stored = s.stored ++ run.filterMap fun step => step.action.entry := by
  induction run generalizing s with
  | nil => exact (List.append_nil _).symm
  | cons step run ih =>
    rw [List.foldl_cons, ih]
    unfold State.step
    cases h : step.action with
    | addTracker name value => simp [h, Action.entry]
    | writePerfetto | growCache | storeSample => simp [h, Action.entry]

omit [DecidableEq τ] in
theorem summands_eq (s : State τ) (name : String) :
    s.summands name = (0 :: group name s.stored).map fun n : ℕ => roundDigits 2 24 n := by
  have hzero : HasBits 24 0 := hasBits_of_lt (by norm_num)
  rw [List.map_cons, hzero.roundDigits, Nat.cast_zero]
  rfl

theorem group_flatMap {α κ ν : Type} [BEq κ] (k : κ) (l : List α) (f : α → List (κ × ν)) :
    group k (l.flatMap f) = l.flatMap fun a => group k (f a) := by
  unfold group
  rw [List.filter_flatMap, List.map_flatMap]

theorem filter_group_eq_nil {entries : List (String × ℕ)} (h : ∀ entry ∈ entries, entry.2 = 0)
    (name : String) : ((group name entries).filter fun n => n ≠ 0) = [] := by
  rw [List.filter_eq_nil_iff]
  intro n hn
  unfold group at hn
  obtain ⟨entry, hentry, rfl⟩ := List.mem_map.mp hn
  simp [h entry (List.mem_filter.mp hentry).1]

/-- Only an exchange adds for other names than those it has. -/
theorem filter_group_added {call : MpiCall}
    (h : call.IsSendrecv → ∀ track, call.bytes track = 0) (toolId name : String) :
    ((group name (call.added toolId)).filter fun n => n ≠ 0) =
      (group name (call.named toolId)).filter fun n => n ≠ 0 := by
  cases call with
  | sendrecv sendcount sendSize dst sendtag recvcount recvSize src recvtag =>
    have hsent : sendcount * sendSize = 0 := by
      have hbytes := h trivial .mpiSend
      rwa [@bytes_of_mem _ (.mpiSend, sendcount * sendSize) List.mem_cons_self] at hbytes
    have hreceived : recvcount * recvSize = 0 := by
      have hbytes := h trivial .mpiRecv
      rwa [@bytes_of_mem _ (.mpiRecv, recvcount * recvSize)
        (List.mem_cons_of_mem _ List.mem_cons_self)] at hbytes
    rw [filter_group_eq_nil, filter_group_eq_nil]
    · simp [MpiCall.named, namedAfterDirection, hsent, hreceived]
    · simp [MpiCall.added, hsent, hreceived]
  | send | recv | isend | irecv | bcast | allreduce | gather | alltoall => rfl

/-- What a call adds to the trackers. -/
def Observed.added (c : Observed τ) : List (String × ℕ) :=
  if c.session.useTimemory && c.session.active then c.call.added c.toolId else []

omit [DecidableEq τ] in
theorem filter_group_calls (h : ∀ c ∈ calls, c.Tracked → c.call.IsSendrecv →
    ∀ track, c.call.bytes track = 0) (name : String) :
    ((group name (calls.flatMap Observed.added)).filter fun n => n ≠ 0) =
      (group name (calls.flatMap Observed.named)).filter fun n => n ≠ 0 := by
  rw [group_flatMap, group_flatMap, List.filter_flatMap, List.filter_flatMap]
  apply List.flatMap_congr
  intro c hc
  unfold Observed.added Observed.named
  by_cases htracked : c.Tracked
  · rw [if_pos (by simp [htracked.1, htracked.2]), if_pos htracked]
    exact filter_group_added (h c hc htracked) c.toolId name
  · have hoff : ¬ (c.session.useTimemory && c.session.active) = true := by
      rw [Bool.and_eq_true]
      exact htracked
    rw [if_neg hoff, if_neg htracked]

theorem group_stored_perm (hsizes : ∀ c ∈ calls, c.call.PositiveSizes)
    (hfits : ∀ c ∈ calls, c.call.FitsInt c.session.useTimemory)
    (hrun : run.Perm (program calls)) (name : String) :
    (group name (final run).stored).Perm (group name (calls.flatMap Observed.added)) := by
  have hall : ((program calls).filterMap fun step => step.action.entry) =
      calls.flatMap Observed.added :=
    filterMap_program hsizes hfits fun _ _ => filterMap_entry_record
  have hstored : (final run).stored = run.filterMap fun step => step.action.entry :=
    stored_foldl State.initial run
  rw [hstored, ← hall]
  exact ((hrun.filterMap _).filter _).map _

end Run

/-! ## The counters are exact within the limits -/

/-- Within the limits, every run of the calls counts and stores what the calls transfer. -/
theorem exact_of_limits {τ : Type} [DecidableEq τ] {calls : List (Observed τ)}
    {run : List (Step τ)} (hsizes : ∀ c ∈ calls, c.call.PositiveSizes) (hrun : IsRun calls run)
    (h : Limits calls run) : Exact calls run := by
  have hperm : run.Perm (program calls) := Interleaves.perm hrun
  have hperfetto := perfettoTransfers_perm hsizes h.ints hperm
  have hcache := cacheTransfers_perm hsizes h.ints hperm
  refine ⟨?_, ?_, hperfetto, ?_, hcache, ?_⟩
  · intro c hc
    rw [Observed.audit, audit_eq_some (hsizes c hc) (h.ints c hc), Option.isSome_some]
  · intro track
    have hsum : (perfettoTransfers track run).sum < 2 ^ 64 := by
      rw [(hperfetto track).sum_eq]
      exact Nat.lt_of_le_of_lt (sum_toPerfetto_le calls track) (h.total track)
    rw [perfetto_final, ← perfettoTransfers_eq hsizes h.ints hperm, foldl_write hsum]
  · intro track
    have hsum : (cacheTransfers track run).sum < 2 ^ 64 := by
      rw [(hcache track).sum_eq]
      exact h.total track
    have hsamples := @samples_of_takesTurns τ _ _ (h.turns track) ⟨0, 0, fun _ => 0, []⟩ [] rfl rfl
      rfl
    rw [filterMap_cacheEvents, ← cacheTransfers_eq hsizes h.ints hperm, List.nil_append] at hsamples
    rw [cache_final, hsamples hsum (h.doubles track)]
  · intro name sum hparts
    have hstored := group_stored_perm hsizes h.ints hperm name
    have hfilter : ((0 :: group name (final run).stored).filter fun n => n ≠ 0).Perm
        ((group name (calls.flatMap Observed.named)).filter fun n => n ≠ 0) := by
      rw [← filter_group_calls h.sendrecv name]
      exact hstored.filter _
    rw [summands_eq] at hparts
    have hvalue := Merging.value_roundDigits hparts ((h.floats name).of_filter hfilter)
    show sum.value (fun a b => roundDigits 2 24 (a + b)) = _
    rw [hvalue, ← sum_filter_ne_zero, hfilter.sum_eq, sum_filter_ne_zero]

/-- Eight bytes to everyone. -/
def message (thread : Bool) : Observed Bool :=
  ⟨thread, ⟨true, true, true⟩, "MPI_Send", .send 2 4 1 0⟩

/-- Both threads write to the trace before one of them goes on. -/
def messages : List (Step Bool) :=
  [⟨message false, .writePerfetto .mpiSend 8⟩, ⟨message true, .writePerfetto .mpiSend 8⟩,
    ⟨message true, .growCache .mpiSend 8⟩, ⟨message true, .storeSample .mpiSend⟩,
    ⟨message false, .growCache .mpiSend 8⟩, ⟨message false, .storeSample .mpiSend⟩] ++
  ((program [message true]).drop 3 ++ (program [message false]).drop 3)

theorem sum_group_le (name : String) (entries : List (String × ℕ)) :
    (group name entries).sum ≤ (entries.map Prod.snd).sum := by
  have hsub : (group name entries).Sublist (entries.map Prod.snd) := List.filter_sublist.map _
  exact hsub.sum_le_sum fun _ _ => Nat.zero_le _

theorem limits_messages : Limits [message false, message true] messages := by
  have hsend : cacheTransfers .mpiSend messages = [8, 8] := by decide +kernel
  have hrecv : cacheTransfers .mpiRecv messages = [] := by decide +kernel
  refine ⟨?_, ?_, ?_, ?_, ?_, ?_⟩
  · intro c hc
    refine ⟨fun t ht => ?_, fun _ => ?_⟩
    · rcases List.mem_pair.mp hc with rfl | rfl
      · cases List.mem_singleton.mp ht
        norm_num
      · cases List.mem_singleton.mp ht
        norm_num
    · rcases List.mem_pair.mp hc with rfl | rfl
      · norm_num [message, MpiCall.both]
      · norm_num [message, MpiCall.both]
  · intro track
    cases track with
    | mpiSend => decide +kernel
    | mpiRecv => decide +kernel
  · intro track
    cases track with
    | mpiSend => exact ⟨rfl, rfl, trivial⟩
    | mpiRecv => exact trivial
  · intro track done
    apply SumsHaveBits.of_prefix
    apply sumsHaveBits_of_sum_lt
    cases track with
    | mpiSend =>
      rw [hsend]
      norm_num
    | mpiRecv =>
      rw [hrecv]
      norm_num
  · intro c hc _ hsendrecv
    rcases List.mem_pair.mp hc with rfl | rfl
    · exact hsendrecv.elim
    · exact hsendrecv.elim
  · intro name
    apply sumsHaveBits_of_sum_lt
    apply Nat.lt_of_le_of_lt (sum_group_le name _)
    decide +kernel

theorem exact_messages : Exact [message false, message true] messages := by
  apply exact_of_limits
  · intro c hc
    rcases List.mem_pair.mp hc with rfl | rfl
    · exact Nat.zero_lt_succ 3
    · exact Nat.zero_lt_succ 3
  · unfold IsRun Interleaves
    decide +kernel
  · exact limits_messages

/-- Eight bytes for four. -/
def exchange : Observed Bool :=
  ⟨false, ⟨true, true, true⟩, "MPI_Sendrecv", .sendrecv 2 4 1 0 1 4 1 0⟩

/-- Two gibibytes. -/
def large : Observed Bool :=
  ⟨false, ⟨true, true, true⟩, "MPI_Send", .send (2 ^ 28) 8 1 0⟩

/-- Both threads add before one of them reads the value again. -/
def overlapping : List (Step Bool) :=
  [⟨message false, .writePerfetto .mpiSend 8⟩, ⟨message true, .writePerfetto .mpiSend 8⟩,
    ⟨message false, .growCache .mpiSend 8⟩, ⟨message true, .growCache .mpiSend 8⟩,
    ⟨message false, .storeSample .mpiSend⟩, ⟨message true, .storeSample .mpiSend⟩] ++
  ((program [message true]).drop 3 ++ (program [message false]).drop 3)

/-- An exchange is not counted for the process on the other side, a large message overflows, and
a sample that is taken late counts a transfer too much. -/
theorem not_exact :
    (exchange.call.PositiveSizes ∧ IsRun [exchange] (program [exchange]) ∧
        ¬ Exact [exchange] (program [exchange])) ∧
      (large.call.PositiveSizes ∧ IsRun [large] (program [large]) ∧
        ¬ Exact [large] (program [large])) ∧
      (∀ thread, (message thread).call.PositiveSizes) ∧
        IsRun [message false, message true] overlapping ∧
          ¬ Exact [message false, message true] overlapping := by
  refine ⟨⟨⟨by norm_num, by norm_num⟩, interleaves_self _ _, fun h => ?_⟩,
    ⟨Nat.zero_lt_succ 7, interleaves_self _ _, fun h => ?_⟩, fun _ => Nat.zero_lt_succ 3, ?_,
    fun h => ?_⟩
  · have hvalue := h.trackers "MPI_Sendrecv/send=1" (.part 0) (by decide +kernel)
    revert hvalue
    decide +kernel
  · have hdefined := h.defined large (List.mem_singleton_self large)
    revert hdefined
    decide +kernel
  · unfold IsRun Interleaves
    decide +kernel
  · have hsamples := h.cache .mpiSend
    revert hsamples
    decide +kernel

end CommData
end Components
end Rocprofsys
