import Rocprofsys.Components.CommData

namespace Rocprofsys
namespace Components
namespace CommData

open Base

/-! ## What the counters are for -/

/-- The bytes that a call transfers, and where. -/
def MpiCall.transfers : MpiCall → List (Track × ℕ)
  | .send count size _ _ => [(.mpiSend, count * size)]
  | .recv count size _ _ => [(.mpiRecv, count * size)]
  | .isend count size _ _ => [(.mpiSend, count * size)]
  | .irecv count size _ _ => [(.mpiRecv, count * size)]
  | .bcast count size _ => [(.mpiSend, count * size)]
  | .allreduce count size => [(.mpiRecv, count * size), (.mpiSend, count * size)]
  | .sendrecv sendcount sendSize _ _ recvcount recvSize _ _ =>
    [(.mpiSend, sendcount * sendSize), (.mpiRecv, recvcount * recvSize)]
  | .gather sendcount sendSize recvcount recvSize _ =>
    [(.mpiSend, sendcount * sendSize), (.mpiRecv, recvcount * recvSize)]
  | .alltoall sendcount sendSize recvcount recvSize =>
    [(.mpiSend, sendcount * sendSize), (.mpiRecv, recvcount * recvSize)]

/-- The trackers that are named after a message to or from another process. -/
def namedAfterMessage (toolId : String) (bytes : ℕ) (dst tag : ℤ) : List (String × ℕ) :=
  [(toolId, bytes), (path [toolId, setting "dst" dst], bytes),
    (path [toolId, setting "dst" dst, setting "tag" tag], bytes)]

/-- The trackers that are named after one direction of an exchange. -/
def namedAfterDirection (toolId direction : String) (bytes : ℕ) (peer tag : ℤ) :
    List (String × ℕ) :=
  [(path [toolId, direction], bytes), (path [toolId, setting direction peer], bytes),
    (path [toolId, direction, setting "tag" tag], bytes),
    (path [toolId, setting direction peer, setting "tag" tag], bytes)]

/-- The trackers that are named after a call, with what they are to grow by. -/
def MpiCall.named (toolId : String) : MpiCall → List (String × ℕ)
  | .send count size dst tag => namedAfterMessage toolId (count * size) dst tag
  | .recv count size dst tag => namedAfterMessage toolId (count * size) dst tag
  | .isend count size dst tag => namedAfterMessage toolId (count * size) dst tag
  | .irecv count size dst tag => namedAfterMessage toolId (count * size) dst tag
  | .bcast count size root =>
    [(toolId, count * size), (path [toolId, setting "root" root], count * size)]
  | .allreduce count size => [(toolId, count * size)]
  | .sendrecv sendcount sendSize dst sendtag recvcount recvSize src recvtag =>
    (toolId, sendcount * sendSize + recvcount * recvSize) ::
      (namedAfterDirection toolId "send" (sendcount * sendSize) dst sendtag ++
        namedAfterDirection toolId "recv" (recvcount * recvSize) src recvtag)
  | .gather sendcount sendSize recvcount recvSize root =>
    [(toolId, sendcount * sendSize + recvcount * recvSize),
      (path [toolId, setting "root" root], sendcount * sendSize + recvcount * recvSize),
      (path [toolId, setting "root" root, "send"], sendcount * sendSize),
      (path [toolId, setting "root" root, "recv"], recvcount * recvSize)]
  | .alltoall sendcount sendSize recvcount recvSize =>
    [(toolId, sendcount * sendSize + recvcount * recvSize),
      (path [toolId, "send"], sendcount * sendSize),
      (path [toolId, "recv"], recvcount * recvSize)]

/-- What a call transfers on a track. -/
def MpiCall.bytes (call : MpiCall) (track : Track) : ℕ := (group track call.transfers).sum

namespace Observed

variable {τ : Type} (c : Observed τ)

/-- The tracks of the trace take the transfers of calls that are made while it is written. -/
def toPerfetto (track : Track) : List ℕ :=
  if c.session.usePerfetto && c.session.active then group track c.call.transfers else []

def toCache (track : Track) : List ℕ := group track c.call.transfers

def Tracked : Prop := c.session.useTimemory = true ∧ c.session.active = true

instance : Decidable c.Tracked := inferInstanceAs (Decidable (_ ∧ _))

def named : List (String × ℕ) := if c.Tracked then c.call.named c.toolId else []

end Observed

def Action.perfettoBytes (track : Track) : Action → Option ℕ
  | .writePerfetto t bytes => if t = track then some bytes else none
  | _ => none

def Action.cacheEvent (track : Track) : Action → Option CacheEvent
  | .growCache t bytes => if t = track then some (.grow bytes) else none
  | .storeSample t => if t = track then some .store else none
  | _ => none

def CacheEvent.bytes : CacheEvent → Option ℕ
  | .grow bytes => some bytes
  | .store => none

def Action.entry : Action → Option (String × ℕ)
  | .addTracker name value => some (name, value)
  | _ => none

section Property

variable {τ : Type} [DecidableEq τ]

def Step.cacheEvent (track : Track) (step : Step τ) : Option (τ × CacheEvent) :=
  (step.action.cacheEvent track).map fun e => (step.of.thread, e)

/-- The transfers of a counter track in the order in which they reach it. -/
def perfettoTransfers (track : Track) (run : List (Step τ)) : List ℕ :=
  run.filterMap fun step =>
    (step.action.perfettoBytes track).map fun _ => step.of.call.bytes track

def cacheTransfers (track : Track) (run : List (Step τ)) : List ℕ :=
  run.filterMap fun step =>
    ((step.action.cacheEvent track).bind CacheEvent.bytes).map fun _ => step.of.call.bytes track

/-- The running totals with the timestamps of their transfers. -/
def stampedTotals (transfers : List ℕ) : List (ℕ × ℚ) :=
  (runningTotals transfers).zipIdx.map fun entry : ℕ × ℕ => (entry.2 + 1, (entry.1 : ℚ))

/-- Each value of a track is the sum of the transfers so far, and each tracker sums up the bytes
of the calls it is named after, in whatever order and grouping its floats are added. -/
structure Exact (calls : List (Observed τ)) (run : List (Step τ)) : Prop where
  defined : ∀ c ∈ calls, c.audit.isSome = true
  perfetto : ∀ track,
    ((final run).perfetto track).emitted = runningTotals (perfettoTransfers track run)
  perfetto_all : ∀ track,
    (perfettoTransfers track run).Perm (calls.flatMap fun c => c.toPerfetto track)
  cache : ∀ track,
    ((final run).cache track).samples.Perm (stampedTotals (cacheTransfers track run))
  cache_all : ∀ track, (cacheTransfers track run).Perm (calls.flatMap fun c => c.toCache track)
  trackers : ∀ name (sum : Merging ℚ), sum.parts.Perm ((final run).summands name) →
    sum.value floatAdd = ((group name (calls.flatMap Observed.named)).sum : ℚ)

/-! ## When they do it -/

/-- Both directions of a call together, where a tracker takes them. -/
def MpiCall.both : MpiCall → ℕ
  | .sendrecv sendcount sendSize _ _ recvcount recvSize _ _ =>
    sendcount * sendSize + recvcount * recvSize
  | .gather sendcount sendSize recvcount recvSize _ => sendcount * sendSize + recvcount * recvSize
  | .alltoall sendcount sendSize recvcount recvSize => sendcount * sendSize + recvcount * recvSize
  | _ => 0

def MpiCall.IsSendrecv : MpiCall → Prop
  | .sendrecv .. => True
  | _ => False

def MpiCall.PositiveSizes : MpiCall → Prop
  | .send _ size _ _ | .recv _ size _ _ | .isend _ size _ _ | .irecv _ size _ _
  | .bcast _ size _ | .allreduce _ size => 0 < size
  | .sendrecv _ sendSize _ _ _ recvSize _ _ | .gather _ sendSize _ recvSize _
  | .alltoall _ sendSize _ recvSize => 0 < sendSize ∧ 0 < recvSize

/-- The products, and the sums that the trackers need, are `int`s. -/
structure MpiCall.FitsInt (call : MpiCall) (useTimemory : Bool) : Prop where
  products : ∀ t ∈ call.transfers, t.2 < 2 ^ 31
  sum : useTimemory = true → call.both < 2 ^ 31

/-- Nobody adds to the value before it is read again and stored. -/
def TakesTurns : List (τ × CacheEvent) → Prop
  | [] => True
  | (thread, .grow _) :: (thread', .store) :: rest => thread = thread' ∧ TakesTurns rest
  | _ => False

/-- No overflow, no overlap, no exchange that is counted for the wrong name, and sums that a
double and a float hold. -/
structure Limits (calls : List (Observed τ)) (run : List (Step τ)) : Prop where
  ints : ∀ c ∈ calls, c.call.FitsInt c.session.useTimemory
  total : ∀ track, (calls.flatMap fun c => c.toCache track).sum < 2 ^ 64
  turns : ∀ track, TakesTurns (run.filterMap (Step.cacheEvent track))
  doubles : ∀ track done, done <+: cacheTransfers track run → HasBits 53 done.sum
  sendrecv : ∀ c ∈ calls, c.Tracked → c.call.IsSendrecv → ∀ track, c.call.bytes track = 0
  floats : ∀ name, SumsHaveBits 24 (group name (calls.flatMap Observed.named))

end Property

/-! ## The overloads without an overflow -/

/-- What the overloads add to the trackers. -/
def MpiCall.added (toolId : String) : MpiCall → List (String × ℕ)
  | .sendrecv sendcount sendSize dst sendtag recvcount recvSize src recvtag =>
    [(toolId, sendcount * sendSize + recvcount * recvSize),
      (path [toolId, "send"], sendcount * sendSize),
      (path [toolId, "send"], sendcount * sendSize),
      (path [toolId, "send", setting "tag" sendtag], sendcount * sendSize),
      (path [toolId, setting "send" dst, setting "tag" sendtag], sendcount * sendSize),
      (path [toolId, "recv"], recvcount * recvSize),
      (path [toolId, "recv"], recvcount * recvSize),
      (path [toolId, "recv", setting "tag" recvtag], recvcount * recvSize),
      (path [toolId, setting "recv" src, setting "tag" recvtag], recvcount * recvSize)]
  | call => call.named toolId

variable {s : Session} {toolId : String}

theorem intMul_eq_some {a b : ℕ} (h : a * b < 2 ^ 31) : intMul a b = some (a * b) := if_pos h

theorem twoBuffers_eq_some {sendcount sendSize recvcount recvSize : ℕ}
    {trackers : ℕ → ℕ → ℕ → List (String × ℕ)} (hsizes : 0 < sendSize ∧ 0 < recvSize)
    (hsent : sendcount * sendSize < 2 ^ 31) (hreceived : recvcount * recvSize < 2 ^ 31)
    (hboth : s.useTimemory = true → sendcount * sendSize + recvcount * recvSize < 2 ^ 31) :
    twoBuffers s sendcount sendSize recvcount recvSize trackers =
      some (record s [(.mpiSend, sendcount * sendSize), (.mpiRecv, recvcount * recvSize)]
        (trackers (sendcount * sendSize) (recvcount * recvSize)
          (sendcount * sendSize + recvcount * recvSize))) := by
  have hnonzero : ¬ (sendSize = 0 ∨ recvSize = 0) := by omega
  rw [twoBuffers, if_neg hnonzero, intMul_eq_some hsent, intMul_eq_some hreceived]
  cases htimemory : s.useTimemory with
  | true =>
    simp only [Option.bind_eq_bind, Option.bind_some, if_true, intAdd, if_pos (hboth htimemory)]
  | false =>
    -- nothing is added, whatever the sum
    simp [record, htimemory]

theorem audit_eq_some {call : MpiCall} (hsizes : call.PositiveSizes)
    (hfits : call.FitsInt s.useTimemory) :
    audit s toolId call = some (record s call.transfers (call.added toolId)) := by
  have hproducts := hfits.products
  have hsum := hfits.sum
  cases call with
  | send count size dst tag | recv count size dst tag | isend count size dst tag
  | irecv count size dst tag =>
    have hlt := hproducts _ (List.mem_singleton_self _)
    show pointToPoint _ _ _ _ _ _ _ = _
    rw [pointToPoint, if_neg (Nat.pos_iff_ne_zero.mp hsizes), intMul_eq_some hlt]
    rfl
  | bcast count size root =>
    have hlt := hproducts _ (List.mem_singleton_self _)
    show auditBcast _ _ _ _ _ = _
    rw [auditBcast, if_neg (Nat.pos_iff_ne_zero.mp hsizes), intMul_eq_some hlt]
    rfl
  | allreduce count size =>
    have hlt := hproducts _ List.mem_cons_self
    show auditAllreduce _ _ _ _ = _
    rw [auditAllreduce, if_neg (Nat.pos_iff_ne_zero.mp hsizes), intMul_eq_some hlt]
    rfl
  | sendrecv | gather | alltoall =>
    have hsent := hproducts _ List.mem_cons_self
    have hreceived := hproducts _ (List.mem_cons_of_mem _ (List.mem_singleton_self _))
    exact twoBuffers_eq_some hsizes hsent hreceived hsum

/-- An exchange adds for the directions what belongs to the processes on the other side. -/
theorem added_sendrecv_perm (sendcount sendSize : ℕ) (dst sendtag : ℤ) (recvcount recvSize : ℕ)
    (src recvtag : ℤ) :
    let call := MpiCall.sendrecv sendcount sendSize dst sendtag recvcount recvSize src recvtag
    (call.added toolId ++ [(path [toolId, setting "send" dst], sendcount * sendSize),
        (path [toolId, setting "recv" src], recvcount * recvSize)]).Perm
      (call.named toolId ++ [(path [toolId, "send"], sendcount * sendSize),
        (path [toolId, "recv"], recvcount * recvSize)]) := by
  intro call
  rw [List.perm_iff_count]
  intro entry
  simp only [call, MpiCall.added, MpiCall.named, namedAfterDirection, List.cons_append,
    List.nil_append, List.count_cons, List.count_nil]
  omega

/-! ## What a recorded call leaves on each track -/

section Record

variable {transfers : List (Track × ℕ)} {trackers : List (String × ℕ)} {track : Track}

theorem filterMap_record {β : Type} (f : Action → Option β) :
    (record s transfers trackers).filterMap f =
      transfers.flatMap (fun t => (writePerfettoCounterTrack s t.1 t.2).filterMap f) ++
        transfers.flatMap (fun t => (cacheCommDataEvents t.1 t.2).filterMap f) ++
          if s.useTimemory then trackers.flatMap (fun t => (add s t.1 t.2).filterMap f) else [] := by
  rw [record, List.filterMap_append, List.filterMap_append, List.filterMap_flatMap,
    List.filterMap_flatMap]
  split
  · rw [List.filterMap_flatMap]
  · rfl

theorem filterMap_write_of_none {β : Type} {f : Action → Option β}
    (h : ∀ t bytes, f (.writePerfetto t bytes) = none) :
    (transfers.flatMap fun t => (writePerfettoCounterTrack s t.1 t.2).filterMap f) = [] := by
  apply List.flatMap_eq_nil_iff.mpr
  intro t _
  unfold writePerfettoCounterTrack
  split
  · exact List.filterMap_cons_none (h t.1 t.2)
  · rfl

theorem filterMap_add_of_none {β : Type} {f : Action → Option β}
    (h : ∀ name value, f (.addTracker name value) = none) :
    (if s.useTimemory then trackers.flatMap (fun t => (add s t.1 t.2).filterMap f) else []) =
      [] := by
  split
  · apply List.flatMap_eq_nil_iff.mpr
    intro t _
    unfold add
    split
    · exact List.filterMap_cons_none (h t.1 t.2)
    · rfl
  · rfl

theorem flatMap_eq_group {f : Track × ℕ → List ℕ}
    (h : ∀ t, f t = if t.1 = track then [t.2] else []) :
    transfers.flatMap f = group track transfers := by
  induction transfers with
  | nil => rfl
  | cons t transfers ih =>
    rw [List.flatMap_cons, ih, h]
    by_cases ht : t.1 = track
    · simp [group, ht]
    · simp [group, ht]

theorem filterMap_perfettoBytes_record :
    (record s transfers trackers).filterMap (Action.perfettoBytes track) =
      if s.usePerfetto && s.active then group track transfers else [] := by
  have hcache : (transfers.flatMap fun t =>
      (cacheCommDataEvents t.1 t.2).filterMap (Action.perfettoBytes track)) = [] :=
    List.flatMap_eq_nil_iff.mpr fun _ _ => rfl
  rw [filterMap_record, hcache, filterMap_add_of_none fun _ _ => rfl, List.append_nil,
    List.append_nil]
  unfold writePerfettoCounterTrack
  split
  · apply flatMap_eq_group
    intro t
    by_cases ht : t.1 = track
    · simp [Action.perfettoBytes, ht]
    · simp [Action.perfettoBytes, ht]
  · exact List.flatMap_eq_nil_iff.mpr fun _ _ => rfl

theorem filterMap_cacheBytes_record :
    (record s transfers trackers).filterMap
        (fun a => (a.cacheEvent track).bind CacheEvent.bytes) = group track transfers := by
  rw [filterMap_record, filterMap_write_of_none fun _ _ => rfl,
    filterMap_add_of_none fun _ _ => rfl, List.append_nil, List.nil_append]
  apply flatMap_eq_group
  intro t
  by_cases ht : t.1 = track
  · simp [cacheCommDataEvents, Action.cacheEvent, CacheEvent.bytes, ht]
  · simp [cacheCommDataEvents, Action.cacheEvent, ht]

theorem filterMap_entry_record :
    (record s transfers trackers).filterMap Action.entry =
      if s.useTimemory && s.active then trackers else [] := by
  have hcache : (transfers.flatMap fun t =>
      (cacheCommDataEvents t.1 t.2).filterMap Action.entry) = [] :=
    List.flatMap_eq_nil_iff.mpr fun _ _ => rfl
  rw [filterMap_record, filterMap_write_of_none fun _ _ => rfl, hcache, List.nil_append,
    List.nil_append]
  cases htimemory : s.useTimemory with
  | false => rfl
  | true =>
    unfold add
    cases hactive : s.active with
    | true => simp [Action.entry]
    | false => exact List.flatMap_eq_nil_iff.mpr fun _ _ => rfl

end Record

end CommData
end Components
end Rocprofsys
