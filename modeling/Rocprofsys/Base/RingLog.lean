import Rocprofsys.Base.Ring

namespace Rocprofsys
namespace Base

/-! ## Ring logs

Writers append to a log by reserving a span and filling it in later, in any
order.  A flusher takes a snapshot of the log's end and copies everything up to
it.  A ring buffer keeps only the part of the log that is not copied yet.  The
four moves are given first for the log and then tracked in the ring. -/

/-- A ring buffer with the addresses of its next free byte and its oldest byte. -/
structure RingBuffer where
  head : Nat
  tail : Nat
  memory : Memory

/-- The log behind a ring.  `written` is the end of the latest snapshot and
`copied` the end of the copy.  A writer's span is its start and the bytes that
are still missing there. -/
structure RingLog where
  bytes : List UInt8
  written : Nat
  copied : Nat
  spans : Nat → Option (Nat × List UInt8)

namespace RingLog

def append (log : RingLog) (bs : List UInt8) : RingLog :=
  { log with bytes := log.bytes ++ bs }

def reserve (log : RingLog) (w : Nat) (bs : List UInt8) : RingLog :=
  { log with
    bytes := log.bytes ++ bs
    spans := Function.update log.spans w (some (log.bytes.length, bs)) }

def publish (log : RingLog) (w : Nat) : RingLog :=
  { log with spans := Function.update log.spans w none }

def snapshot (log : RingLog) : RingLog := { log with written := log.bytes.length }

def copy (log : RingLog) : RingLog := { log with copied := log.written }

theorem spans_reserve (log : RingLog) (w : Nat) (bs : List UInt8) :
    (log.reserve w bs).spans = Function.update log.spans w (some (log.bytes.length, bs)) := rfl

@[simp] theorem spans_reserve_self (log : RingLog) (w : Nat) (bs : List UInt8) :
    (log.reserve w bs).spans w = some (log.bytes.length, bs) :=
  Function.update_self ..

theorem spans_publish (log : RingLog) (w : Nat) :
    (log.publish w).spans = Function.update log.spans w none := rfl

theorem append_append (log : RingLog) (bs cs : List UInt8) :
    (log.append bs).append cs = log.append (bs ++ cs) := by
  simp only [append, List.append_assoc]

/-- A span that is filled in at once is an append. -/
theorem publish_reserve {log : RingLog} {w : Nat} (hw : log.spans w = none) (bs : List UInt8) :
    (log.reserve w bs).publish w = log.append bs := by
  have hspans : Function.update (Function.update log.spans w (some (log.bytes.length, bs))) w none
      = log.spans := by
    rw [Function.update_idem, ← hw, Function.update_eq_self]
  simp only [publish, reserve, append, hspans]

/-- A position that is not copied yet and in nobody's open span. -/
def Settled (log : RingLog) (v : Nat) : Prop :=
  log.copied ≤ v ∧ ∀ w u bs, log.spans w = some (u, bs) → v < u ∨ u + bs.length ≤ v

/-- `bs` belongs at position `u`, behind the snapshot and without crossing the
end of the ring. -/
structure Placed (cap : Nat) (log : RingLog) (u : Nat) (bs : List UInt8) : Prop where
  written_le : log.written ≤ u
  end_le : u + bs.length ≤ log.bytes.length
  fits : u % cap + bs.length ≤ cap
  agrees : ∀ i b, bs[i]? = some b → log.bytes[u + i]? = some b

theorem Placed.grow {cap : Nat} {log : RingLog} {u : Nat} {bs : List UInt8}
    (h : log.Placed cap u bs) (more : List UInt8) : (log.append more).Placed cap u bs where
  written_le := h.written_le
  end_le := by
    have hend := h.end_le
    simp only [append, List.length_append]
    omega
  fits := h.fits
  agrees i b hb := by
    have hlog := h.agrees i b hb
    obtain ⟨hlt, -⟩ := List.getElem?_eq_some_iff.mp hlog
    rw [append, List.getElem?_append_left hlt, hlog]

/-- Two open spans share no position. -/
def Apart (log : RingLog) : Prop :=
  ∀ w w' u u' bs bs', w ≠ w' → log.spans w = some (u, bs) → log.spans w' = some (u', bs') →
    u + bs.length ≤ u' ∨ u' + bs'.length ≤ u

theorem Apart.publish {log : RingLog} (h : log.Apart) (w : Nat) : (log.publish w).Apart := by
  intro w₁ w₂ u u' bs bs' hne h₁ h₂
  simp only [spans_publish, Function.update_apply] at h₁ h₂
  split at h₁
  · exact absurd h₁ (by simp)
  · split at h₂
    · exact absurd h₂ (by simp)
    · exact h w₁ w₂ u u' bs bs' hne h₁ h₂

end RingLog

/-- The ring holds what the log still needs from it. -/
structure RingBuffer.Tracks (cap : Nat) (ring : RingBuffer) (log : RingLog) : Prop where
  head_eq : ring.head = log.bytes.length % cap
  tail_eq : ring.tail = log.written % cap
  copied_le : log.copied ≤ log.written
  written_le : log.written ≤ log.bytes.length
  unflushed_lt : log.bytes.length < log.written + cap
  inflight_lt : log.written < log.copied + cap
  uncopied_le : log.bytes.length ≤ log.copied + cap
  placed : ∀ w u bs, log.spans w = some (u, bs) → log.Placed cap u bs
  apart : log.Apart
  holds : Holds cap ring.memory log.bytes log.Settled

namespace RingBuffer.Tracks

variable {cap : Nat} {ring : RingBuffer} {log : RingLog}

theorem cap_pos (h : ring.Tracks cap log) : 0 < cap := by
  have := h.unflushed_lt
  have := h.written_le
  omega

/-- The distance from tail to head is the number of bytes not in a snapshot. -/
theorem used_eq (h : ring.Tracks cap log) :
    cyclicDistance cap ring.tail ring.head = log.bytes.length - log.written := by
  rw [h.head_eq, h.tail_eq]
  exact cyclicDistance_mod h.cap_pos h.written_le h.unflushed_lt

theorem head_eq_tail_iff (h : ring.Tracks cap log) :
    ring.head = ring.tail ↔ log.bytes.length = log.written := by
  rw [h.head_eq, h.tail_eq]
  constructor
  · intro heq
    exact eq_of_mod_eq h.written_le h.unflushed_lt (Nat.le_refl _)
      (Nat.lt_add_of_pos_right h.cap_pos) heq
  · intro heq
    rw [heq]

/-- Nothing reserved, nothing copied. -/
theorem init (hcap : 0 < cap) (m : Memory) :
    RingBuffer.Tracks cap ⟨0, 0, m⟩ ⟨[], 0, 0, fun _ => none⟩ where
  head_eq := by simp
  tail_eq := by simp
  copied_le := Nat.le_refl _
  written_le := Nat.le_refl _
  unflushed_lt := by simpa using hcap
  inflight_lt := by simpa using hcap
  uncopied_le := by simp
  placed _ _ _ hw := absurd hw (by simp)
  apart _ _ _ _ _ _ _ hw := absurd hw (by simp)
  holds _ _ _ hb := absurd hb (by simp)

/-- Appending bytes that are written on the spot. -/
theorem append (h : ring.Tracks cap log) (bs : List UInt8) (hfits : ring.head + bs.length ≤ cap)
    (hroom : log.bytes.length + bs.length < log.written + cap)
    (hcopy : log.bytes.length + bs.length ≤ log.copied + cap) :
    RingBuffer.Tracks cap
      { ring with
        head := (ring.head + bs.length) % cap
        memory := ring.memory.write ring.head bs }
      (log.append bs) where
  head_eq := by simp only [RingLog.append, List.length_append, h.head_eq, Nat.mod_add_mod]
  tail_eq := h.tail_eq
  copied_le := h.copied_le
  written_le := Nat.le_trans h.written_le (by simp [RingLog.append])
  unflushed_lt := by simpa [RingLog.append] using hroom
  inflight_lt := h.inflight_lt
  uncopied_le := by simpa [RingLog.append] using hcopy
  placed w u bs' hw := (h.placed w u bs' hw).grow bs
  apart := h.apart
  holds := by
    have hgrown : Holds cap ring.memory (log.bytes ++ bs)
        (fun v => log.Settled v ∧ v < log.bytes.length) :=
      (h.holds.mono fun v hv => hv.1).grow (fun v hv => hv.2) bs
    have hend : log.bytes.length + bs.length ≤ (log.bytes ++ bs).length := by simp
    have hbs : ∀ (i : Nat) (b : UInt8), bs[i]? = some b →
        (log.bytes ++ bs)[log.bytes.length + i]? = some b := by
      intro i b hb
      rwa [List.getElem?_append_right (by omega), Nat.add_sub_cancel_left]
    have hwritten := hgrown.write (fun v hv => hv.1.1) (by simpa using hcopy)
      (Nat.le_trans h.copied_le h.written_le) hend (by rwa [← h.head_eq]) hbs
    rw [← h.head_eq] at hwritten
    intro v b hv hb
    obtain ⟨hlt, -⟩ := List.getElem?_eq_some_iff.mp hb
    simp only [RingLog.append, List.length_append] at hlt
    refine hwritten v b ?_ hb
    rcases Nat.lt_or_ge v log.bytes.length with hin | hin
    · exact Or.inl ⟨hv, hin⟩
    · exact Or.inr ⟨hin, hlt⟩

/-- Reserving a span moves the head and leaves the bytes for later. -/
theorem reserve (h : ring.Tracks cap log) {w : Nat} (hw : log.spans w = none) (bs : List UInt8)
    (hfits : ring.head + bs.length < cap)
    (hroom : log.bytes.length + bs.length < log.written + cap)
    (hcopy : log.bytes.length + bs.length ≤ log.copied + cap) :
    RingBuffer.Tracks cap { ring with head := ring.head + bs.length } (log.reserve w bs) where
  head_eq := by
    rw [h.head_eq] at hfits ⊢
    simp only [RingLog.reserve, List.length_append]
    exact (add_mod_of_fits hfits).symm
  tail_eq := h.tail_eq
  copied_le := h.copied_le
  written_le := Nat.le_trans h.written_le (by simp [RingLog.reserve])
  unflushed_lt := by simpa [RingLog.reserve] using hroom
  inflight_lt := h.inflight_lt
  uncopied_le := by simpa [RingLog.reserve] using hcopy
  placed w' u bs' hw' := by
    simp only [RingLog.spans_reserve, Function.update_apply] at hw'
    split at hw'
    · obtain ⟨rfl, rfl⟩ := Prod.mk.inj (Option.some.inj hw')
      refine ⟨h.written_le, by simp [RingLog.reserve], ?_, fun i b hb => ?_⟩
      · rw [← h.head_eq]
        exact Nat.le_of_lt hfits
      · simp only [RingLog.reserve]
        rwa [List.getElem?_append_right (by omega), Nat.add_sub_cancel_left]
    · exact ⟨h.placed w' u bs' hw' |>.written_le, ((h.placed w' u bs' hw').grow bs).end_le,
        (h.placed w' u bs' hw').fits, ((h.placed w' u bs' hw').grow bs).agrees⟩
  apart := by
    intro w₁ w₂ u u' bs₁ bs₂ hne h₁ h₂
    simp only [RingLog.spans_reserve, Function.update_apply] at h₁ h₂
    split at h₁
    · obtain ⟨rfl, rfl⟩ := Prod.mk.inj (Option.some.inj h₁)
      rw [if_neg (by omega)] at h₂
      exact Or.inr (h.placed w₂ u' bs₂ h₂).end_le
    · split at h₂
      · obtain ⟨rfl, rfl⟩ := Prod.mk.inj (Option.some.inj h₂)
        exact Or.inl (h.placed w₁ u bs₁ h₁).end_le
      · exact h.apart w₁ w₂ u u' bs₁ bs₂ hne h₁ h₂
  holds := by
    intro v b hv hb
    have hnew := hv.2 w log.bytes.length bs (RingLog.spans_reserve_self ..)
    obtain ⟨hlt, -⟩ := List.getElem?_eq_some_iff.mp hb
    simp only [RingLog.reserve, List.length_append] at hlt
    have hin : v < log.bytes.length := by omega
    refine h.holds v b ⟨hv.1, fun w' u bs' hw' => hv.2 w' u bs' ?_⟩ ?_
    · rw [RingLog.spans_reserve, Function.update_of_ne, hw']
      intro heq
      subst heq
      rw [hw] at hw'
      exact absurd hw' (by simp)
    · rwa [RingLog.reserve, List.getElem?_append_left hin] at hb

/-- Filling in an open span settles it. -/
theorem publish (h : ring.Tracks cap log) {w u : Nat} {bs : List UInt8}
    (hw : log.spans w = some (u, bs)) :
    RingBuffer.Tracks cap { ring with memory := ring.memory.write (u % cap) bs } (log.publish w) where
  head_eq := h.head_eq
  tail_eq := h.tail_eq
  copied_le := h.copied_le
  written_le := h.written_le
  unflushed_lt := h.unflushed_lt
  inflight_lt := h.inflight_lt
  uncopied_le := h.uncopied_le
  placed w' u' bs' hw' := by
    simp only [RingLog.spans_publish, Function.update_apply] at hw'
    split at hw'
    · exact absurd hw' (by simp)
    · have := h.placed w' u' bs' hw'
      exact ⟨this.written_le, this.end_le, this.fits, this.agrees⟩
  apart := h.apart.publish w
  holds := by
    have hplaced := h.placed w u bs hw
    have hwritten := h.holds.write (fun v hv => hv.1) h.uncopied_le
      (Nat.le_trans h.copied_le hplaced.written_le) hplaced.end_le hplaced.fits hplaced.agrees
    refine hwritten.mono fun v hv => ?_
    by_cases hin : u ≤ v ∧ v < u + bs.length
    · exact Or.inr hin
    · refine Or.inl ⟨hv.1, fun w' u' bs' hw' => ?_⟩
      by_cases hne : w' = w
      · subst hne
        obtain ⟨rfl, rfl⟩ := Prod.mk.inj (Option.some.inj (hw.symm.trans hw'))
        omega
      · exact hv.2 w' u' bs' (by rw [RingLog.spans_publish, Function.update_of_ne hne, hw'])

/-- A snapshot with no open span moves the tail to the head. -/
theorem snapshot (h : ring.Tracks cap log) (hnone : ∀ w, log.spans w = none)
    (hidle : log.copied = log.written) :
    RingBuffer.Tracks cap { ring with tail := ring.head } log.snapshot where
  head_eq := h.head_eq
  tail_eq := h.head_eq
  copied_le := Nat.le_trans h.copied_le h.written_le
  written_le := Nat.le_refl _
  unflushed_lt := Nat.lt_add_of_pos_right h.cap_pos
  inflight_lt := by
    have := h.unflushed_lt
    simp only [RingLog.snapshot, hidle]
    omega
  uncopied_le := h.uncopied_le
  placed w u bs hw := absurd hw (by simp [RingLog.snapshot, hnone])
  apart _ _ _ _ _ _ _ hw := absurd hw (by simp [RingLog.snapshot, hnone])
  holds := h.holds.mono fun _ hv => hv

/-- Reading from the end of the copy to the snapshot gives the log's bytes. -/
theorem readCyclic (h : ring.Tracks cap log) :
    Base.readCyclic cap ring.memory (log.copied % cap) (log.written % cap) =
      (log.bytes.drop log.copied).take (log.written - log.copied) := by
  refine h.holds.readCyclic h.cap_pos (fun v hv hv' => ⟨hv, fun w u bs hw => ?_⟩) h.copied_le
    h.inflight_lt h.written_le
  have := (h.placed w u bs hw).written_le
  omega

/-- Copying needs no change in the ring. -/
theorem copy (h : ring.Tracks cap log) : ring.Tracks cap log.copy where
  head_eq := h.head_eq
  tail_eq := h.tail_eq
  copied_le := Nat.le_refl _
  written_le := h.written_le
  unflushed_lt := h.unflushed_lt
  inflight_lt := Nat.lt_add_of_pos_right h.cap_pos
  uncopied_le := Nat.le_of_lt h.unflushed_lt
  placed w u bs hw := by
    have := h.placed w u bs hw
    exact ⟨this.written_le, this.end_le, this.fits, this.agrees⟩
  apart := h.apart
  holds := h.holds.mono fun _ hv => ⟨Nat.le_trans h.copied_le hv.1, hv.2⟩

end RingBuffer.Tracks
end Base
end Rocprofsys
