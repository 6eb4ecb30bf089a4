import Rocprofsys.ThreadData.Growth

namespace Rocprofsys
namespace ThreadData

open Base
open Container

variable {α : Type} {M : MaxThreads}

/-! ## Full containers -/

/-- `n` elements and no room for more. -/
structure Full (v : StableVector α M.count) (n : Nat) : Prop where
  packed : v.IsPacked
  length : v.toList.length = n
  capacity : v.capacity = n

theorem Full.size {v : StableVector α M.count} {n : Nat} (h : Full v n) : v.size = n :=
  (StableVector.size_eq_length h.packed).trans h.length

theorem toNat_ofNat_of_lt {n : Nat} (h : n < 18446744073709551616) :
    (UInt64.ofNat n).toNat = n := UInt64.toNat_ofNat_of_lt' h

theorem missing_eq {v : StableVector α M.count} {n k : Nat} (hn : v.capacity + k = n)
    (hk : k < 9223372036854775808) (hfits : n < 18446744073709551616) :
    v.missing (UInt64.ofNat n) = k := by
  rw [StableVector.missing, toNat_ofNat_of_lt hfits]
  have hdiff : (n : Int) - v.capacity = k := by omega
  rw [hdiff]
  exact Int.bmod_eq_of_le (by omega) (by omega)

/-- One chunk behind full ones is reserved for anything up to a chunk. -/
theorem reserve_eq_addChunk {v : StableVector α M.count} {n k : Nat}
    (hn : v.capacity + k = n) (hpos : 0 < k) (hk : k ≤ M.count)
    (hfits : n < 18446744073709551616) : v.reserve (UInt64.ofNat n) = v.addChunk := by
  have hcount := M.fits
  rw [StableVector.reserve, missing_eq hn (by omega) hfits, Int.toNat_natCast,
    StableVector.addChunks_pos v hpos, Nat.sub_eq_zero_of_le hk, StableVector.addChunks_zero]

/-- Filling up to the capacity. -/
theorem full_fill {v : StableVector α M.count} (h : v.IsPacked) {n : Nat}
    (hcapacity : v.capacity = n) (init : α) :
    ∃ v', StableVector.fill init n n v = .ok v' ∧ Full v' n ∧
      v'.toList = v.toList ++ List.replicate (n - v.size) init := by
  have hsize := v.size_le_capacity
  obtain ⟨v', hfill, hpacked, hlist⟩ :=
    StableVector.fill_spec M.pos h init (Nat.le_add_left n v.size)
  refine ⟨v', hfill, ⟨hpacked, ?_, ?_⟩, hlist⟩
  · rw [hlist, List.length_append, List.length_replicate, ← StableVector.size_eq_length h]
    omega
  · rw [StableVector.capacity_fill hcapacity.ge hfill]
    exact hcapacity

theorem step_resize_of_fill {v v' : StableVector α M.count} {n : Nat} {init : α}
    (hfits : n < 18446744073709551616)
    (hfill : StableVector.fill init n n
      (if v.capacity < n then v.reserve (UInt64.ofNat n) else v) = .ok v') :
    v.step (.resize (UInt64.ofNat n) init) = v' := by
  have hresize : v.resize (UInt64.ofNat n) init = .ok v' := by
    rw [StableVector.resize, toNat_ofNat_of_lt hfits]
    exact hfill
  rw [StableVector.step, StableVector.apply, hresize]

/-- The elements a new chunk is filled with come behind those that were there. -/
theorem growVector_spec {v : StableVector α M.count} {n : Nat} (h : Full v n)
    (hn : n < 9223372036854775808) (init : α) :
    Full (growVector init v) (n + M.count) ∧
      (growVector init v).toList = v.toList ++ List.replicate M.count init := by
  have hcount := M.fits
  have hpos := M.pos
  have hcapacity := h.capacity
  have hreserve : v.reserve (UInt64.ofNat (v.capacity + 1)) = v.addChunk :=
    reserve_eq_addChunk rfl Nat.one_pos hpos (by omega)
  obtain ⟨hpacked, hlist⟩ := StableVector.addChunk_spec h.packed (h.size.trans h.capacity.symm)
  have hsize : v.addChunk.size = n := by
    rw [StableVector.size_eq_length hpacked, hlist, h.length]
  have hgrown : v.addChunk.capacity = n + M.count := by
    rw [StableVector.capacity_addChunk, hcapacity]
  obtain ⟨v', hfill, hfull, hlist'⟩ := full_fill hpacked hgrown init
  have hstep : v.addChunk.step (.resize (UInt64.ofNat v.addChunk.capacity) init) = v' := by
    rw [hgrown, step_resize_of_fill (by omega) (by rw [hgrown, if_neg (Nat.lt_irrefl _), hfill])]
  unfold growVector
  rw [hreserve]
  show Full (v.addChunk.step (.resize (UInt64.ofNat v.addChunk.capacity) init)) _ ∧
    (v.addChunk.step (.resize (UInt64.ofNat v.addChunk.capacity) init)).toList = _
  rw [hstep]
  refine ⟨hfull, ?_⟩
  rw [hlist', hlist, hsize, Nat.add_sub_cancel_left]

theorem full_growVector {v : StableVector α M.count} {n : Nat} (h : Full v n)
    (hn : n < 9223372036854775808) (init : α) : Full (growVector init v) (n + M.count) :=
  (growVector_spec h hn init).1

/-! ## New containers -/

theorem resizeToMax_empty_spec (init : α) :
    Full (resizeToMax init (.empty : StableVector α M.count)) M.count ∧
      (resizeToMax init (.empty : StableVector α M.count)).toList =
        List.replicate M.count init := by
  have hcount := M.fits
  have hpos := M.pos
  have hzero : (StableVector.empty : StableVector α M.count).capacity = 0 := Nat.zero_mul _
  have hreserve : (StableVector.empty : StableVector α M.count).reserve (UInt64.ofNat M.count) =
      StableVector.empty.addChunk :=
    reserve_eq_addChunk (by omega) hpos (Nat.le_refl _) (by omega)
  have hgrown : (StableVector.empty : StableVector α M.count).addChunk.capacity = M.count := by
    rw [StableVector.capacity_addChunk, hzero, Nat.zero_add]
  obtain ⟨hpacked, -⟩ :=
    StableVector.addChunk_spec (@StableVector.isPacked_empty α M.count) hzero.symm
  obtain ⟨v', hfill, hfull, hlist⟩ := full_fill hpacked hgrown init
  have hsize : (StableVector.empty : StableVector α M.count).size = 0 := rfl
  have hsize' : (StableVector.empty : StableVector α M.count).addChunk.size = 0 := by
    rw [StableVector.size_addChunk, hzero]
  rw [resizeToMax, hsize, if_pos hpos, step_resize_of_fill (by omega)
    (by rw [hzero, if_pos hpos, hreserve, hfill])]
  refine ⟨hfull, ?_⟩
  rw [hlist, hsize', Nat.sub_zero]
  rfl

theorem full_resizeToMax_empty (init : α) :
    Full (resizeToMax init (.empty : StableVector α M.count)) M.count :=
  (resizeToMax_empty_spec init).1

/-- Elements put into a vector with room for them stay within its chunks. -/
theorem run_emplaceBack {v : StableVector α M.count} (h : v.IsPacked) (init : α) {n k : Nat}
    (hcapacity : v.capacity = n) (hsize : v.size + k = n) :
    Full (v.run (List.replicate k (.emplaceBack init))) n := by
  induction k generalizing v with
  | zero => exact ⟨h, (StableVector.size_eq_length h).symm.trans hsize, hcapacity⟩
  | succ k ih =>
    obtain ⟨v', hemplace, hpacked, hlist⟩ := StableVector.emplaceBack_spec M.pos h init
    have hstep : v.step (.emplaceBack init) = v' := by
      rw [StableVector.step, StableVector.apply, hemplace]
    have hgrown := StableVector.capacity_emplaceBack (by omega) hemplace
    have hlength : v'.size = v.size + 1 := by
      rw [StableVector.size_eq_length hpacked, hlist, List.length_append,
        ← StableVector.size_eq_length h, List.length_singleton]
    rw [List.replicate_succ]
    show Full ((v.step (.emplaceBack init)).run _) n
    rw [hstep]
    exact ih hpacked (hgrown.trans hcapacity) (by omega)

theorem full_ofCount (init : α) : Full (ofCount init : StableVector α M.count) M.count := by
  have hpos := M.pos
  obtain ⟨k, hk⟩ : ∃ k, M.count = k + 1 := ⟨M.count - 1, by omega⟩
  have hemplace : (StableVector.empty : StableVector α M.count).step (.emplaceBack init) =
      ⟨[⟨[] ++ [init], Chunk.length_append_le hpos init⟩]⟩ := by
    have hback : (StableVector.empty : StableVector α M.count).emplaceBack init =
        .ok ⟨[⟨[] ++ [init], Chunk.length_append_le hpos init⟩]⟩ :=
      StableVector.emplaceBack_of_room rfl hpos init
    rw [StableVector.step, StableVector.apply, hback]
  have hrun : (ofCount init : StableVector α M.count) =
      (StableVector.empty.step (.emplaceBack init)).run
        (List.replicate k (.emplaceBack init)) := by
    have hops : List.replicate M.count (Operation.emplaceBack init) =
        .emplaceBack init :: List.replicate k (.emplaceBack init) := by
      rw [hk, List.replicate_succ]
    rw [ofCount, hops]
    rfl
  rw [hrun, hemplace]
  have hpacked : StableVector.IsPacked
      (⟨[⟨[] ++ [init], Chunk.length_append_le hpos init⟩]⟩ : StableVector α M.count) :=
    packed_singleton ([] ++ [init])
  refine run_emplaceBack hpacked init (Nat.one_mul _) ?_
  show 0 * M.count + 1 + k = M.count
  omega

theorem full_fresh (init : α) (kind : Kind) :
    Full (fresh init kind : StableVector α M.count) M.count := by
  cases kind with
  | value => exact full_ofCount init
  | pointer => exact full_resizeToMax_empty init
  | constructed => exact full_resizeToMax_empty init

/-! ## grow_data -/

theorem grow_spec {e : Entry α M} {n : Nat} {tid : Int64} (init : α) (hstage : e.stage = .ready)
    (h : Full e.data n) (hn : (n : Int) ≤ tid.toInt) :
    (e.grow init tid).stage = .ready ∧ Full (e.grow init tid).data (n + M.count) := by
  have htid := tid.toInt_lt
  have hsize := h.size
  have hcapacity := h.capacity
  have hfull := full_growVector h (by omega) init
  have hgrow : e.grow init tid = { e with data := growVector init e.data } := by
    unfold Entry.grow
    rw [hstage]
    cases e.kind with
    | constructed => exact if_pos (by omega)
    | value => exact if_pos (by omega)
    | pointer => exact if_pos (by omega)
  rw [hgrow]
  exact ⟨hstage, hfull⟩

/-- Every container is full, with at most as many elements as the peak. -/
structure Behind (s : State α M) : Prop where
  positive : (M.count : Int) ≤ s.peak
  full : ∀ e ∈ s.entries, e.stage = .ready ∧ ∃ n : Nat, Full e.data n ∧ (n : Int) ≤ s.peak

theorem behind_initial : Behind (initial : State α M) :=
  ⟨Int.le_refl _, fun _ h => absurd h List.not_mem_nil⟩

theorem growData_of_lt {s : State α M} {tid : Int64} (init : α) (h : tid.toInt < s.peak) :
    growData init s tid = ({ s with returned := tid :: s.returned }, s.peak) :=
  if_neg (Int.not_le.mpr h)

theorem growData_of_le {s : State α M} {tid : Int64} (init : α) (h : s.peak ≤ tid.toInt) :
    growData init s tid =
      ({ s with peak := s.peak + M.count, entries := s.entries.map (Entry.grow init tid),
                returned := tid :: s.returned }, s.peak + M.count) :=
  if_pos h

/-- A growth adds one chunk to every container. -/
theorem size_grow {s : State α M} (h : Behind s) {tid : Int64} (init : α)
    (hpeak : s.peak ≤ tid.toInt) {e : Entry α M} (he : e ∈ s.entries) :
    (e.grow init tid).data.size = e.data.size + M.count := by
  obtain ⟨hstage, n, hfull, hle⟩ := h.full e he
  obtain ⟨-, hgrown⟩ := grow_spec init hstage hfull (Int.le_trans hle hpeak)
  rw [hgrown.size, hfull.size]

theorem Behind.call {s : State α M} (h : Behind s) (init : α) (c : Call) :
    Behind (call init s c) := by
  have hpos := M.pos
  have hpositive := h.positive
  cases c with
  | create kind =>
    refine ⟨hpositive, fun e he => ?_⟩
    rcases List.mem_append.mp he with he | he
    · exact h.full e he
    · rw [List.mem_singleton.mp he]
      exact ⟨rfl, M.count, full_fresh init kind, hpositive⟩
  | grow tid =>
    show Behind (growData init s tid).1
    by_cases hlt : tid.toInt < s.peak
    · rw [growData_of_lt init hlt]
      exact ⟨hpositive, h.full⟩
    · have hpeak := Int.not_lt.mp hlt
      rw [growData_of_le init hpeak]
      refine ⟨by show (M.count : Int) ≤ s.peak + M.count; omega, fun e he => ?_⟩
      obtain ⟨e, hmem, rfl⟩ := List.mem_map.mp he
      obtain ⟨hstage, n, hfull, hle⟩ := h.full e hmem
      obtain ⟨hready, hgrown⟩ := grow_spec init hstage hfull (Int.le_trans hle hpeak)
      refine ⟨hready, n + M.count, hgrown, ?_⟩
      show ((n + M.count : Nat) : Int) ≤ s.peak + M.count
      omega

theorem behind_calls {s : State α M} (h : Behind s) (init : α) (cs : List Call) :
    Behind (calls init s cs) := by
  induction cs generalizing s with
  | nil => exact h
  | cons c cs ih => exact ih (h.call init c)

/-- `grow_data` covers the thread when one chunk more is enough, for the peak and for every
container. -/
theorem growData_covers_iff (init : α) (cs : List Call) (tid : Int64) :
    let s : State α M := calls init initial cs
    (tid.toInt < (growData init s tid).2 ∧
        ∀ e ∈ (growData init s tid).1.entries, tid.toInt < e.data.size) ↔
      tid.toInt < s.peak + M.count ∧
        ∀ e ∈ s.entries,
          tid.toInt < e.data.size + (if s.peak ≤ tid.toInt then (M.count : Int) else 0) := by
  intro s
  have hbehind : Behind s := behind_calls behind_initial init cs
  have hpos := M.pos
  by_cases hlt : tid.toInt < s.peak
  · rw [growData_of_lt init hlt, if_neg (Int.not_le.mpr hlt)]
    constructor
    · intro h
      obtain ⟨-, hcovers⟩ := h
      exact ⟨by omega, fun e he => by have := hcovers e he; omega⟩
    · intro h
      obtain ⟨-, hcovers⟩ := h
      exact ⟨hlt, fun e he => by have := hcovers e he; omega⟩
  · have hpeak := Int.not_lt.mp hlt
    rw [growData_of_le init hpeak, if_pos hpeak]
    constructor
    · intro h
      obtain ⟨hreturned, hcovers⟩ := h
      refine ⟨hreturned, fun e he => ?_⟩
      have hsize := hcovers (e.grow init tid) (List.mem_map_of_mem he)
      rw [size_grow hbehind init hpeak he] at hsize
      omega
    · intro h
      obtain ⟨hreturned, hcovers⟩ := h
      refine ⟨hreturned, fun e he => ?_⟩
      obtain ⟨e, hmem, rfl⟩ := List.mem_map.mp he
      have hsize := hcovers e hmem
      rw [size_grow hbehind init hpeak hmem]
      omega

/-- Four threads to a chunk. -/
def four : MaxThreads := ⟨4, by decide, by decide⟩

/-- The second chunk ends at thread 7. -/
theorem not_growData_covers_eight :
    ¬∀ (cs : List Call) (tid : Int64),
      let s : State Nat four := calls 0 initial cs
      tid.toInt < (growData 0 s tid).2 ∧
        ∀ e ∈ (growData 0 s tid).1.entries, tid.toInt < e.data.size := by
  intro h
  obtain ⟨hreturned, -⟩ := h [.create .value] 8
  have hpeak : ((calls 0 initial [.create .value] : State Nat four)).peak ≤ (8 : Int64).toInt := by
    show (4 : Int) ≤ (8 : Int64).toInt
    decide
  rw [growData_of_le 0 hpeak] at hreturned
  exact absurd hreturned (by show ¬(8 : Int64).toInt < (4 : Int) + 4; decide)

end ThreadData
end Rocprofsys
