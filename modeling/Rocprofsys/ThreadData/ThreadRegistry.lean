import Rocprofsys.ThreadData.GrowthInvariant
import Rocprofsys.ThreadData.ThreadInfo

namespace Rocprofsys
namespace ThreadData

open Container

/-! ## Slots -/

section Container

variable {β : Type} {M : MaxThreads} {v v' : StableVector (Option β) M.count} {tid : Int64}
  {i n : Nat} {peak : Int} {P Q : Nat → β → Prop}

theorem slotOf_injective {a b : Int64} (h : slotOf a = slotOf b) : a = b := by
  have hbits : a.toUInt64 = b.toUInt64 := UInt64.toNat_inj.mp h
  rw [← a.toInt64_toUInt64, hbits, b.toInt64_toUInt64]

theorem slots_eq (h : v.IsPacked) : slots v = v.toList := by
  apply List.ext_getElem?
  intro i
  rw [slots, StableVector.size_eq_length h, List.getElem?_map]
  rcases Nat.lt_or_ge i v.toList.length with hi | hi
  · rw [List.getElem?_range hi, Option.map_some, StableVector.get_eq h hi,
      List.getElem?_eq_getElem hi]
    rfl
  · rw [List.getElem?_eq_none (by rw [List.length_range]; exact hi), List.getElem?_eq_none hi]
    rfl

/-- `at` reads the slot or reports that there is none. -/
theorem valueAt_eq (v : StableVector (Option β) M.count) (tid : Int64) :
    valueAt v tid =
      match (slots v)[slotOf tid]? with
      | none => .error (.container (v.outOfRange (slotOf tid)))
      | some x => .ok x := by
  have hlength : (slots v).length = v.size := by
    rw [slots, List.length_map, List.length_range]
  unfold valueAt
  rcases Nat.lt_or_ge (slotOf tid) v.size with hlt | hle
  · have hget : (slots v)[slotOf tid]? = some (v.get (slotOf tid)).join := by
      rw [slots, List.getElem?_map, List.getElem?_range hlt, Option.map_some]
    rw [hget]
    exact if_neg (Nat.not_le_of_lt hlt)
  · rw [List.getElem?_eq_none (hlength.le.trans hle)]
    exact if_pos hle

/-- The container is full, ends at the peak or before it, and its values satisfy the
predicate in their slots. -/
structure Keeps (peak : Int) (P : Nat → β → Prop) (v : StableVector (Option β) M.count) : Prop where
  full : ∃ n : Nat, Full v n ∧ (n : Int) ≤ peak
  values : ∀ i x, v.toList[i]? = some (some x) → P i x

theorem Keeps.mono (h : Keeps peak P v) (hPQ : ∀ i x, P i x → Q i x) : Keeps peak Q v :=
  ⟨h.full, fun i x hx => hPQ i x (h.values i x hx)⟩

theorem Keeps.le (h : Keeps peak P v) {peak' : Int} (hle : peak ≤ peak') : Keeps peak' P v := by
  obtain ⟨n, hfull, hn⟩ := h.full
  exact ⟨⟨n, hfull, hn.trans hle⟩, h.values⟩

theorem Keeps.packed (h : Keeps peak P v) : v.IsPacked := by
  obtain ⟨n, hfull, -⟩ := h.full
  exact hfull.packed

/-- A new container holds no value. -/
theorem Keeps.fresh (hpeak : (M.count : Int) ≤ peak) :
    Keeps peak P (fresh none .pointer : StableVector (Option β) M.count) := by
  refine ⟨⟨M.count, full_fresh none .pointer, hpeak⟩, fun i x hx => ?_⟩
  have hlist : (ThreadData.fresh none .pointer : StableVector (Option β) M.count).toList =
      List.replicate M.count none := (resizeToMax_empty_spec none).2
  rw [hlist] at hx
  have hmem := List.mem_of_getElem? hx
  cases (List.mem_replicate.mp hmem).2

/-- Growing puts empty slots behind the others. -/
theorem Keeps.grown (h : Keeps peak P v) (htid : peak ≤ tid.toInt) :
    Keeps (peak + M.count) P (grown tid v) := by
  obtain ⟨n, hfull, hn⟩ := h.full
  have hlt := tid.toInt_lt
  have hsize := hfull.capacity
  have hgrow : ThreadData.grown tid v = growVector none v := by
    have hneeded : (v.capacity : Int) < tid.toInt + 1 + 1 := by omega
    unfold ThreadData.grown Entry.grow
    simp only [hneeded, if_true]
  rw [hgrow]
  refine ⟨⟨n + M.count, full_growVector hfull (by omega) none, by omega⟩, fun i x hx => ?_⟩
  rw [(growVector_spec hfull (by omega) none).2] at hx
  rcases Nat.lt_or_ge i v.toList.length with hi | hi
  · rw [List.getElem?_append_left hi] at hx
    exact h.values i x hx
  · rw [List.getElem?_append_right hi] at hx
    cases (List.mem_replicate.mp (List.mem_of_getElem? hx)).2

theorem assignAt_eq_ok {x : β} (hassign : assignAt v tid x = .ok v') :
    slotOf tid < v.size ∧ v.assign (slotOf tid) (some x) = .ok v' := by
  unfold assignAt at hassign
  split at hassign
  · cases hassign
  · rename_i v'' hv
    cases hassign
    refine ⟨?_, hv⟩
    rw [StableVector.assign] at hv
    split at hv
    · cases hv
    · omega

theorem toList_assignAt (h : v.IsPacked) {x : β} (hassign : assignAt v tid x = .ok v') :
    slotOf tid < v.toList.length ∧ v'.IsPacked ∧
      v'.toList = v.toList.set (slotOf tid) (some x) := by
  obtain ⟨hlt, hv⟩ := assignAt_eq_ok hassign
  rw [StableVector.size_eq_length h] at hlt
  exact ⟨hlt, StableVector.assign_spec h hv⟩

theorem Keeps.assignAt (h : Keeps peak P v) {x : β} (hassign : assignAt v tid x = .ok v')
    (hx : P (slotOf tid) x) : Keeps peak P v' := by
  obtain ⟨n, hfull, hn⟩ := h.full
  obtain ⟨hlt, hpacked, hlist⟩ := toList_assignAt h.packed hassign
  have hcapacity : v'.capacity = v.capacity := by
    have hv := (assignAt_eq_ok hassign).2
    rw [StableVector.assign, if_neg (by rw [StableVector.size_eq_length h.packed]; omega)] at hv
    cases hv
    rw [StableVector.capacity, StableVector.capacity, List.length_modify]
  refine ⟨⟨n, ⟨hpacked, ?_, hcapacity.trans hfull.capacity⟩, hn⟩, fun i y hy => ?_⟩
  · rw [hlist, List.length_set, hfull.length]
  · rw [hlist, List.getElem?_set] at hy
    split at hy
    · rename_i heq
      cases hy
      exact heq ▸ hx
    · exact h.values i y hy

end Container

/-! ## Every entry stands in the slot of its internal id -/

/-- Index data stands in the slot of a thread that has been here. -/
def IndexAt (once : List Int64) (i : Nat) (data : ThreadIndexData) : Prop :=
  slotOf data.internalValue = i ∧ data.internalValue ∈ once

def InfoAt (i : Nat) (info : ThreadInfo) : Prop :=
  ∀ data, info.indexData = some data → slotOf data.internalValue = i

namespace Registry

variable {M : MaxThreads} {r r' : Registry M} {caller : ThreadIndexData} {isOffset : Bool}
  {now : UInt64} {tid : Int64}

structure Indexed (r : Registry M) : Prop where
  peak : (M.count : Int) ≤ r.peak
  peak_lt : r.peak < 18446744073709551616
  info : Keeps r.peak InfoAt r.infoData
  index : Keeps r.peak (IndexAt r.once) r.indexData

theorem indexed_initial : (initial : Registry M).Indexed where
  peak := Int.le_refl _
  peak_lt := by
    have hfits := M.fits
    show (M.count : Int) < 18446744073709551616
    omega
  info := Keeps.fresh (Int.le_refl _)
  index := Keeps.fresh (Int.le_refl _)

theorem Indexed.growData (h : r.Indexed) (tid : Int64) : (r.growData tid).Indexed := by
  have hpeak := h.peak
  have hfits := M.fits
  have hlt := tid.toInt_lt
  unfold Registry.growData
  split
  · rename_i htid
    refine ⟨by show (M.count : Int) ≤ r.peak + M.count; omega,
      by show r.peak + M.count < 18446744073709551616; omega, ?_, ?_⟩
    · have hinfo := h.info
      unfold infoData at hinfo ⊢
      cases hdata : r.info with
      | none => exact Keeps.fresh (by show (M.count : Int) ≤ r.peak + M.count; omega)
      | some info =>
        rw [hdata] at hinfo
        exact hinfo.grown htid
    · have hindex := h.index
      unfold indexData at hindex ⊢
      cases hdata : r.index with
      | none => exact Keeps.fresh (by show (M.count : Int) ≤ r.peak + M.count; omega)
      | some index =>
        rw [hdata] at hindex
        exact hindex.grown htid
  · exact h

/-- A thread remembered in `_once` stays where its data is looked up. -/
theorem Indexed.remember (h : r.Indexed) (tid : Int64) :
    { r with once := tid :: r.once }.Indexed where
  peak := h.peak
  peak_lt := h.peak_lt
  info := h.info
  index := h.index.mono fun _ _ hdata => ⟨hdata.1, List.mem_cons_of_mem tid hdata.2⟩

theorem valueAt_eq_ok {β : Type} {v : StableVector (Option β) M.count} {x : Option β}
    (h : valueAt v tid = .ok x) : (slots v)[slotOf tid]? = some x := by
  rw [valueAt_eq] at h
  split at h
  · cases h
  · rename_i hslot
    cases h
    exact hslot

/-- Where `init_index_data` yields data, a thread that has not been there before stored its
own, and one that has finds what it stored. -/
theorem Indexed.initIndexData (h : r.Indexed) (honce : caller.internalValue ∈ r.once) :
    (r.initIndexData caller caller.internalValue).1.Indexed ∧
      ∀ data, (r.initIndexData caller caller.internalValue).2 = .ok data →
        data.internalValue = caller.internalValue := by
  have hused : ({ r with index := some r.indexData } : Registry M).indexData = r.indexData := rfl
  have hkept : ({ r with index := some r.indexData } : Registry M).Indexed :=
    ⟨h.peak, h.peak_lt, h.info, h.index⟩
  unfold Registry.initIndexData
  simp only [hused]
  cases hvalue : valueAt r.indexData caller.internalValue with
  | error e => exact ⟨hkept, fun data hdata => by cases hdata⟩
  | ok value =>
    cases value with
    | some itr =>
      have hslot := valueAt_eq_ok hvalue
      rw [slots_eq h.index.packed] at hslot
      refine ⟨hkept, fun data hdata => ?_⟩
      cases hdata
      exact slotOf_injective (h.index.values _ _ hslot).1
    | none =>
      cases hassign : assignAt r.indexData caller.internalValue caller with
      | error e => exact ⟨hkept, fun data hdata => by cases hdata⟩
      | ok index =>
        have hindex : Keeps r.peak (IndexAt r.once) index :=
          h.index.assignAt hassign ⟨rfl, honce⟩
        simp only [ne_eq, not_true_eq_false, if_false]
        refine ⟨⟨h.peak, h.peak_lt, h.info, hindex⟩, fun data hdata => ?_⟩
        cases hdata
        rfl

/-- The registry when a thread that comes for the first time has been given room. -/
def roomFor (r : Registry M) (caller : ThreadIndexData) : Registry M :=
  ({ r with info := some r.infoData, once := caller.internalValue :: r.once } : Registry M).growData
    caller.internalValue

/-- What `init` can come to: the thread is known, or one of the three steps fails, or it is
registered. -/
inductive Outcome (r : Registry M) (caller : ThreadIndexData) (isOffset : Bool) (now : UInt64) :
    Registry M × Except ThreadInfoError (Option ThreadInfo) → Prop where
  | known (honce : caller.internalValue ∈ r.once) :
      Outcome r caller isOffset now
        ({ r with info := some r.infoData }, valueAt r.infoData caller.internalValue)
  | notStored {e : ThreadInfoError} (hnew : caller.internalValue ∉ r.once) :
      Outcome r caller isOffset now (r.roomFor caller, .error e)
  | notIndexed {stored : StableVector (Option ThreadInfo) M.count} {r₃ : Registry M}
      {e : ThreadInfoError} (hnew : caller.internalValue ∉ r.once)
      (hassign : assignAt (r.roomFor caller).infoData caller.internalValue
        { ThreadInfo.default with isOffset := isOffset } = .ok stored)
      (hindex : ({ r.roomFor caller with info := some stored } : Registry M).initIndexData caller
        caller.internalValue = (r₃, .error e)) :
      Outcome r caller isOffset now (r₃, .error e)
  | notFinished {stored : StableVector (Option ThreadInfo) M.count} {r₃ : Registry M}
      {data : ThreadIndexData} {e : ThreadInfoError} (hnew : caller.internalValue ∉ r.once)
      (hassign : assignAt (r.roomFor caller).infoData caller.internalValue
        { ThreadInfo.default with isOffset := isOffset } = .ok stored)
      (hindex : ({ r.roomFor caller with info := some stored } : Registry M).initIndexData caller
        caller.internalValue = (r₃, .ok data)) :
      Outcome r caller isOffset now (r₃, .error e)
  | registered {stored final : StableVector (Option ThreadInfo) M.count} {r₃ : Registry M}
      {data : ThreadIndexData} (hnew : caller.internalValue ∉ r.once)
      (hassign : assignAt (r.roomFor caller).infoData caller.internalValue
        { ThreadInfo.default with isOffset := isOffset } = .ok stored)
      (hindex : ({ r.roomFor caller with info := some stored } : Registry M).initIndexData caller
        caller.internalValue = (r₃, .ok data))
      (hfinal : assignAt r₃.infoData caller.internalValue ⟨isOffset, some data, (now, 0)⟩ =
        .ok final) :
      Outcome r caller isOffset now
        ({ r₃ with info := some final }, valueAt final caller.internalValue)

theorem outcome_init (r : Registry M) (caller : ThreadIndexData) (isOffset : Bool) (now : UInt64) :
    Outcome r caller isOffset now (r.init caller isOffset now) := by
  unfold Registry.init
  dsimp only
  split
  · rename_i honce
    exact .known honce
  · rename_i hnew
    generalize hroom : Registry.growData _ _ = room
    have hroom : r.roomFor caller = room := hroom
    subst hroom
    cases hassign : assignAt (r.roomFor caller).infoData caller.internalValue
        { ThreadInfo.default with isOffset := isOffset } with
    | error e => exact .notStored hnew
    | ok stored =>
      dsimp only
      cases hindex : ({ r.roomFor caller with info := some stored } : Registry M).initIndexData
          caller caller.internalValue with
      | mk r₃ result =>
        cases result with
        | error e => exact .notIndexed hnew hassign hindex
        | ok data =>
          dsimp only
          cases hfinal : assignAt r₃.infoData caller.internalValue
              ⟨isOffset, some data, (now, 0)⟩ with
          | error e => exact .notFinished hnew hassign hindex
          | ok final => exact .registered hnew hassign hindex hfinal

theorem growData_once (r : Registry M) (tid : Int64) : (r.growData tid).once = r.once := by
  unfold Registry.growData
  split <;> rfl

theorem mem_once_roomFor : caller.internalValue ∈ (r.roomFor caller).once := by
  rw [roomFor, growData_once]
  exact List.mem_cons_self

theorem Indexed.roomFor (h : r.Indexed) (caller : ThreadIndexData) :
    (r.roomFor caller).Indexed := by
  have hkept : ({ r with info := some r.infoData } : Registry M).Indexed :=
    ⟨h.peak, h.peak_lt, h.info, h.index⟩
  exact (hkept.remember caller.internalValue).growData caller.internalValue

/-- An entry without index data may stand in any slot. -/
theorem Indexed.store (h : r.Indexed) {stored : StableVector (Option ThreadInfo) M.count}
    (hassign : assignAt r.infoData tid { ThreadInfo.default with isOffset := isOffset } =
      .ok stored) : ({ r with info := some stored } : Registry M).Indexed :=
  ⟨h.peak, h.peak_lt, h.info.assignAt hassign (fun data hdata => by cases hdata), h.index⟩

theorem Indexed.init (h : r.Indexed) (caller : ThreadIndexData) (isOffset : Bool)
    (now : UInt64) : (r.init caller isOffset now).1.Indexed := by
  have hroom := h.roomFor caller
  generalize hresult : r.init caller isOffset now = result
  have houtcome := hresult ▸ outcome_init r caller isOffset now
  cases houtcome with
  | known honce => exact ⟨h.peak, h.peak_lt, h.info, h.index⟩
  | notStored hnew => exact hroom
  | notIndexed hnew hassign hindex =>
    have hindexed := ((hroom.store hassign).initIndexData mem_once_roomFor).1
    rwa [hindex] at hindexed
  | notFinished hnew hassign hindex =>
    have hindexed := ((hroom.store hassign).initIndexData mem_once_roomFor).1
    rwa [hindex] at hindexed
  | registered hnew hassign hindex hfinal =>
    obtain ⟨hindexed, hinternal⟩ := (hroom.store hassign).initIndexData mem_once_roomFor
    rw [hindex] at hindexed hinternal
    refine ⟨hindexed.peak, hindexed.peak_lt,
      hindexed.info.assignAt hfinal fun data' hdata' => ?_, hindexed.index⟩
    cases hdata'
    rw [hinternal _ rfl]

theorem indexData_growData_once (r : Registry M) (once : List Int64) (tid : Int64) :
    ({ r with once := once }.growData tid).indexData = (r.growData tid).indexData := by
  unfold Registry.growData
  split <;> rfl

theorem initIndexData_of_free {data : ThreadIndexData}
    (hfree : ∀ itr, valueAt r.indexData tid ≠ .ok (some itr))
    (hresult : (r.initIndexData caller tid).2 = .ok data) : data = caller := by
  have hused : ({ r with index := some r.indexData } : Registry M).indexData = r.indexData := rfl
  unfold Registry.initIndexData at hresult
  simp only [hused] at hresult
  cases hvalue : valueAt r.indexData tid with
  | error e =>
    rw [hvalue] at hresult
    cases hresult
  | ok value =>
    cases value with
    | some itr => exact absurd hvalue (hfree itr)
    | none =>
      rw [hvalue] at hresult
      dsimp only at hresult
      split at hresult
      · cases hresult
      · split at hresult
        · cases hresult
        · cases hresult
          rfl

/-- No thread that was here before has the index slot of a new one. -/
theorem Indexed.free_roomFor (h : r.Indexed) (hnew : caller.internalValue ∉ r.once)
    (itr : ThreadIndexData) :
    valueAt (r.roomFor caller).indexData caller.internalValue ≠ .ok (some itr) := by
  have hkept : ({ r with info := some r.infoData } : Registry M).Indexed :=
    ⟨h.peak, h.peak_lt, h.info, h.index⟩
  have hbefore := (hkept.growData caller.internalValue).index
  rw [growData_once, ← indexData_growData_once _ (caller.internalValue :: r.once)] at hbefore
  intro hvalue
  have hslot := valueAt_eq_ok hvalue
  rw [Registry.roomFor, slots_eq hbefore.packed] at hslot
  obtain ⟨hsame, hmem⟩ := hbefore.values _ _ hslot
  exact hnew (slotOf_injective hsame ▸ hmem)

/-- A registration stores the identifiers of the thread in its slot. -/
theorem Indexed.registered (h : r.Indexed) (hnew : caller.internalValue ∉ r.once)
    {info : Option ThreadInfo} (hinit : (r.init caller isOffset now).2 = .ok info) :
    info = some ⟨isOffset, some caller, (now, 0)⟩ ∧
      info ∈ slots (r.init caller isOffset now).1.infoData := by
  generalize hresult : r.init caller isOffset now = result at hinit ⊢
  have houtcome := hresult ▸ outcome_init r caller isOffset now
  cases houtcome with
  | known honce => exact absurd honce hnew
  | notStored hnew => cases hinit
  | notIndexed hnew hassign hindex => cases hinit
  | notFinished hnew hassign hindex => cases hinit
  | @registered stored final r₃ data hnew hassign hindex hfinal =>
    have hdata : data = caller := by
      refine initIndexData_of_free ?_ (congrArg Prod.snd hindex)
      exact fun itr => h.free_roomFor hnew itr
    obtain ⟨hindexed, -⟩ := ((h.roomFor caller).store hassign).initIndexData mem_once_roomFor
    rw [hindex] at hindexed
    obtain ⟨hlt, hpacked, hlist⟩ := toList_assignAt hindexed.info.packed hfinal
    have hslot := valueAt_eq_ok hinit
    rw [slots_eq hpacked, hlist, List.getElem?_set_self hlt] at hslot
    cases hslot
    rw [hdata]
    refine ⟨rfl, ?_⟩
    show some _ ∈ slots final
    rw [slots_eq hpacked, hlist, hdata]
    exact List.mem_set hlt _

theorem Indexed.step (h : r.Indexed) (event : Event) : (r.step event).Indexed := by
  cases event with
  | init caller isOffset now => exact h.init caller isOffset now
  | grow tid => exact h.growData tid
  | get => exact ⟨h.peak, h.peak_lt, h.info, h.index⟩

theorem indexed_run (events : List Event) : (run events : Registry M).Indexed := by
  unfold run
  have hfold : ∀ r : Registry M, r.Indexed → (events.foldl Registry.step r).Indexed := by
    induction events with
    | nil => exact fun r h => h
    | cons event events ih => exact fun r h => ih _ (h.step event)
  exact hfold initial indexed_initial

end Registry
end ThreadData
end Rocprofsys
