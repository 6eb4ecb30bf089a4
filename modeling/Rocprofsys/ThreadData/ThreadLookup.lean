import Rocprofsys.ThreadData.ThreadRegistry

namespace Rocprofsys
namespace ThreadData

open Container

/-! ## Lookups by kind -/

/-- The kinds of identifiers that a thread can be looked up by. -/
inductive IdKind where
  | native
  | internal
  | system
  | sequent
  | stl
  deriving DecidableEq

inductive ThreadId where
  | native (handle : UInt64)
  | internal (tid : Int64)
  | system (tid : Int64)
  | sequent (tid : Int64)
  | stl (tid : UInt64)
  deriving DecidableEq

def ThreadId.kind : ThreadId → IdKind
  | native _ => .native
  | internal _ => .internal
  | system _ => .system
  | sequent _ => .sequent
  | stl _ => .stl

def ThreadIndexData.id (data : ThreadIndexData) : IdKind → ThreadId
  | .native => .native data.pthreadValue
  | .internal => .internal data.internalValue
  | .system => .system data.systemValue
  | .sequent => .sequent data.sequentValue
  | .stl => .stl data.stlValue

namespace Registry

variable {M : MaxThreads} {r : Registry M} {test : ThreadIndexData → Bool} {info : ThreadInfo}
  {data : ThreadIndexData} {kind : IdKind} {tid : Int64}

/-- The overload of `thread_info::get` for the kind of the identifier. -/
def get (r : Registry M) : ThreadId → Except ThreadInfoError (Option ThreadInfo)
  | .native handle => .ok (r.getNative handle)
  | .internal tid => r.getTyped tid .internalTID
  | .system tid => r.getTyped tid .systemTID
  | .sequent tid => r.getTyped tid .sequentTID
  | .stl tid => .ok (r.getStl tid)

/-- The entries in the slots that are not empty. -/
def threads (r : Registry M) : List ThreadInfo := (slots r.infoData).filterMap id

/-- A lookup by this kind returns an entry with the identifier asked for, one if there is
any, and for the identifier of a registered thread the thread itself. -/
structure LooksUp (r : Registry M) (kind : IdKind) : Prop where
  sound : ∀ id info, id.kind = kind → r.get id = .ok (some info) →
    ∃ data, info.indexData = some data ∧ data.id kind = id
  complete : ∀ info ∈ r.threads, ∀ data, info.indexData = some data →
    ∃ found, r.get (data.id kind) = .ok (some found)
  self : ∀ info ∈ r.threads, ∀ data, info.indexData = some data →
    r.get (data.id kind) = .ok (some info)

/-- No two registered threads share the identifier. -/
def Distinct (r : Registry M) (kind : IdKind) : Prop :=
  ∀ a ∈ r.threads, ∀ b ∈ r.threads, ∀ d e, a.indexData = some d → b.indexData = some e →
    d.id kind = e.id kind → a = b

/-- When a kind of lookup works.  A registration that breaks off leaves an entry without
index data. -/
def IdsTell (r : Registry M) : IdKind → Prop
  | .native => ∀ info ∈ r.threads, info.indexData = none
  | .internal => ∀ info ∈ r.threads, info.indexData ≠ none
  | .system => r.Distinct .system
  | .sequent => r.Distinct .sequent
  | .stl => r.Distinct .stl

theorem mem_threads_iff : info ∈ r.threads ↔ some info ∈ slots r.infoData := by
  unfold threads
  rw [List.mem_filterMap]
  constructor
  · intro h
    obtain ⟨slot, hslot, rfl⟩ := h
    exact hslot
  · intro hslot
    exact ⟨some info, hslot, rfl⟩

/-! ## The loops -/

theorem firstWith_eq_some (h : r.firstWith test = some info) :
    info ∈ r.threads ∧ ∃ data, info.indexData = some data ∧ test data = true := by
  unfold firstWith at h
  obtain ⟨slot, hfind, rfl⟩ : ∃ slot, (slots r.infoData).find? (fun itr =>
      itr.any fun info => info.indexData.any test) = some slot ∧ slot = some info := by
    cases hfind : (slots r.infoData).find? fun itr =>
        itr.any fun info => info.indexData.any test with
    | none =>
      rw [hfind] at h
      cases h
    | some slot =>
      rw [hfind] at h
      exact ⟨slot, rfl, h⟩
  refine ⟨mem_threads_iff.mpr (List.mem_of_find?_eq_some hfind), ?_⟩
  have htest := List.find?_some hfind
  rw [Option.any_some] at htest
  cases hdata : info.indexData with
  | none =>
    rw [hdata] at htest
    cases htest
  | some data =>
    rw [hdata] at htest
    exact ⟨data, rfl, htest⟩

theorem exists_firstWith (test : ThreadIndexData → Bool) (hinfo : info ∈ r.threads)
    (hdata : info.indexData = some data) (htest : test data = true) :
    ∃ found, r.firstWith test = some found := by
  unfold firstWith
  cases hfind : (slots r.infoData).find? fun itr =>
      itr.any fun info => info.indexData.any test with
  | none =>
    have hnone := List.find?_eq_none.mp hfind (some info) (mem_threads_iff.mp hinfo)
    simp [hdata, htest] at hnone
  | some slot =>
    have hsome := List.find?_some hfind
    cases slot with
    | none => cases hsome
    | some found => exact ⟨found, rfl⟩

/-- But for the native handles and the slots, a lookup is a loop that tests for equality. -/
theorem get_eq_firstWith {id : ThreadId} (hnative : id.kind ≠ .native)
    (hinternal : id.kind ≠ .internal) :
    r.get id = .ok (r.firstWith fun data => data.id id.kind = id) := by
  cases id with
  | native handle => exact absurd rfl hnative
  | internal tid => exact absurd rfl hinternal
  | system tid =>
    simp only [ThreadId.kind, ThreadIndexData.id, ThreadId.system.injEq, ← beq_eq_decide]
    rfl
  | sequent tid =>
    simp only [ThreadId.kind, ThreadIndexData.id, ThreadId.sequent.injEq, ← beq_eq_decide]
    rfl
  | stl tid =>
    simp only [ThreadId.kind, ThreadIndexData.id, ThreadId.stl.injEq, ← beq_eq_decide]
    rfl

/-- A loop that tests for equality looks up by its kind where the identifiers differ. -/
theorem looksUp_of_firstWith
    (hget : ∀ id, id.kind = kind → r.get id = .ok (r.firstWith fun data => data.id kind = id)) :
    r.LooksUp kind ↔ r.Distinct kind := by
  have hkind : ∀ data : ThreadIndexData, (data.id kind).kind = kind := by
    intro data
    cases kind <;> rfl
  have hsound : ∀ id info, id.kind = kind → r.get id = .ok (some info) →
      info ∈ r.threads ∧ ∃ data, info.indexData = some data ∧ data.id kind = id := by
    intro id info hid hfound
    rw [hget id hid] at hfound
    obtain ⟨hinfo, data, hdata, htest⟩ := firstWith_eq_some (Except.ok.inj hfound)
    exact ⟨hinfo, data, hdata, of_decide_eq_true htest⟩
  have hcomplete : ∀ info ∈ r.threads, ∀ data, info.indexData = some data →
      ∃ found, r.get (data.id kind) = .ok (some found) := by
    intro info hinfo data hdata
    obtain ⟨found, hfound⟩ :=
      exists_firstWith (fun data' => data'.id kind = data.id kind) hinfo hdata (decide_eq_true rfl)
    exact ⟨found, (hget _ (hkind data)).trans (congrArg Except.ok hfound)⟩
  constructor
  · intro h a ha b hb d e hd he hid
    have hself := h.self a ha d hd
    rw [hid, h.self b hb e he] at hself
    exact (Option.some.inj (Except.ok.inj hself)).symm
  · intro hdistinct
    refine ⟨fun id info hid hfound => (hsound id info hid hfound).2, hcomplete, ?_⟩
    intro info hinfo data hdata
    obtain ⟨found, hfound⟩ := hcomplete info hinfo data hdata
    obtain ⟨hmem, data', hdata', hid⟩ := hsound _ found (hkind data) hfound
    rw [hfound, hdistinct found hmem info hinfo data' data hdata' hdata hid]

/-- The loop over the native handles returns the first thread with another one. -/
theorem looksUp_native_iff : r.LooksUp .native ↔ r.IdsTell .native := by
  constructor
  · intro h info hinfo
    by_contra hsome
    obtain ⟨data, hdata⟩ := Option.ne_none_iff_exists'.mp hsome
    have hself := h.self info hinfo data hdata
    obtain ⟨-, data', hdata', htest⟩ := firstWith_eq_some (Except.ok.inj hself)
    rw [hdata] at hdata'
    cases hdata'
    simp [pthreadEqual] at htest
  · intro hnone
    refine ⟨?_, ?_, ?_⟩
    · intro id info hid hfound
      cases id with
      | native handle =>
        obtain ⟨hinfo, data, hdata, -⟩ := firstWith_eq_some (Except.ok.inj hfound)
        rw [hnone info hinfo] at hdata
        cases hdata
      | internal tid => cases hid
      | system tid => cases hid
      | sequent tid => cases hid
      | stl tid => cases hid
    · intro info hinfo data hdata
      rw [hnone info hinfo] at hdata
      cases hdata
    · intro info hinfo data hdata
      rw [hnone info hinfo] at hdata
      cases hdata

theorem valueAt_of_getElem? {slot : Option ThreadInfo}
    (hslot : (slots r.infoData)[slotOf tid]? = some slot) :
    r.get (.internal tid) = .ok slot := by
  show valueAt r.infoData tid = _
  rw [valueAt_eq, hslot]

/-- The slot is the internal id. -/
theorem Indexed.looksUp_internal_iff (h : r.Indexed) :
    r.LooksUp .internal ↔ r.IdsTell .internal := by
  have hslots := slots_eq h.info.packed
  have hself : ∀ info ∈ r.threads, ∀ data, info.indexData = some data →
      r.get (.internal data.internalValue) = .ok (some info) := by
    intro info hinfo data hdata
    obtain ⟨i, hi⟩ := List.mem_iff_getElem?.mp (mem_threads_iff.mp hinfo)
    have hi' := hi
    rw [hslots] at hi'
    have hindex := h.info.values i info hi' data hdata
    exact valueAt_of_getElem? (hindex ▸ hi)
  constructor
  · intro hlooks info hinfo hnone
    obtain ⟨i, hi⟩ := List.mem_iff_getElem?.mp (mem_threads_iff.mp hinfo)
    obtain ⟨hlt, -⟩ := List.getElem?_eq_some_iff.mp hi
    obtain ⟨n, hfull, hn⟩ := h.info.full
    have hpeak := h.peak_lt
    rw [hslots, hfull.length] at hlt
    have hslot : slotOf (UInt64.ofNat i).toInt64 = i := by
      rw [slotOf, UInt64.toUInt64_toInt64, toNat_ofNat_of_lt (by omega)]
    rw [← hslot] at hi
    obtain ⟨data, hdata, -⟩ := hlooks.sound _ info rfl (valueAt_of_getElem? hi)
    rw [hnone] at hdata
    cases hdata
  · intro hsome
    refine ⟨?_, fun info hinfo data hdata => ⟨info, hself info hinfo data hdata⟩, hself⟩
    intro id info hid hfound
    cases id with
    | internal tid =>
      have hi := valueAt_eq_ok hfound
      have hinfo := mem_threads_iff.mpr (List.mem_of_getElem? hi)
      obtain ⟨data, hdata⟩ := Option.ne_none_iff_exists'.mp (hsome info hinfo)
      rw [hslots] at hi
      have hindex := h.info.values _ info hi data hdata
      exact ⟨data, hdata, congrArg ThreadId.internal (slotOf_injective hindex)⟩
    | native handle => cases hid
    | system tid => cases hid
    | sequent tid => cases hid
    | stl tid => cases hid

/-- After any history each kind of lookup works exactly where the identifiers of that kind
tell the registered threads apart, by native handle only while none is registered. -/
theorem looksUp_iff_idsTell (events : List Event) (kind : IdKind) :
    (run events : Registry M).LooksUp kind ↔ (run events : Registry M).IdsTell kind := by
  cases kind with
  | native => exact looksUp_native_iff
  | internal => exact (indexed_run events).looksUp_internal_iff
  | system =>
    refine looksUp_of_firstWith fun id hid => ?_
    rw [get_eq_firstWith (by rw [hid]; decide) (by rw [hid]; decide), hid]
  | sequent =>
    refine looksUp_of_firstWith fun id hid => ?_
    rw [get_eq_firstWith (by rw [hid]; decide) (by rw [hid]; decide), hid]
  | stl =>
    refine looksUp_of_firstWith fun id hid => ?_
    rw [get_eq_firstWith (by rw [hid]; decide) (by rw [hid]; decide), hid]

/-- The main thread alone, with handle 7. -/
def mainOnly : Registry four := run [.init ⟨0, 100, 0, 7, 7⟩ false 5]

theorem not_looksUp_mainOnly : ¬ mainOnly.LooksUp .native := by
  intro h
  have hmem : ⟨false, some ⟨0, 100, 0, 7, 7⟩, (5, 0)⟩ ∈ mainOnly.threads := by decide +kernel
  have hnone : mainOnly.getNative 7 = none := by decide +kernel
  have hself := Except.ok.inj (h.self _ hmem _ rfl)
  rw [hnone] at hself
  cases hself

end Registry
end ThreadData
end Rocprofsys
