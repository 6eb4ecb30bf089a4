import Mathlib.Algebra.Order.Ring.Nat
import Mathlib.Data.List.Nodup
import Mathlib.Data.List.Range
import Mathlib.Logic.Function.Basic
import Rocprofsys.Base.Run

namespace Rocprofsys
namespace Core

open Base

/-! ## Correlation ids of the CPU -/

/-- `cpu_cid_pair_t`: the id of the parent and the depth. -/
abbrev CpuCidPair := UInt64 × UInt32

/-- A pointer of a thread is `none` until it is constructed. A stack has its newest id first. -/
structure CpuCids where
  cpuCid : UInt64 := 0
  stack : ℕ → Option (List UInt64) := fun _ => none
  initialized : ℕ → Option Bool := fun _ => none
  parents : ℕ → Option (List (UInt64 × CpuCidPair)) := fun _ => none

/-- `construct_on_thread`: a value that is there stays. -/
def constructOnThread {α : Type} (instances : ℕ → Option α) (index : ℕ) (value : α) :
    ℕ → Option α :=
  Function.update instances index (some ((instances index).getD value))

theorem constructOnThread_self {α : Type} (instances : ℕ → Option α) (index : ℕ) (value : α) :
    constructOnThread instances index value index = some ((instances index).getD value) :=
  Function.update_self ..

theorem constructOnThread_of_ne {α : Type} (instances : ℕ → Option α) {index tid : ℕ}
    (h : tid ≠ index) (value : α) :
    constructOnThread instances index value tid = instances tid :=
  Function.update_of_ne h ..

/-- Construction makes nothing of what is missing but the default. -/
theorem getD_constructOnThread {α : Type} (instances : ℕ → Option α) (index tid : ℕ) (value : α) :
    (constructOnThread instances index value tid).getD value = (instances tid).getD value := by
  by_cases h : tid = index
  · rw [h, constructOnThread_self, Option.getD_some]
  · rw [constructOnThread_of_ne instances h]

namespace CpuCids

/-- Both instances of a thread. -/
def construct (s : CpuCids) (tid : ℕ) : CpuCids :=
  { s with
    stack := constructOnThread s.stack tid []
    initialized := constructOnThread s.initialized tid false }

/-- The first use of a stack copies that of the parent; `none` is a missing stack that is
dereferenced. -/
def inherit (s : CpuCids) (tid parent : ℕ) : Option CpuCids :=
  let s := { s with
    initialized := Function.update s.initialized tid (some true)
    stack := constructOnThread s.stack parent [] }
  let parentTid := if tid ≠ parent ∧ s.stack parent = none then 0 else parent
  if tid ≠ parentTid then
    (s.stack parent).map fun ids => { s with stack := Function.update s.stack tid (some ids) }
  else some s

/-- `get_cpu_cid_stack`, with what the pointer it returns points to. -/
def getCpuCidStack (s : CpuCids) (tid parent : ℕ) : Option (List UInt64 × CpuCids) :=
  let s := s.construct tid
  (if s.initialized tid = some false then s.inherit tid parent else some s).bind fun s =>
    (s.stack tid).map fun ids => (ids, s)

def setStack (s : CpuCids) (tid : ℕ) (ids : List UInt64) : CpuCids :=
  { s with stack := Function.update s.stack tid (some ids) }

/-- `cpu_cid_data_t`. -/
structure Entry where
  cid : UInt64
  parentCid : UInt64
  depth : UInt32
  deriving DecidableEq, Repr

/-- `emplace` into the map of `get_cpu_cid_parents`. -/
def emplaceParent (s : CpuCids) (tid : ℕ) (cid : UInt64) (pair : CpuCidPair) : CpuCids :=
  let parents := constructOnThread s.parents tid []
  { s with
    parents := Function.update parents tid ((parents tid).map fun map =>
      if (map.lookup cid).isSome then map else (cid, pair) :: map) }

def createCpuCidEntry (s : CpuCids) (tid : ℕ) : Option (Entry × CpuCids) :=
  (s.getCpuCidStack tid 0).bind fun (own, s) =>
    let pIdx := if own.isEmpty then 0 else tid
    (s.getCpuCidStack pIdx 0).map fun (cidStack, s) =>
      let cid := s.cpuCid
      let parentCid := cidStack.headD 0
      let depth := (UInt64.ofNat cidStack.length - (if pIdx = tid then 1 else 0)).toUInt32
      (⟨cid, parentCid, depth⟩,
        { s with cpuCid := s.cpuCid + 1 }.emplaceParent tid cid (parentCid, depth))

/-- `none` is the exception of a map without the id. -/
def getCpuCidEntry (s : CpuCids) (cid : UInt64) (tid : ℕ) : Option CpuCidPair :=
  (constructOnThread s.parents tid [] tid).bind fun map => map.lookup cid

/-- A new entry is found under its id. -/
theorem getCpuCidEntry_emplaceParent {s : CpuCids} {tid : ℕ} {cid : UInt64} (pair : CpuCidPair)
    (hnew : s.getCpuCidEntry cid tid = none) :
    (s.emplaceParent tid cid pair).getCpuCidEntry cid tid = some pair := by
  have hparents := constructOnThread_self s.parents tid []
  rw [getCpuCidEntry, hparents, Option.bind_some] at hnew
  rw [getCpuCidEntry, constructOnThread_self, Option.bind_some, emplaceParent]
  simp only [Function.update_self, hparents, Option.map_some, Option.getD_some, hnew,
    Option.isSome_none, Bool.false_eq_true, if_false, List.lookup_cons_self]

/-! ## Histories -/

inductive Call where
  /-- A new thread, at its start. -/
  | create (tid parent : ℕ)
  | push (tid : ℕ) (cid : UInt64)
  | pop (tid : ℕ)
  | entry (tid : ℕ)
  deriving DecidableEq, Repr

/-- The stacks, and the ids that are handed out, in their order. -/
structure History where
  cids : CpuCids := {}
  issued : List UInt64 := []

def History.call (h : History) : Call → History
  | .create tid parent =>
    match h.cids.getCpuCidStack tid parent with
    | none => h
    | some (_, s) => { h with cids := s }
  | .push tid cid =>
    match h.cids.getCpuCidStack tid 0 with
    | none => h
    | some (ids, s) => { h with cids := s.setStack tid (cid :: ids) }
  | .pop tid =>
    match h.cids.getCpuCidStack tid 0 with
    | none => h
    | some (ids, s) => { h with cids := s.setStack tid ids.tail }
  | .entry tid =>
    match h.cids.createCpuCidEntry tid with
    | none => h
    | some (e, s) => ⟨s, h.issued ++ [e.cid]⟩

/-- The ids that are open on a thread; one that has not used its stack yet has those of its
parent. -/
def openIds (s : CpuCids) (tid parent : ℕ) : List UInt64 :=
  if s.initialized tid = some true then (s.stack tid).getD [] else (s.stack parent).getD []

/-- The ids above which an entry is: those of the thread, or else those of thread 0. -/
def chain (s : CpuCids) (tid : ℕ) : List UInt64 :=
  if s.openIds tid 0 = [] then s.openIds 0 0 else s.openIds tid 0

/-- No call dereferences a missing stack; an entry has the innermost open id as its parent, and
as its depth the number of ids below that. -/
def Right (h : History) : Call → Prop
  | .create tid parent => (h.cids.getCpuCidStack tid parent).isSome
  | .push tid _ => (h.cids.getCpuCidStack tid 0).isSome
  | .pop tid => (h.cids.getCpuCidStack tid 0).isSome
  | .entry tid => ∃ e s, h.cids.createCpuCidEntry tid = some (e, s) ∧
      e.parentCid = (h.cids.chain tid).headD 0 ∧ e.depth.toNat = (h.cids.chain tid).length - 1

/-- All along a history, the ids are distinct and the calls right. -/
def Correlates (calls : List Call) : Prop :=
  Throughout History.call (fun h => h.issued.Nodup) Right {} calls

/-- There is an id left. The thread has ids open, of which 32 bits can count those below the
innermost; or else it is not thread 0, and thread 0 has none either. -/
def Countable (h : History) : Call → Prop
  | .entry tid => h.issued.length < 2 ^ 64 ∧
      ((h.cids.openIds tid 0 ≠ [] ∧ (h.cids.openIds tid 0).length ≤ 2 ^ 32) ∨
        (h.cids.openIds tid 0 = [] ∧ tid ≠ 0 ∧ h.cids.openIds 0 0 = []))
  | _ => True

/-! ### The stack of a thread -/

/-- What `get_cpu_cid_stack` leaves behind: the stack of the thread is there with its open ids,
and the other threads have theirs. -/
structure Opens (s : CpuCids) (tid : ℕ) (ids : List UInt64) (s' : CpuCids) : Prop where
  cpuCid : s'.cpuCid = s.cpuCid
  initialized : s'.initialized tid = some true
  stack : s'.stack tid = some ids
  others : ∀ t, t ≠ tid → s'.initialized t = s.initialized t ∧
    (s'.stack t).getD [] = (s.stack t).getD []

/-- The stack of the parent is never missing where it is copied. -/
theorem inherit_construct (s : CpuCids) (tid parent : ℕ) :
    ∃ s', (s.construct tid).inherit tid parent = some s' ∧
      Opens s tid ((s.stack parent).getD []) s' := by
  have hparent : constructOnThread (s.construct tid).stack parent [] parent =
      some ((s.stack parent).getD []) := by
    rw [constructOnThread_self]
    exact congrArg some (getD_constructOnThread ..)
  have hothers (t : ℕ) : (constructOnThread (s.construct tid).stack parent [] t).getD [] =
      (s.stack t).getD [] :=
    (getD_constructOnThread ..).trans (getD_constructOnThread ..)
  have hinitialized (t : ℕ) (ht : t ≠ tid) :
      Function.update (s.construct tid).initialized tid (some true) t = s.initialized t :=
    (Function.update_of_ne ht ..).trans (constructOnThread_of_ne s.initialized ht false)
  unfold inherit
  simp only [hparent, reduceCtorEq, and_false, if_false]
  by_cases h : tid = parent
  · subst h
    rw [if_neg (not_not_intro rfl)]
    exact ⟨_, rfl, rfl, Function.update_self .., hparent,
      fun t ht => ⟨hinitialized t ht, hothers t⟩⟩
  · rw [if_pos h]
    refine ⟨_, rfl, rfl, Function.update_self .., Function.update_self ..,
      fun t ht => ⟨hinitialized t ht, ?_⟩⟩
    rw [← hothers t]
    exact congrArg (Option.getD · []) (Function.update_of_ne ht ..)

theorem exists_getCpuCidStack (s : CpuCids) (tid parent : ℕ) :
    ∃ s', s.getCpuCidStack tid parent = some (s.openIds tid parent, s') ∧
      Opens s tid (s.openIds tid parent) s' := by
  have hflag : (s.construct tid).initialized tid = some ((s.initialized tid).getD false) :=
    constructOnThread_self ..
  unfold getCpuCidStack openIds
  by_cases h : s.initialized tid = some true
  · have hstack : (s.construct tid).stack tid = some ((s.stack tid).getD []) :=
      constructOnThread_self ..
    rw [h, Option.getD_some] at hflag
    simp only [hflag, if_pos h, Option.some_inj, Bool.true_eq_false, if_false, Option.bind_some,
      hstack, Option.map_some]
    refine ⟨_, rfl, rfl, hflag, hstack, fun t ht => ⟨?_, getD_constructOnThread ..⟩⟩
    exact constructOnThread_of_ne s.initialized ht false
  · have hfalse : (s.initialized tid).getD false = false := by
      cases hopt : s.initialized tid with
      | none => rfl
      | some b =>
        cases b with
        | false => rfl
        | true => exact absurd hopt h
    obtain ⟨s', hinherit, hopens⟩ := inherit_construct s tid parent
    rw [hfalse] at hflag
    simp only [hflag, if_neg h, if_true, hinherit, Option.bind_some, hopens.stack,
      Option.map_some]
    exact ⟨s', rfl, hopens⟩

theorem Opens.openIds_self {s s' : CpuCids} {tid : ℕ} {ids : List UInt64}
    (h : Opens s tid ids s') (parent : ℕ) : s'.openIds tid parent = ids := by
  rw [openIds, if_pos h.initialized, h.stack, Option.getD_some]

theorem Opens.openIds_zero {s s' : CpuCids} {tid : ℕ} (h : Opens s tid (s.openIds tid 0) s') :
    s'.openIds 0 0 = s.openIds 0 0 := by
  by_cases heq : tid = 0
  · subst heq
    exact h.openIds_self 0
  · obtain ⟨hinitialized, hstack⟩ := h.others 0 (Ne.symm heq)
    rw [openIds, openIds, hinitialized, hstack]

/-! ### An entry -/

def depthOf (chain : List UInt64) (own : Prop) [Decidable own] : UInt32 :=
  (UInt64.ofNat chain.length - (if own then 1 else 0)).toUInt32

/-- An entry takes the next id and is on top of the chain. -/
theorem createCpuCidEntry_spec (s : CpuCids) (tid : ℕ) :
    ∃ s', s.createCpuCidEntry tid =
        some (⟨s.cpuCid, (s.chain tid).headD 0,
          depthOf (s.chain tid) (s.openIds tid 0 ≠ [] ∨ tid = 0)⟩, s') ∧
      s'.cpuCid = s.cpuCid + 1 := by
  obtain ⟨s₁, hget, hopens⟩ := exists_getCpuCidStack s tid 0
  unfold createCpuCidEntry chain depthOf
  by_cases hown : s.openIds tid 0 = []
  · obtain ⟨s₂, hget₂, hopens₂⟩ := exists_getCpuCidStack s₁ 0 0
    have hid : s₂.cpuCid = s.cpuCid := hopens₂.cpuCid.trans hopens.cpuCid
    simp only [hown] at hget
    simp only [hget, Option.bind_some, List.isEmpty_nil, if_true, hget₂, Option.map_some,
      hopens.openIds_zero, hid, hown, ne_eq, not_true_eq_false, false_or, eq_comm (b := tid)]
    exact ⟨_, rfl, rfl⟩
  · obtain ⟨s₂, hget₂, hopens₂⟩ := exists_getCpuCidStack s₁ tid 0
    have hid : s₂.cpuCid = s.cpuCid := hopens₂.cpuCid.trans hopens.cpuCid
    have hnonempty : (s.openIds tid 0).isEmpty = false := by
      rw [← Bool.not_eq_true, List.isEmpty_iff]
      exact hown
    simp only [hget, Option.bind_some, hnonempty, Bool.false_eq_true, if_false, hget₂,
      Option.map_some, hopens.openIds_self, hid, hown, ne_eq, not_false_eq_true, true_or, if_true]
    exact ⟨_, rfl, rfl⟩

theorem toNat_depthOf_of_own {ids : List UInt64} {own : Prop} [Decidable own] (h : own) :
    (depthOf ids own).toNat = ids.length - 1 ↔ ids ≠ [] ∧ ids.length ≤ 2 ^ 32 := by
  rw [depthOf, if_pos h, UInt64.toNat_toUInt32, UInt64.toNat_sub, UInt64.toNat_ofNat',
    ← List.length_pos_iff]
  show (2 ^ 64 - 1 + ids.length % 2 ^ 64) % 2 ^ 64 % 2 ^ 32 = ids.length - 1 ↔ _
  omega

theorem toNat_depthOf_of_not {ids : List UInt64} {own : Prop} [Decidable own] (h : ¬ own) :
    (depthOf ids own).toNat = ids.length - 1 ↔ ids = [] := by
  rw [depthOf, if_neg h, UInt64.toNat_toUInt32, UInt64.toNat_sub, UInt64.toNat_ofNat',
    ← List.length_eq_zero_iff]
  show (2 ^ 64 - 0 + ids.length % 2 ^ 64) % 2 ^ 64 % 2 ^ 32 = ids.length - 1 ↔ _
  omega

/-- The depth of an entry is right where 32 bits can count it. -/
theorem right_entry_iff {h : History} {tid : ℕ} (hleft : h.issued.length < 2 ^ 64) :
    Right h (.entry tid) ↔ Countable h (.entry tid) := by
  obtain ⟨s', hentry, -⟩ := createCpuCidEntry_spec h.cids tid
  have hright : Right h (.entry tid) ↔
      (depthOf (h.cids.chain tid) (h.cids.openIds tid 0 ≠ [] ∨ tid = 0)).toNat =
        (h.cids.chain tid).length - 1 := by
    constructor
    · intro ⟨e, s, he, _, hdepth⟩
      rw [hentry] at he
      cases he
      exact hdepth
    · exact fun hdepth => ⟨_, s', hentry, rfl, hdepth⟩
  rw [hright, Countable, and_iff_right hleft]
  by_cases hown : h.cids.openIds tid 0 = []
  · rw [chain, if_pos hown]
    by_cases hzero : tid = 0
    · subst hzero
      rw [toNat_depthOf_of_own (Or.inr rfl)]
      simp [hown]
    · rw [toNat_depthOf_of_not (by simp [hown, hzero])]
      simp [hown, hzero]
  · rw [chain, if_neg hown, toNat_depthOf_of_own (Or.inl hown)]
    simp [hown]

/-! ### The ids -/

/-- The ids are handed out one after the other, each once. -/
structure Issues (h : History) : Prop where
  next : h.cids.cpuCid = UInt64.ofNat h.issued.length
  issued : h.issued = (List.range h.issued.length).map UInt64.ofNat
  bound : h.issued.length ≤ 2 ^ 64

theorem nodup_map_ofNat_iff (n : ℕ) : ((List.range n).map UInt64.ofNat).Nodup ↔ n ≤ 2 ^ 64 := by
  constructor
  · intro h
    apply Nat.le_of_not_lt
    intro hlt
    have heq := List.inj_on_of_nodup_map h (List.mem_range.mpr (Nat.pos_of_ne_zero (by omega)))
      (List.mem_range.mpr hlt) (by decide)
    omega
  · intro h
    refine List.Nodup.map_on (fun a ha b hb heq => ?_) List.nodup_range
    rw [List.mem_range] at ha hb
    have hmod := congrArg UInt64.toNat heq
    rw [UInt64.toNat_ofNat', UInt64.toNat_ofNat'] at hmod
    omega

theorem Issues.nodup {h : History} (hissues : Issues h) : h.issued.Nodup := by
  rw [hissues.issued]
  exact (nodup_map_ofNat_iff _).mpr hissues.bound

/-- The list goes on with the next id. -/
theorem Issues.append {h : History} (hissues : Issues h) :
    h.issued ++ [h.cids.cpuCid] = (List.range (h.issued.length + 1)).map UInt64.ofNat := by
  rw [List.range_succ, List.map_append, ← hissues.issued, hissues.next]
  rfl

theorem call_entry (h : History) (tid : ℕ) :
    (h.call (.entry tid)).issued = h.issued ++ [h.cids.cpuCid] ∧
      (h.call (.entry tid)).cids.cpuCid = h.cids.cpuCid + 1 := by
  obtain ⟨s', hentry, hnext⟩ := createCpuCidEntry_spec h.cids tid
  rw [History.call, hentry]
  exact ⟨rfl, hnext⟩

/-- The other calls find the stack they ask for, and hand out nothing. -/
theorem call_other {h : History} {c : Call} (hother : ∀ tid, c ≠ .entry tid) :
    Right h c ∧ (h.call c).issued = h.issued ∧ (h.call c).cids.cpuCid = h.cids.cpuCid := by
  cases c with
  | create tid parent =>
    obtain ⟨s', hget, hopens⟩ := exists_getCpuCidStack h.cids tid parent
    rw [Right, History.call, hget]
    exact ⟨rfl, rfl, hopens.cpuCid⟩
  | push tid cid =>
    obtain ⟨s', hget, hopens⟩ := exists_getCpuCidStack h.cids tid 0
    rw [Right, History.call, hget]
    exact ⟨rfl, rfl, hopens.cpuCid⟩
  | pop tid =>
    obtain ⟨s', hget, hopens⟩ := exists_getCpuCidStack h.cids tid 0
    rw [Right, History.call, hget]
    exact ⟨rfl, rfl, hopens.cpuCid⟩
  | entry tid => exact absurd rfl (hother tid)

theorem issues_call_other {h : History} {c : Call} (hother : ∀ tid, c ≠ .entry tid)
    (hissues : Issues h) : Issues (h.call c) := by
  obtain ⟨-, hissued, hnext⟩ := call_other (h := h) hother
  constructor
  · rw [hnext, hissued]
    exact hissues.next
  · rw [hissued]
    exact hissues.issued
  · rw [hissued]
    exact hissues.bound

theorem issues_call (h : History) (c : Call) (hissues : Issues h) (hcount : Countable h c) :
    Issues (h.call c) := by
  cases c with
  | entry tid =>
    obtain ⟨hissued, hnext⟩ := call_entry h tid
    have hlength : (h.call (.entry tid)).issued.length = h.issued.length + 1 := by
      rw [hissued, List.length_append, List.length_singleton]
    constructor
    · rw [hnext, hissues.next, hlength, UInt64.ofNat_add]
      rfl
    · rw [hlength, hissued, hissues.append]
    · have hleft : h.issued.length < 2 ^ 64 := hcount.1
      omega
  | create tid parent => exact issues_call_other (fun _ => nofun) hissues
  | push tid cid => exact issues_call_other (fun _ => nofun) hissues
  | pop tid => exact issues_call_other (fun _ => nofun) hissues

theorem right_other {h : History} {c : Call} (hother : ∀ tid, c ≠ .entry tid)
    (hissues : Issues h) : (h.call c).issued.Nodup ∧ Right h c := by
  obtain ⟨hright, hissued, -⟩ := call_other (h := h) hother
  rw [hissued]
  exact ⟨hissues.nodup, hright⟩

theorem right_iff_countable (h : History) (c : Call) (hissues : Issues h) :
    (h.call c).issued.Nodup ∧ Right h c ↔ Countable h c := by
  cases c with
  | entry tid =>
    have hnodup : (h.call (.entry tid)).issued.Nodup ↔ h.issued.length < 2 ^ 64 := by
      rw [(call_entry h tid).1, hissues.append, nodup_map_ofNat_iff]
      omega
    rw [hnodup]
    constructor
    · intro ⟨hleft, hright⟩
      exact (right_entry_iff hleft).mp hright
    · intro hcount
      exact ⟨hcount.1, (right_entry_iff hcount.1).mpr hcount⟩
  | create tid parent => exact iff_of_true (right_other (fun _ => nofun) hissues) trivial
  | push tid cid => exact iff_of_true (right_other (fun _ => nofun) hissues) trivial
  | pop tid => exact iff_of_true (right_other (fun _ => nofun) hissues) trivial

/-- The ids, the parents and the depths are right all along a history exactly as long as an
entry without an open id is neither made on thread 0 nor while that has ids open, and the numbers
are in range. -/
theorem correlates_iff (calls : List Call) :
    Correlates calls ↔ AtSteps History.call Countable {} calls :=
  throughout_iff_atSteps_of_inv (fun _ => Issues.nodup) issues_call right_iff_countable
    ⟨rfl, rfl, Nat.zero_le _⟩

/-- The first entry of thread 0 has depth 4294967295. -/
theorem not_correlates_first : ¬ Correlates [.entry 0] := by
  intro h
  obtain ⟨e, s, hentry, -, hdepth⟩ := h.steps [] (.entry 0) (List.prefix_refl _)
  have hcreated : (({} : CpuCids).createCpuCidEntry 0).map Prod.fst = some ⟨0, 0, 4294967295⟩ := by
    decide +kernel
  have hcreate : ({} : CpuCids).createCpuCidEntry 0 = some (e, s) := hentry
  rw [hcreate, Option.map_some, Option.some_inj] at hcreated
  subst hcreated
  revert hdepth
  decide +kernel

end CpuCids

end Core
end Rocprofsys
