import Rocprofsys.CpuFreq.Frequencies
import Rocprofsys.Utility.RangeItems

namespace Rocprofsys
namespace CpuFreq

open Base
open Utility hiding Item

/-! ## The enabled CPUs -/

def emplaceIn (i : UInt64) : List UInt64 → List UInt64
  | [] => [i]
  | j :: js => if i < j then i :: j :: js else if j < i then j :: emplaceIn i js else j :: js

theorem mem_emplaceIn {i j : UInt64} {ids : List UInt64} :
    j ∈ emplaceIn i ids ↔ j = i ∨ j ∈ ids := by
  induction ids with
  | nil => exact List.mem_cons
  | cons k ids ih =>
    rw [emplaceIn]
    split
    · exact List.mem_cons
    · split
      · rw [List.mem_cons, ih, List.mem_cons, or_left_comm]
      · have heq : i = k := by
          rw [← UInt64.toNat_inj]
          rename_i hle hge
          rw [UInt64.lt_iff_toNat_lt] at hle hge
          omega
        rw [heq, List.mem_cons]
        tauto

theorem pairwise_emplaceIn {i : UInt64} {ids : List UInt64} (h : ids.Pairwise (· < ·)) :
    (emplaceIn i ids).Pairwise (· < ·) := by
  induction ids with
  | nil => exact List.pairwise_singleton _ i
  | cons k ids ih =>
    obtain ⟨hk, hids⟩ := List.pairwise_cons.mp h
    rw [emplaceIn]
    split
    · rename_i hlt
      refine List.pairwise_cons.mpr ⟨fun j hj => ?_, h⟩
      rcases List.mem_cons.mp hj with rfl | hj
      · exact hlt
      · exact UInt64.lt_trans hlt (hk j hj)
    · split
      · rename_i hlt
        refine List.pairwise_cons.mpr ⟨fun j hj => ?_, ih hids⟩
        rcases mem_emplaceIn.mp hj with rfl | hj
        · exact hlt
        · exact hk j hj
      · exact h

namespace CpuIdSet

def empty : CpuIdSet := ⟨[], List.Pairwise.nil⟩

/-- `std::set::emplace`. -/
def emplace (enabled : CpuIdSet) (i : UInt64) : CpuIdSet :=
  ⟨emplaceIn i enabled.ids, pairwise_emplaceIn enabled.sorted⟩

theorem mem_emplace {enabled : CpuIdSet} {i j : UInt64} :
    j ∈ (enabled.emplace i).ids ↔ j = i ∨ j ∈ enabled.ids := mem_emplaceIn

end CpuIdSet

/-! ## configure -/

/-- The characters of `,; \t`. -/
def cpuDelimiters : List UInt8 := [44, 59, 32, 9]

/-- The texts `all`, `none`, `on` and `off`. -/
def allText : List UInt8 := [97, 108, 108]
def noneText : List UInt8 := [110, 111, 110, 101]
def onText : List UInt8 := [111, 110]
def offText : List UInt8 := [111, 102, 102]

def invalidCpuRange (v : List UInt8) : Utility.Failure :=
  .runtimeError ("Invalid CPU range specification: ".toUTF8.toList ++ v ++
    ". Required format N-M, e.g. 0-4".toUTF8.toList)

/-- How `configure` ends. -/
inductive Outcome where
  | configured (enabledCpus : CpuIdSet)
  | thrown (failure : Utility.Failure)
  | aborted

/-- The loop over a range. Its counter wraps around, and a loop that outlasts its fuel has no
result. -/
def emplaceUpTo (last : UInt64) : Nat → UInt64 → CpuIdSet → Option CpuIdSet
  | 0, _, _ => none
  | fuel + 1, i, enabled =>
    if i ≤ last then emplaceUpTo last fuel (i + 1) (enabled.emplace i) else some enabled

section Configure

/- `tim::delimit` of a line and the delimiters, and `cpuinfo::freq::size()`. -/
variable (delimit : List UInt8 → List UInt8 → List (List UInt8)) (ncpu : UInt64)

def allCpus : CpuIdSet :=
  (List.range ncpu.toNat).foldl (fun enabled i => enabled.emplace (UInt64.ofNat i)) .empty

/-- One pass of the loop over the parts. -/
def enable (fuel : Nat) (v : List UInt8) (enabled : CpuIdSet) :
    Option (Except Utility.Failure CpuIdSet) :=
  if !v.all fun b => isDigit b || b == 45 then some (.ok enabled)
  else if 45 ∈ v then
    match delimit v [45] with
    | [first, last] =>
      match stoull first with
      | .error failure => some (.error failure)
      | .ok first =>
        match stoull last with
        | .error failure => some (.error failure)
        | .ok last => (emplaceUpTo last fuel first enabled).map .ok
    | _ => some (.error (invalidCpuRange v))
  else some ((stoull v).map enabled.emplace)

def enableParts (fuel : Nat) :
    List (List UInt8) → CpuIdSet → Option (Except Utility.Failure CpuIdSet)
  | [], enabled => some (.ok enabled)
  | v :: vs, enabled =>
    match enable delimit fuel v enabled with
    | some (.ok enabled) => enableParts fuel vs enabled
    | outcome => outcome

/-- What the setting asks for. -/
def enabledFreqs (fuel : Nat) (enabledVal : List UInt8) :
    Option (Except Utility.Failure CpuIdSet) :=
  let enabledVal := enabledVal.map toLower
  let enabledVal :=
    if enabledVal = offText then noneText
    else if enabledVal = onText then allText else enabledVal
  if enabledVal ≠ noneText ∧ enabledVal ≠ allText then
    let parts := delimit enabledVal cpuDelimiters
    enableParts delimit fuel parts (if parts = [] then allCpus ncpu else .empty)
  else if enabledVal = allText then some (.ok (allCpus ncpu))
  else some (.ok .empty)

/-- The pass over the set. It emplaces what is in the set already, so that the set it goes
through stays as it is. -/
def keepExisting (enabled : CpuIdSet) : CpuIdSet :=
  enabled.ids.foldl (fun kept i => if i < ncpu then kept.emplace i else kept) enabled

/- Whether `/proc/cpuinfo` can be read, and `get_is_continuous_integration()`. -/
variable (readable continuousIntegration : Bool)

/-- `cpu_freq::configure`. -/
def configure (fuel : Nat) (samplingCpus : List UInt8) : Option Outcome :=
  (enabledFreqs delimit ncpu fuel samplingCpus).map fun
    | .error failure => .thrown failure
    | .ok enabled =>
      let enabled := keepExisting ncpu enabled
      let enabled := if readable then enabled else .empty
      if continuousIntegration && !readable then .aborted else .configured enabled

end Configure

/-! ## Specifications -/

/-- `n` or `N-M`. -/
inductive CpuItem where
  | single (n : Digits)
  | range (first last : Digits)

namespace CpuItem

def text : CpuItem → List UInt8
  | single n => n.bytes
  | range first last => bothEnds first last

def Denotes (i : ℕ) : CpuItem → Prop
  | single n => i = n.value
  | range first last => first.value ≤ i ∧ i ≤ last.value

/-- Its numbers are 64-bit ones, and the counter of a range comes above the last of them. -/
def Fits : CpuItem → Prop
  | single n => n.value < 2 ^ 64
  | range first last => first.value < 2 ^ 64 ∧ last.value + 1 < 2 ^ 64

end CpuItem

/-- What a specification of these items stands for. An empty value implies all CPUs. -/
def Denoted (items : List CpuItem) (i : ℕ) : Prop := items = [] ∨ ∃ item ∈ items, item.Denotes i

/-- `configure` enables the CPUs of the specification that exist. -/
def EnablesExisting (delimit : List UInt8 → List UInt8 → List (List UInt8)) (ncpu : UInt64)
    (readable continuousIntegration : Bool) (items : List CpuItem) (input : List UInt8) : Prop :=
  ∃ fuel enabledCpus,
    configure delimit ncpu readable continuousIntegration fuel input =
      some (.configured enabledCpus) ∧
    ∀ i : UInt64, i ∈ enabledCpus.ids ↔ i < ncpu ∧ Denoted items i.toNat

theorem toNat_ofNat_of_denotes {item : CpuItem} (hfits : item.Fits) {i : ℕ}
    (h : item.Denotes i) : (UInt64.ofNat i).toNat = i := by
  refine UInt64.toNat_ofNat_of_lt' (show i < 2 ^ 64 from ?_)
  cases item with
  | single n =>
    obtain rfl : i = n.value := h
    exact hfits
  | range first last =>
    obtain ⟨-, hlast⟩ := hfits
    obtain ⟨-, hle⟩ := h
    omega

/-! ## The loop over a range -/

section Range

variable {last i j : UInt64} {fuel : Nat} {enabled enabled' : CpuIdSet}

theorem toNat_succ (h : i ≤ last) (hlast : last.toNat + 1 < 2 ^ 64) :
    (i + 1).toNat = i.toNat + 1 := by
  rw [UInt64.le_iff_toNat_le] at h
  rw [UInt64.toNat_add]
  show (i.toNat + 1) % 2 ^ 64 = i.toNat + 1
  exact Nat.mod_eq_of_lt (by omega)

/-- No number is above the largest one. -/
theorem emplaceUpTo_largest (hlast : last.toNat + 1 = 2 ^ 64) :
    emplaceUpTo last fuel i enabled = none := by
  induction fuel generalizing i enabled with
  | zero => rfl
  | succ fuel ih =>
    have hle : i ≤ last := by
      have hi := i.toNat_lt
      rw [UInt64.le_iff_toNat_le]
      omega
    rw [emplaceUpTo, if_pos hle, ih]

theorem mem_of_emplaceUpTo (hlast : last.toNat + 1 < 2 ^ 64)
    (h : emplaceUpTo last fuel i enabled = some enabled') :
    j ∈ enabled'.ids ↔ i.toNat ≤ j.toNat ∧ j.toNat ≤ last.toNat ∨ j ∈ enabled.ids := by
  induction fuel generalizing i enabled with
  | zero => cases h
  | succ fuel ih =>
    rw [emplaceUpTo] at h
    split at h
    · rename_i hle
      have heq : j = i ↔ j.toNat = i.toNat := UInt64.toNat_inj.symm
      rw [ih h, toNat_succ hle hlast, CpuIdSet.mem_emplace, heq, ← or_assoc]
      rw [UInt64.le_iff_toNat_le] at hle
      refine or_congr_left ?_
      omega
    · rename_i hgt
      cases h
      rw [UInt64.le_iff_toNat_le] at hgt
      refine (or_iff_right ?_).symm
      omega

theorem exists_emplaceUpTo (hlast : last.toNat + 1 < 2 ^ 64)
    (hfuel : last.toNat + 1 - i.toNat < fuel) :
    ∃ enabled', emplaceUpTo last fuel i enabled = some enabled' := by
  induction fuel generalizing i enabled with
  | zero => exact absurd hfuel (Nat.not_lt_zero _)
  | succ fuel ih =>
    rw [emplaceUpTo]
    split
    · rename_i hle
      have hnext := toNat_succ hle hlast
      rw [UInt64.le_iff_toNat_le] at hle
      exact ih (by omega)
    · exact ⟨enabled, rfl⟩

end Range

/-! ## Reading a specification -/

section Reading

variable {ncpu : UInt64} {fuel : Nat} {enabled enabled' : CpuIdSet} {items : List CpuItem}
  {item : CpuItem} {input : List UInt8} {n first last : Digits} {i v : UInt64}

theorem stoull_digits_eq_ok_iff :
    stoull n.bytes = .ok v ↔ n.value < 2 ^ 64 ∧ v.toNat = n.value := by
  by_cases hfits : n.value < 2 ^ 64
  · have hnat : (UInt64.ofNat n.value).toNat = n.value := UInt64.toNat_ofNat_of_lt' hfits
    rw [stoull_digits hfits, Except.ok.injEq, and_iff_right hfits, ← UInt64.toNat_inj, hnat,
      eq_comm]
  · have hge : 2 ^ 64 ≤ digitsValue n.bytes := Nat.not_lt.mp hfits
    refine iff_of_false (fun h => ?_) fun h => hfits h.1
    simp only [stoull, scan_digits, if_neg n.ne_nil, if_pos hge, reduceCtorEq] at h

theorem all_digits_or_minus (n : Digits) :
    n.bytes.all (fun b => isDigit b || b == 45) = true := by
  rw [List.all_eq_true]
  intro b hb
  rw [n.areDigits b hb]
  rfl

theorem enable_single :
    enable Common.delimit fuel n.bytes enabled = some ((stoull n.bytes).map enabled.emplace) := by
  have hminus : 45 ∉ n.bytes := not_mem_digits (by decide)
  rw [enable, all_digits_or_minus, Bool.not_true, if_neg Bool.false_ne_true, if_neg hminus]

theorem enable_range {first last : Digits} :
    enable Common.delimit fuel (bothEnds first last) enabled =
      match stoull first.bytes with
      | .error failure => some (.error failure)
      | .ok first =>
        match stoull last.bytes with
        | .error failure => some (.error failure)
        | .ok last => (emplaceUpTo last fuel first enabled).map .ok := by
  have hall : (bothEnds first last).all (fun b => isDigit b || b == 45) = true := by
    rw [bothEnds, List.all_append, List.all_cons, all_digits_or_minus, all_digits_or_minus]
    rfl
  have hminus : 45 ∈ bothEnds first last := List.mem_append_right first.bytes List.mem_cons_self
  rw [enable, hall, Bool.not_true, if_neg Bool.false_ne_true, if_pos hminus, delimit_bothEnds]

/-- An item that is read without fail fits, and its CPUs are added. -/
theorem of_enable_text
    (h : enable Common.delimit fuel item.text enabled = some (.ok enabled')) :
    item.Fits ∧ ∀ i : UInt64, i ∈ enabled'.ids ↔ item.Denotes i.toNat ∨ i ∈ enabled.ids := by
  cases item with
  | single n =>
    rw [CpuItem.text, enable_single, Option.some_inj] at h
    cases hn : stoull n.bytes with
    | error failure =>
      rw [hn] at h
      cases h
    | ok v =>
      rw [hn] at h
      cases h
      obtain ⟨hfits, hv⟩ := stoull_digits_eq_ok_iff.mp hn
      refine ⟨hfits, fun i => ?_⟩
      show i ∈ (enabled.emplace v).ids ↔ i.toNat = n.value ∨ i ∈ enabled.ids
      rw [CpuIdSet.mem_emplace, ← UInt64.toNat_inj, hv]
  | range first last =>
    rw [CpuItem.text, enable_range] at h
    split at h
    · cases h
    · rename_i v hfirst
      split at h
      · cases h
      · rename_i w hlast
        obtain ⟨enabled'', hloop, heq⟩ := Option.map_eq_some_iff.mp h
        cases heq
        obtain ⟨hfirst, hv⟩ := stoull_digits_eq_ok_iff.mp hfirst
        obtain ⟨hlast, hw⟩ := stoull_digits_eq_ok_iff.mp hlast
        have hlargest : w.toNat + 1 ≠ 2 ^ 64 := by
          intro hlargest
          rw [emplaceUpTo_largest hlargest] at hloop
          cases hloop
        refine ⟨⟨hfirst, by omega⟩, fun i => ?_⟩
        rw [mem_of_emplaceUpTo (by omega) hloop, hv, hw]
        rfl

/-- An item that fits is read without fail. -/
theorem exists_enable_text (hfits : item.Fits) (hfuel : 2 ^ 64 < fuel) :
    ∃ enabled', enable Common.delimit fuel item.text enabled = some (.ok enabled') := by
  cases item with
  | single n => exact ⟨_, by rw [CpuItem.text, enable_single, stoull_digits hfits]; rfl⟩
  | range first last =>
    obtain ⟨hfirst, hlast⟩ := hfits
    have hlt : last.value < 2 ^ 64 := by omega
    have hnat : (UInt64.ofNat last.value).toNat = last.value := UInt64.toNat_ofNat_of_lt' hlt
    obtain ⟨enabled', hloop⟩ := @exists_emplaceUpTo (UInt64.ofNat last.value)
      (UInt64.ofNat first.value) fuel enabled (by omega) (by omega)
    refine ⟨enabled', ?_⟩
    rw [CpuItem.text, enable_range, stoull_digits hfirst, stoull_digits hlt]
    show (emplaceUpTo _ fuel _ enabled).map Except.ok = _
    rw [hloop]
    rfl

theorem of_enableParts_texts
    (h : enableParts Common.delimit fuel (items.map CpuItem.text) enabled =
      some (.ok enabled')) :
    (∀ item ∈ items, item.Fits) ∧ ∀ i : UInt64,
      i ∈ enabled'.ids ↔ (∃ item ∈ items, item.Denotes i.toNat) ∨ i ∈ enabled.ids := by
  induction items generalizing enabled with
  | nil =>
    cases h
    exact ⟨fun item h => absurd h List.not_mem_nil, fun i => by simp⟩
  | cons item items ih =>
    rw [List.map_cons, enableParts] at h
    split at h
    · rename_i next hitem
      obtain ⟨hfits, hmem⟩ := of_enable_text hitem
      obtain ⟨hfits', hmem'⟩ := ih h
      refine ⟨List.forall_mem_cons.mpr ⟨hfits, hfits'⟩, fun i => ?_⟩
      rw [hmem', hmem, List.exists_mem_cons_iff, or_left_comm, or_assoc]
    · rename_i hother
      exact absurd h (hother enabled')

theorem exists_enableParts_texts (hfits : ∀ item ∈ items, item.Fits) (hfuel : 2 ^ 64 < fuel) :
    ∃ enabled', enableParts Common.delimit fuel (items.map CpuItem.text) enabled =
      some (.ok enabled') := by
  induction items generalizing enabled with
  | nil => exact ⟨enabled, rfl⟩
  | cons item items ih =>
    obtain ⟨hitem, hitems⟩ := List.forall_mem_cons.mp hfits
    obtain ⟨next, hnext⟩ := @exists_enable_text fuel enabled item hitem hfuel
    obtain ⟨enabled', hrest⟩ := @ih next hitems
    exact ⟨enabled', by rw [List.map_cons, enableParts, hnext]; exact hrest⟩

/-- A character of a specification is a digit, a minus sign or a delimiter. -/
theorem lt_of_mem_specification
    (hinput : Separated cpuDelimiters.contains (items.map CpuItem.text) input) {b : UInt8}
    (hb : b ∈ input) : b.toNat < 65 := by
  have hdigits {n : Digits} (h : b ∈ n.bytes) : b.toNat < 65 := by
    have hdigit := isDigit_toNat (n.areDigits b h)
    omega
  rcases mem_of_separated hinput hb with hb | ⟨t, ht, hb⟩
  · have hmem : b ∈ cpuDelimiters := List.contains_iff_mem.mp hb
    simp only [cpuDelimiters, List.mem_cons, List.not_mem_nil, or_false] at hmem
    rcases hmem with rfl | rfl | rfl | rfl <;> decide
  · obtain ⟨item, -, rfl⟩ := List.mem_map.mp ht
    cases item with
    | single n => exact hdigits hb
    | range first last =>
      rcases List.mem_append.mp hb with hb | hb
      · exact hdigits hb
      · rcases List.mem_cons.mp hb with rfl | hb
        · decide
        · exact hdigits hb

theorem map_toLower_specification
    (hinput : Separated cpuDelimiters.contains (items.map CpuItem.text) input) :
    input.map toLower = input := by
  refine (List.map_congr_left fun b hb => ?_).trans (List.map_id input)
  have hlt := lt_of_mem_specification hinput hb
  have hupper : ¬ (65 ≤ b ∧ b ≤ 90) := by
    rw [UInt8.le_iff_toNat_le]
    show ¬ (65 ≤ b.toNat ∧ _)
    omega
  rw [toLower, if_neg hupper]
  rfl

/-- There is no letter in a specification. -/
theorem ne_of_letter
    (hinput : Separated cpuDelimiters.contains (items.map CpuItem.text) input) {b : UInt8}
    {word : List UInt8} (hb : b ∈ word) (hletter : 97 ≤ b.toNat) : input ≠ word := by
  intro heq
  subst heq
  have hlt := lt_of_mem_specification hinput hb
  omega

theorem enabledFreqs_specification
    (hinput : Separated cpuDelimiters.contains (items.map CpuItem.text) input) :
    enabledFreqs Common.delimit ncpu fuel input =
      enableParts Common.delimit fuel (items.map CpuItem.text)
        (if items = [] then allCpus ncpu else .empty) := by
  have hparts : Common.delimit input cpuDelimiters = items.map CpuItem.text := by
    rw [Common.delimit_eq_tokens, tokens_of_separated hinput]
  have hoff : ¬ input = offText :=
    ne_of_letter hinput (show 111 ∈ offText from List.mem_cons_self) (by decide)
  have hon : ¬ input = onText :=
    ne_of_letter hinput (show 111 ∈ onText from List.mem_cons_self) (by decide)
  have hnone : input ≠ noneText :=
    ne_of_letter hinput (show 110 ∈ noneText from List.mem_cons_self) (by decide)
  have hall : input ≠ allText :=
    ne_of_letter hinput (show 97 ∈ allText from List.mem_cons_self) (by decide)
  simp only [enabledFreqs, map_toLower_specification hinput, if_neg hoff, if_neg hon, hparts,
    List.map_eq_nil_iff]
  rw [if_pos ⟨hnone, hall⟩]

theorem mem_allCpus : i ∈ (allCpus ncpu).ids ↔ i < ncpu := by
  have hfold (ns : List Nat) (enabled : CpuIdSet) :
      i ∈ (ns.foldl (fun enabled n => enabled.emplace (UInt64.ofNat n)) enabled).ids ↔
        i ∈ enabled.ids ∨ ∃ n ∈ ns, i = UInt64.ofNat n := by
    induction ns generalizing enabled with
    | nil => simp
    | cons n ns ih =>
      rw [List.foldl_cons, ih, CpuIdSet.mem_emplace, List.exists_mem_cons_iff, ← or_assoc,
        or_comm (a := i ∈ enabled.ids)]
  rw [allCpus, hfold]
  constructor
  · intro h
    obtain h | ⟨n, hn, rfl⟩ := h
    · exact absurd h List.not_mem_nil
    · have hlt := List.mem_range.mp hn
      have hncpu := ncpu.toNat_lt
      rwa [UInt64.lt_iff_toNat_lt, UInt64.toNat_ofNat_of_lt' (show n < 2 ^ 64 by omega)]
  · intro h
    exact Or.inr ⟨i.toNat, List.mem_range.mpr (UInt64.lt_iff_toNat_lt.mp h),
      UInt64.ofNat_toNat.symm⟩

/-- The pass removes nothing. -/
theorem mem_keepExisting : i ∈ (keepExisting ncpu enabled).ids ↔ i ∈ enabled.ids := by
  have hfold (ids : List UInt64) (kept : CpuIdSet) :
      i ∈ (ids.foldl (fun kept i => if i < ncpu then kept.emplace i else kept) kept).ids ↔
        i ∈ kept.ids ∨ i ∈ ids ∧ i < ncpu := by
    induction ids generalizing kept with
    | nil => simp
    | cons j ids ih =>
      rw [List.foldl_cons, ih, List.mem_cons]
      split
      · rename_i hlt
        have hi : i = j → i < ncpu := fun heq => heq ▸ hlt
        rw [CpuIdSet.mem_emplace]
        tauto
      · rename_i hge
        have hi : i = j → ¬ i < ncpu := fun heq => heq ▸ hge
        tauto
  rw [keepExisting, hfold]
  exact or_iff_left_of_imp And.left

theorem configure_eq_configured_iff {readable continuousIntegration : Bool}
    {enabledCpus : CpuIdSet} {delimit : List UInt8 → List UInt8 → List (List UInt8)} :
    configure delimit ncpu readable continuousIntegration fuel input =
        some (.configured enabledCpus) ↔
      ∃ enabled, enabledFreqs delimit ncpu fuel input = some (.ok enabled) ∧
        if readable then enabledCpus = keepExisting ncpu enabled
        else continuousIntegration = false ∧ enabledCpus = .empty := by
  rw [configure, Option.map_eq_some_iff]
  constructor
  · intro h
    obtain ⟨result, hresult, heq⟩ := h
    cases result with
    | error failure => cases heq
    | ok enabled =>
      refine ⟨enabled, hresult, ?_⟩
      cases readable with
      | true =>
        cases continuousIntegration <;> cases heq <;> rfl
      | false =>
        cases continuousIntegration with
        | true => cases heq
        | false =>
          cases heq
          exact ⟨rfl, rfl⟩
  · intro h
    obtain ⟨enabled, hresult, h⟩ := h
    refine ⟨.ok enabled, hresult, ?_⟩
    cases readable with
    | true =>
      have heq : enabledCpus = keepExisting ncpu enabled := h
      rw [heq]
      cases continuousIntegration <;> rfl
    | false =>
      obtain ⟨rfl, rfl⟩ := h
      rfl

/-- What the items must be like for `configure` to do what they say. -/
theorem of_enablesExisting {readable continuousIntegration : Bool}
    (hinput : Separated cpuDelimiters.contains (items.map CpuItem.text) input)
    (h : EnablesExisting Common.delimit ncpu readable continuousIntegration items input) :
    (∀ item ∈ items, item.Fits) ∧
      if readable then ∀ item ∈ items, ∀ i, item.Denotes i → i < ncpu.toNat
      else continuousIntegration = false ∧ ∀ i < ncpu.toNat, ¬ Denoted items i := by
  obtain ⟨fuel, enabledCpus, hconfigure, hmem⟩ := h
  obtain ⟨enabled, henabled, hkept⟩ := configure_eq_configured_iff.mp hconfigure
  rw [enabledFreqs_specification hinput] at henabled
  obtain ⟨hfits, hmem'⟩ := of_enableParts_texts henabled
  refine ⟨hfits, ?_⟩
  cases readable with
  | true =>
    obtain rfl : enabledCpus = keepExisting ncpu enabled := hkept
    intro item hitem i hi
    have hnat := toNat_ofNat_of_denotes (hfits item hitem) hi
    have hmember := (hmem' (UInt64.ofNat i)).mpr (Or.inl ⟨item, hitem, by rwa [hnat]⟩)
    have hlt := ((hmem _).mp (mem_keepExisting.mpr hmember)).1
    rwa [UInt64.lt_iff_toNat_lt, hnat] at hlt
  | false =>
    obtain ⟨hci, rfl⟩ := hkept
    refine ⟨hci, fun i hlt hdenoted => ?_⟩
    have hncpu := ncpu.toNat_lt
    have hnat : (UInt64.ofNat i).toNat = i :=
      UInt64.toNat_ofNat_of_lt' (show i < 2 ^ 64 by omega)
    refine absurd ((hmem (UInt64.ofNat i)).mpr ⟨?_, by rwa [hnat]⟩) List.not_mem_nil
    rwa [UInt64.lt_iff_toNat_lt, hnat]

end Reading

/-- `configure` does what the specification says exactly if its numbers are 64-bit ones, no range
runs up to the largest of them, and every CPU it denotes exists. Without `/proc/cpuinfo` nothing
is enabled, and continuous integration aborts. -/
theorem enablesExisting_iff (delimit : List UInt8 → List UInt8 → List (List UInt8))
    (hdelimit : delimit = Common.delimit) (ncpu : UInt64)
    (readable continuousIntegration : Bool) (items : List CpuItem) (input : List UInt8)
    (hinput : Separated cpuDelimiters.contains (items.map CpuItem.text) input) :
    EnablesExisting delimit ncpu readable continuousIntegration items input ↔
      (∀ item ∈ items, item.Fits) ∧
        if readable then ∀ item ∈ items, ∀ i, item.Denotes i → i < ncpu.toNat
        else continuousIntegration = false ∧ ∀ i < ncpu.toNat, ¬ Denoted items i := by
  subst hdelimit
  have hstart (i : UInt64) :
      i ∈ (if items = [] then allCpus ncpu else CpuIdSet.empty).ids ↔ items = [] ∧ i < ncpu := by
    split
    · rename_i hnil
      rw [mem_allCpus, and_iff_right hnil]
    · rename_i hne
      exact iff_of_false List.not_mem_nil fun h => hne h.1
  refine ⟨of_enablesExisting hinput, fun h => ?_⟩
  obtain ⟨hfits, hexist⟩ := h
  obtain ⟨enabled, henabled⟩ := @exists_enableParts_texts (2 ^ 64 + 1)
    (if items = [] then allCpus ncpu else CpuIdSet.empty) items hfits (Nat.lt_succ_self _)
  obtain ⟨-, hmem⟩ := of_enableParts_texts henabled
  rw [← enabledFreqs_specification hinput] at henabled
  cases readable with
  | true =>
    refine ⟨_, keepExisting ncpu enabled,
      configure_eq_configured_iff.mpr ⟨enabled, henabled, rfl⟩, fun i => ?_⟩
    rw [mem_keepExisting, hmem, hstart, Denoted]
    constructor
    · intro h
      obtain ⟨item, hitem, hi⟩ | ⟨hnil, hlt⟩ := h
      · exact ⟨UInt64.lt_iff_toNat_lt.mpr (hexist item hitem _ hi), Or.inr ⟨item, hitem, hi⟩⟩
      · exact ⟨hlt, Or.inl hnil⟩
    · intro h
      obtain ⟨hlt, hnil | hdenotes⟩ := h
      · exact Or.inr ⟨hnil, hlt⟩
      · exact Or.inl hdenotes
  | false =>
    obtain ⟨hci, hnone⟩ := hexist
    refine ⟨_, .empty, configure_eq_configured_iff.mpr ⟨enabled, henabled, hci, rfl⟩,
      fun i => ?_⟩
    exact iff_of_false List.not_mem_nil fun h => hnone _ (UInt64.lt_iff_toNat_lt.mp h.1) h.2

def zero : Digits := ⟨[48], List.cons_ne_nil 48 [], List.forall_mem_singleton.mpr rfl⟩
def four : Digits := .one 52 rfl

/-- The text `0-4`. -/
def pastLast : List UInt8 := [48, 45, 52]

/-- The largest 64-bit number. -/
def largest : Digits where
  bytes := [49, 56, 52, 52, 54, 55, 52, 52, 48, 55, 51, 55, 48, 57, 53, 53, 49, 54, 49, 53]
  ne_nil := List.cons_ne_nil _ _
  areDigits := by decide +kernel

theorem isToken_bothEnds (first last : Digits) :
    IsToken cpuDelimiters.contains (bothEnds first last) := by
  have hdigit (b : UInt8) (h : isDigit b = true) : cpuDelimiters.contains b = false :=
    contains_of_isDigit rfl h
  exact (isToken_digits hdigit first).append_cons rfl (isToken_digits hdigit last)

theorem enablesExisting_iff_pastLast :
    EnablesExisting Common.delimit 5 true false [.range zero four] pastLast ↔
      (∀ item ∈ [CpuItem.range zero four], item.Fits) ∧
        if true then ∀ item ∈ [CpuItem.range zero four], ∀ i,
          item.Denotes i → i < (5 : UInt64).toNat
        else false = false ∧ ∀ i < (5 : UInt64).toNat, ¬ Denoted [.range zero four] i :=
  enablesExisting_iff Common.delimit rfl 5 true false [.range zero four] pastLast
    (.last (isToken_bothEnds zero four))

/-- With four CPUs `0-4` enables a fifth, and the loop up to the largest number does not end. -/
theorem not_enablesExisting_pastLast :
    ¬ EnablesExisting Common.delimit 4 true false [.range zero four] pastLast ∧
      ∀ fuel, configure Common.delimit 4 true false fuel (bothEnds zero largest) = none := by
  constructor
  · intro h
    have hinput : Separated cpuDelimiters.contains ([CpuItem.range zero four].map CpuItem.text)
        pastLast := .last (isToken_bothEnds zero four)
    obtain ⟨-, hexist⟩ := of_enablesExisting hinput h
    have hdenotes : (CpuItem.range zero four).Denotes 4 := ⟨by decide, by decide⟩
    exact absurd (hexist _ (List.mem_singleton_self _) 4 hdenotes) (by decide)
  · intro fuel
    have hlargest : stoull largest.bytes = .ok (UInt64.ofNat largest.value) :=
      stoull_digits (by decide)
    have hloop {enabled : CpuIdSet} :
        emplaceUpTo (UInt64.ofNat largest.value) fuel (UInt64.ofNat zero.value) enabled = none :=
      emplaceUpTo_largest (by decide)
    have hinput : Separated cpuDelimiters.contains ([CpuItem.range zero largest].map CpuItem.text)
        (bothEnds zero largest) := .last (isToken_bothEnds zero largest)
    rw [configure, enabledFreqs_specification hinput, if_neg (List.cons_ne_nil _ _), List.map_cons,
      enableParts, CpuItem.text, enable_range, stoull_digits (by decide), hlargest]
    simp only [hloop, Option.map_none]

end CpuFreq
end Rocprofsys
