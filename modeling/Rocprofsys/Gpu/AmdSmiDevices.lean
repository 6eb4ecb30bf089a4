import Mathlib.Data.List.Infix
import Rocprofsys.Base.Attempt
import Rocprofsys.Utility.RangeValues

namespace Rocprofsys
namespace Gpu
namespace AmdSmi

open Base Utility

/-! ## Selecting devices -/

/-- `std::stoul`. -/
def stoul (str : List UInt8) : Except Utility.Failure UInt64 :=
  if (scan str).2 = [] then .error (.invalidArgument "stoul")
  else if 2 ^ 64 ≤ digitsValue (scan str).2 then .error (.outOfRange "stoul")
  else .ok (UInt64.ofInt (scannedValue str))

/-- The characters of `,; \t`. -/
def gpuDelimiters : List UInt8 := [44, 59, 32, 9]

/-- The texts `all`, `none`, `on` and `off`. -/
def allText : List UInt8 := [97, 108, 108]
def noneText : List UInt8 := [110, 111, 110, 101]
def onText : List UInt8 := [111, 110]
def offText : List UInt8 := [111, 102, 102]

section Setup

/- `tim::delimit` of a line and the delimiters, and the number of devices. -/
variable (delimit : List UInt8 → List UInt8 → List (List UInt8)) (deviceCount : UInt32)

def invalidGpu (itr : List UInt8) : Utility.Failure :=
  .runtimeError ("Invalid GPU specification: '".toUTF8.toList ++ itr ++
    "'. Only numerical values (e.g., 0) or ranges (e.g., 0-7) are permitted.".toUTF8.toList)

def invalidGpuRange (itr : List UInt8) : Utility.Failure :=
  .runtimeError ("Invalid GPU range specification: '".toUTF8.toList ++ itr ++
    "'. Required format N-M, e.g. 0-4".toUTF8.toList)

/-- `_emplace`. -/
def emplace (devices : List UInt32) (idx : Nat) : List UInt32 :=
  if idx < deviceCount.toNat then
    if UInt32.ofNat idx ∈ devices then devices
    else devices.orderedInsert (· ≤ ·) (UInt32.ofNat idx)
  else devices

/-- The loop over a range, which leaves its last number out. -/
def emplaceRange (devices : List UInt32) (first last : Nat) : List UInt32 :=
  (List.range' first (last - first)).foldl (emplace deviceCount) devices

/-- One pass of the loop over the parts. -/
def enable (devices : List UInt32) (itr : List UInt8) : Except Utility.Failure (List UInt32) :=
  if !itr.all fun b => isDigit b || b == 45 then .error (invalidGpu itr)
  else if 45 ∈ itr then
    match delimit itr [45] with
    | [first, last] => (stoul first).bind fun first => (stoul last).map fun last =>
      emplaceRange deviceCount devices first.toNat last.toNat
    | _ => .error (invalidGpuRange itr)
  else (stoul itr).map fun idx => emplace deviceCount devices idx.toNat

/-- The part of `setup` that makes `data::device_list` of the specification. -/
def deviceList (devicesV : List UInt8) : Except Utility.Failure (List UInt32) :=
  let devicesV := devicesV.map toLower
  let devicesV :=
    if devicesV = offText then noneText else if devicesV = onText then allText else devicesV
  if allText <:+: devicesV ∨ devicesV = [] then
    .ok ((List.range deviceCount.toNat).foldl (emplace deviceCount) [])
  else if ¬ noneText <:+: devicesV then
    (delimit devicesV gpuDelimiters).foldlM (enable delimit deviceCount) []
  else .ok []

variable (label : List UInt8) (overflow : Overflow)

/-- The devices are those that the common range syntax selects, as far as they exist. -/
def Agrees (input : List UInt8) : Prop :=
  ∃ devices fuel values, deviceList delimit deviceCount input = .ok devices ∧
    parseNumericRange delimit label 1 overflow fuel input = some (.ok values) ∧
    ∀ i : ℕ, (∃ d ∈ devices, d.toNat = i) ↔
      i < deviceCount.toNat ∧ ∃ v ∈ values, v.toInt = i

end Setup

/-! ## What an item enables -/

/-- `n` or `N-M`. -/
def IsPlain : Item → Prop
  | .stepped _ _ _ => False
  | _ => True

/-- The device is enabled for the item. -/
def Enables (i : ℕ) : Item → Prop
  | .single n => i = n.value
  | .range first last => first.value ≤ i ∧ i < last.value
  | .stepped _ _ _ => False

def enabled (deviceCount : UInt32) (devices : List UInt32) : Item → List UInt32
  | .single n => emplace deviceCount devices n.value
  | .range first last => emplaceRange deviceCount devices first.value last.value
  | .stepped _ _ _ => devices

section Items

variable {deviceCount d : UInt32} {devices : List UInt32} {items : List Item} {item : Item}

theorem mem_emplace {idx : Nat} :
    d ∈ emplace deviceCount devices idx ↔
      d ∈ devices ∨ d.toNat < deviceCount.toNat ∧ d.toNat = idx := by
  have heq (h : idx < deviceCount.toNat) : UInt32.ofNat idx = d ↔ d.toNat = idx := by
    have hcount := deviceCount.toNat_lt
    rw [← UInt32.toNat_inj, UInt32.toNat_ofNat', Nat.mod_eq_of_lt (by omega), eq_comm]
  unfold emplace
  split
  · rename_i hlt
    split
    · rename_i hmem
      refine ⟨Or.inl, fun h => ?_⟩
      rcases h with h | ⟨-, h⟩
      · exact h
      · rwa [← (heq hlt).mpr h]
    · rw [List.mem_orderedInsert, eq_comm, heq hlt]
      constructor
      · intro h
        rcases h with h | h
        · exact Or.inr ⟨by omega, h⟩
        · exact Or.inl h
      · intro h
        rcases h with h | ⟨-, h⟩
        · exact Or.inr h
        · exact Or.inl h
  · rename_i hge
    refine ⟨Or.inl, fun h => ?_⟩
    rcases h with h | ⟨hlt, h⟩
    · exact h
    · omega

theorem mem_foldl_emplace {idxs : List Nat} :
    d ∈ idxs.foldl (emplace deviceCount) devices ↔
      d ∈ devices ∨ d.toNat < deviceCount.toNat ∧ d.toNat ∈ idxs := by
  induction idxs generalizing devices with
  | nil => simp
  | cons idx idxs ih =>
    rw [List.foldl_cons, ih, mem_emplace, List.mem_cons]
    tauto

theorem mem_enabled :
    d ∈ enabled deviceCount devices item ↔
      d ∈ devices ∨ d.toNat < deviceCount.toNat ∧ Enables d.toNat item := by
  cases item with
  | single n => exact mem_emplace
  | range first last =>
    show d ∈ emplaceRange deviceCount devices first.value last.value ↔ _
    have hrange : (first.value ≤ d.toNat ∧ d.toNat < first.value + (last.value - first.value)) ↔
        Enables d.toNat (.range first last) := by
      show _ ↔ first.value ≤ d.toNat ∧ d.toNat < last.value
      omega
    rw [emplaceRange, mem_foldl_emplace, List.mem_range'_1, hrange]
  | stepped first last increment =>
    show d ∈ devices ↔ d ∈ devices ∨ _ ∧ False
    simp

theorem mem_foldl_enabled :
    d ∈ items.foldl (enabled deviceCount) devices ↔
      d ∈ devices ∨ d.toNat < deviceCount.toNat ∧ ∃ item ∈ items, Enables d.toNat item := by
  induction items generalizing devices with
  | nil => simp
  | cons item items ih =>
    rw [List.foldl_cons, ih, mem_enabled]
    simp only [List.mem_cons, exists_eq_or_imp]
    tauto

theorem stoul_digits {n : Digits} (h : n.value < 2 ^ 64) :
    stoul n.bytes = .ok (UInt64.ofNat n.value) := by
  have hlt : ¬ 2 ^ 64 ≤ digitsValue n.bytes := Nat.not_le.mpr h
  have hmod : (n.value : ℤ) % 2 ^ 64 = n.value := by omega
  simp only [stoul, scan_digits, if_neg n.ne_nil, if_neg hlt, scannedValue_digits, UInt64.ofInt,
    hmod, Int.toNat_natCast]

theorem enable_text (hplain : IsPlain item) (hbounded : item.Bounded) :
    enable Common.delimit deviceCount devices item.text =
      .ok (enabled deviceCount devices item) := by
  have hdigits (n : Digits) : n.bytes.all (fun b => isDigit b || b == 45) = true := by
    rw [List.all_eq_true]
    intro b hb
    rw [n.areDigits b hb]
    rfl
  have hvalue (n : Digits) (h : n.value < 2 ^ 64) : (UInt64.ofNat n.value).toNat = n.value :=
    UInt64.toNat_ofNat_of_lt' h
  cases item with
  | single n =>
    have hn : n.value < 2 ^ 63 := hbounded
    have hminus : 45 ∉ n.bytes := not_mem_digits (by decide)
    show enable Common.delimit deviceCount devices n.bytes = _
    rw [enable, hdigits, Bool.not_true, if_neg Bool.false_ne_true, if_neg hminus,
      stoul_digits (by omega)]
    show Except.ok (emplace deviceCount devices (UInt64.ofNat n.value).toNat) = _
    rw [hvalue n (by omega)]
    rfl
  | range first last =>
    obtain ⟨hle, hlast⟩ := hbounded
    have hall : (bothEnds first last).all (fun b => isDigit b || b == 45) = true := by
      rw [bothEnds, List.all_append, List.all_cons, hdigits, hdigits]
      rfl
    have hminus : 45 ∈ bothEnds first last :=
      List.mem_append_right first.bytes List.mem_cons_self
    show enable Common.delimit deviceCount devices (bothEnds first last) = _
    rw [enable, hall, Bool.not_true, if_neg Bool.false_ne_true, if_pos hminus, delimit_bothEnds]
    show (stoul first.bytes).bind _ = _
    rw [stoul_digits (by omega)]
    show (stoul last.bytes).map _ = _
    rw [stoul_digits (by omega)]
    show Except.ok (emplaceRange deviceCount devices (UInt64.ofNat first.value).toNat
      (UInt64.ofNat last.value).toNat) = _
    rw [hvalue first (by omega), hvalue last (by omega)]
    rfl
  | stepped first last increment => exact absurd hplain id

theorem foldlM_enable_texts (hplain : ∀ item ∈ items, IsPlain item)
    (hbounded : ∀ item ∈ items, item.Bounded) :
    (items.map Item.text).foldlM (enable Common.delimit deviceCount) devices =
      .ok (items.foldl (enabled deviceCount) devices) := by
  induction items generalizing devices with
  | nil => rfl
  | cons item items ih =>
    rw [List.map_cons, List.foldlM_cons, enable_text (hplain item List.mem_cons_self)
      (hbounded item List.mem_cons_self)]
    exact ih (fun item' h => hplain item' (List.mem_cons_of_mem item h))
      fun item' h => hbounded item' (List.mem_cons_of_mem item h)

end Items

/-! ## Agreement with the common syntax -/

section Agreement

variable {deviceCount : UInt32} {label input : List UInt8} {overflow : Overflow}
  {items : List Item}

/-- There is no letter in a specification. -/
theorem lt_of_mem_specification
    (hinput : Separated delimiters.contains (items.map Item.text) input) {b : UInt8}
    (hb : b ∈ input) : b.toNat < 97 := by
  rcases mem_of_separated hinput hb with hb | ⟨t, ht, hb⟩
  · rcases cases_of_delimiter hb with rfl | rfl | rfl | rfl | rfl | rfl <;> decide
  · obtain ⟨item, -, rfl⟩ := List.mem_map.mp ht
    have hpermitted := List.all_eq_true.mp (all_isPermitted_text item) b hb
    rw [isPermitted, Bool.or_eq_true, Bool.or_eq_true, beq_iff_eq, beq_iff_eq] at hpermitted
    rcases hpermitted with (hdigit | rfl) | rfl
    · have h := isDigit_toNat hdigit
      omega
    · decide
    · decide

theorem not_infix_of_letter
    (hinput : Separated delimiters.contains (items.map Item.text) input) {b : UInt8}
    {word : List UInt8} (hb : b ∈ word) (hletter : 97 ≤ b.toNat) : ¬ word <:+: input := by
  intro hwithin
  have hlt := lt_of_mem_specification hinput (hwithin.subset hb)
  omega

/-- A specification is neither `all` nor `none` unless it is empty. -/
theorem deviceList_specification
    (hinput : Separated delimiters.contains (items.map Item.text) input) (hne : input ≠ []) :
    deviceList Common.delimit deviceCount input =
      (Common.delimit input gpuDelimiters).foldlM (enable Common.delimit deviceCount) [] := by
  have hoff : ¬ input = offText := by
    intro heq
    subst heq
    exact not_infix_of_letter hinput (show 111 ∈ offText by decide) (by decide) List.infix_rfl
  have hon : ¬ input = onText := by
    intro heq
    subst heq
    exact not_infix_of_letter hinput (show 111 ∈ onText by decide) (by decide) List.infix_rfl
  have hall : ¬ allText <:+: input :=
    not_infix_of_letter hinput (show 97 ∈ allText by decide) (by decide)
  have hnone : ¬ noneText <:+: input :=
    not_infix_of_letter hinput (show 111 ∈ noneText by decide) (by decide)
  have hlower := map_toLower (fun b hb => toLower_of_delimiter hb) hinput
  simp only [deviceList, hlower, if_neg hoff, if_neg hon]
  rw [if_neg (not_or.mpr ⟨hall, hne⟩), if_pos hnone]

/-- Without a line break both parsers see the same items. -/
theorem delimit_gpuDelimiters
    (hinput : Separated delimiters.contains (items.map Item.text) input)
    (hbreak : 10 ∉ input ∧ 13 ∉ input) :
    Common.delimit input gpuDelimiters = items.map Item.text := by
  rw [Common.delimit_eq_tokens, ← tokens_of_separated hinput]
  refine tokens_congr fun b hb => ?_
  have hne : b ≠ 10 ∧ b ≠ 13 := by
    constructor
    · intro heq
      subst heq
      exact hbreak.1 hb
    · intro heq
      subst heq
      exact hbreak.2 hb
  simp [gpuDelimiters, delimiters, hne.1, hne.2]

/-- A line break is no delimiter of the devices, and no part of an item. -/
theorem deviceList_of_break {b : UInt8}
    (hinput : Separated delimiters.contains (items.map Item.text) input) (hb : b ∈ input)
    (hbreak : b = 10 ∨ b = 13) (devices : List UInt32) :
    deviceList Common.delimit deviceCount input ≠ .ok devices := by
  have hdelimiter : gpuDelimiters.contains b = false := by
    rcases hbreak with rfl | rfl <;> decide
  have hcharacter : (isDigit b || b == 45) = false := by
    rcases hbreak with rfl | rfl <;> decide
  obtain ⟨t, ht, hmem⟩ := exists_mem_tokens hb hdelimiter
  have hfails : t.all (fun b => isDigit b || b == 45) = false := by
    rw [List.all_eq_false]
    exact ⟨b, hmem, by rw [hcharacter]; exact Bool.false_ne_true⟩
  rw [deviceList_specification hinput (List.ne_nil_of_mem hb), Common.delimit_eq_tokens]
  refine foldlM_ne_ok ht fun before after h => ?_
  rw [enable, hfails, Bool.not_false, if_pos rfl] at h
  cases h

/-- Both sets, once both parsers have returned. -/
theorem agrees_iff_of_ok {delimit : List UInt8 → List UInt8 → List (List UInt8)}
    {devices : List UInt32} {fuel : Nat} {values : List Int64}
    (hdevices : deviceList delimit deviceCount input = .ok devices)
    (hvalues : parseNumericRange delimit label 1 overflow fuel input = some (.ok values)) :
    Agrees delimit deviceCount label overflow input ↔
      ∀ i : ℕ, (∃ d ∈ devices, d.toNat = i) ↔
        i < deviceCount.toNat ∧ ∃ v ∈ values, v.toInt = i := by
  constructor
  · intro ⟨devices', fuel', values', hdevices', hvalues', hsame⟩
    rw [hdevices, Except.ok.injEq] at hdevices'
    have hmax := parseParts_of_le (Nat.le_max_left fuel fuel') hvalues
    have hmax' := parseParts_of_le (Nat.le_max_right fuel fuel') hvalues'
    rw [hmax, Option.some_inj, Except.ok.injEq] at hmax'
    rwa [hdevices', hmax']
  · intro hsame
    exact ⟨devices, fuel, values, hdevices, hvalues, hsame⟩

/-- The last number of each range with an existing device is enabled by another item. -/
def UppersEnabled (deviceCount : UInt32) (items : List Item) : Prop :=
  ∀ first last, .range first last ∈ items → last.value < deviceCount.toNat →
    ∃ item ∈ items, Enables last.value item

/-- A plain item stands for what it enables, and a range for its last number too. -/
theorem denotes_iff {item : Item} (hplain : IsPlain item) (hbounded : item.Bounded) {i : ℕ} :
    item.Denotes 1 i ↔
      Enables i item ∨ ∃ first last, item = .range first last ∧ i = last.value := by
  cases item with
  | single n =>
    show (i : ℤ) = n.value ↔ i = n.value ∨ _
    simp
  | range first last =>
    obtain ⟨hle, -⟩ := hbounded
    show (∃ k : ℕ, (i : ℤ) = first.value + k * 1 ∧ (i : ℤ) ≤ last.value) ↔
      (first.value ≤ i ∧ i < last.value) ∨ _
    constructor
    · intro ⟨k, heq, hbound⟩
      by_cases hlast : i = last.value
      · exact Or.inr ⟨first, last, rfl, hlast⟩
      · exact Or.inl (by omega)
    · intro h
      rcases h with h | ⟨first', last', heq, hi⟩
      · exact ⟨i - first.value, by omega, by omega⟩
      · cases heq
        exact ⟨last.value - first.value, by omega, by omega⟩
  | stepped first last increment => exact absurd hplain id

/-- The devices of a specification that has some text and no line break. -/
theorem deviceList_items (hitems : ∀ item ∈ items, IsPlain item ∧ item.Bounded)
    (hinput : Separated delimiters.contains (items.map Item.text) input) (hne : input ≠ [])
    (hbreak : 10 ∉ input ∧ 13 ∉ input) :
    ∃ devices, deviceList Common.delimit deviceCount input = .ok devices ∧
      ∀ i : ℕ, (∃ d ∈ devices, d.toNat = i) ↔
        i < deviceCount.toNat ∧ ∃ item ∈ items, Enables i item := by
  refine ⟨items.foldl (enabled deviceCount) [], ?_, fun i => ?_⟩
  · rw [deviceList_specification hinput hne, delimit_gpuDelimiters hinput hbreak,
      foldlM_enable_texts (fun item h => (hitems item h).1) fun item h => (hitems item h).2]
  · simp only [mem_foldl_enabled, List.not_mem_nil, false_or]
    constructor
    · intro h
      obtain ⟨d, h, rfl⟩ := h
      exact h
    · intro ⟨hlt, h⟩
      have hcount := deviceCount.toNat_lt
      have hnat : (UInt32.ofNat i).toNat = i := by
        rw [UInt32.toNat_ofNat', Nat.mod_eq_of_lt (by omega)]
      exact ⟨UInt32.ofNat i, by rw [hnat]; exact ⟨hlt, h⟩, hnat⟩

/-- Without text every device is enabled. -/
theorem mem_deviceList_nil {i : ℕ} :
    (∃ d ∈ (List.range deviceCount.toNat).foldl (emplace deviceCount) [], d.toNat = i) ↔
      i < deviceCount.toNat := by
  simp only [mem_foldl_emplace, List.not_mem_nil, false_or, List.mem_range, and_self]
  constructor
  · intro h
    obtain ⟨d, h, rfl⟩ := h
    exact h
  · intro hlt
    have hcount := deviceCount.toNat_lt
    have hnat : (UInt32.ofNat i).toNat = i := by
      rw [UInt32.toNat_ofNat', Nat.mod_eq_of_lt (by omega)]
    exact ⟨UInt32.ofNat i, by rw [hnat]; exact hlt, hnat⟩

theorem items_eq_nil (hinput : Separated delimiters.contains (items.map Item.text) []) :
    items = [] := by
  have h := tokens_of_separated hinput
  rw [tokens_nil] at h
  exact List.map_eq_nil_iff.mp h.symm

theorem not_agrees_of_break
    (hinput : Separated delimiters.contains (items.map Item.text) input)
    (hbreak : ¬ (10 ∉ input ∧ 13 ∉ input)) :
    ¬ Agrees Common.delimit deviceCount label overflow input := by
  intro ⟨devices, _, _, hdevices, _⟩
  by_cases hfeed : 10 ∈ input
  · exact deviceList_of_break hinput hfeed (Or.inl rfl) devices hdevices
  · have hreturn : 13 ∈ input := by
      by_contra h
      exact hbreak ⟨hfeed, h⟩
    exact deviceList_of_break hinput hreturn (Or.inr rfl) devices hdevices

theorem agrees_nil_iff (hinput : Separated delimiters.contains ([].map Item.text) []) :
    Agrees Common.delimit deviceCount label overflow [] ↔ deviceCount = 0 := by
  obtain ⟨fuel, values, hvalues, hmem⟩ := @parseNumericRange_items [] [] overflow 1 label
    (by decide) (fun item h => absurd h List.not_mem_nil) hinput
  rw [agrees_iff_of_ok rfl hvalues]
  simp only [mem_deviceList_nil, hmem, List.not_mem_nil, false_and, exists_false, and_false,
    iff_false]
  rw [← UInt32.toNat_inj]
  constructor
  · intro h
    exact Nat.eq_zero_of_not_pos (h 0)
  · intro h i
    rw [h]
    exact Nat.not_lt_zero i

theorem agrees_iff_of_text (hitems : ∀ item ∈ items, IsPlain item ∧ item.Bounded)
    (hinput : Separated delimiters.contains (items.map Item.text) input) (hne : input ≠ [])
    (hbreak : 10 ∉ input ∧ 13 ∉ input) :
    Agrees Common.delimit deviceCount label overflow input ↔ UppersEnabled deviceCount items := by
  obtain ⟨fuel, values, hvalues, hmem⟩ := @parseNumericRange_items items input overflow 1 label
    (by decide) (fun item h => (hitems item h).2) hinput
  obtain ⟨devices, hdevices, hmem'⟩ :=
    @deviceList_items deviceCount input items hitems hinput hne hbreak
  have hdenotes {item : Item} (h : item ∈ items) {i : ℕ} :=
    @denotes_iff item (hitems item h).1 (hitems item h).2 i
  rw [agrees_iff_of_ok hdevices hvalues]
  simp only [hmem', hmem]
  constructor
  · intro hsame first last hrange hlt
    have hlast : ∃ item ∈ items, item.Denotes 1 (last.value : ℤ) :=
      ⟨_, hrange, (hdenotes hrange).mpr (Or.inr ⟨first, last, rfl, rfl⟩)⟩
    exact ((hsame last.value).mpr ⟨hlt, hlast⟩).2
  · intro huppers i
    refine and_congr_right fun hlt => ?_
    constructor
    · intro ⟨item, hitem, henables⟩
      exact ⟨item, hitem, (hdenotes hitem).mpr (Or.inl henables)⟩
    · intro ⟨item, hitem, h⟩
      rcases (hdenotes hitem).mp h with henables | ⟨first, last, rfl, rfl⟩
      · exact ⟨item, hitem, henables⟩
      · exact huppers first last hitem hlt

end Agreement

/-- The devices agree with the common syntax exactly if the specification is not empty, has
no line break, and no range leaves out its last number. -/
theorem agrees_iff_uppersEnabled (delimit : List UInt8 → List UInt8 → List (List UInt8))
    (hdelimit : delimit = Common.delimit) (deviceCount : UInt32) (label : List UInt8)
    (overflow : Overflow) (items : List Item)
    (hitems : ∀ item ∈ items, IsPlain item ∧ item.Bounded) (input : List UInt8)
    (hinput : Separated delimiters.contains (items.map Item.text) input) :
    Agrees delimit deviceCount label overflow input ↔
      (input = [] → deviceCount = 0) ∧ (10 ∉ input ∧ 13 ∉ input) ∧
        UppersEnabled deviceCount items := by
  subst hdelimit
  by_cases hbreak : 10 ∉ input ∧ 13 ∉ input
  · rw [and_iff_right hbreak]
    by_cases hnil : input = []
    · subst hnil
      have hitems' := items_eq_nil hinput
      subst hitems'
      have huppers : UppersEnabled deviceCount [] :=
        fun first last h => absurd h List.not_mem_nil
      rw [agrees_nil_iff hinput, and_iff_left huppers]
      exact ⟨fun h _ => h, fun h => h rfl⟩
    · rw [agrees_iff_of_text hitems hinput hnil hbreak, and_iff_right fun h => absurd h hnil]
  · exact iff_of_false (not_agrees_of_break hinput hbreak) fun h => hbreak h.2.1

def zero : Digits := .one 48 rfl
def two : Digits := .one 50 rfl

/-- The text `0-2,2`. -/
def lastTwice : List UInt8 := [48, 45, 50, 44, 50]

theorem agrees_iff_uppersEnabled_lastTwice :
    Agrees Common.delimit 3 [] .wraps lastTwice ↔
      (lastTwice = [] → (3 : UInt32) = 0) ∧ (10 ∉ lastTwice ∧ 13 ∉ lastTwice) ∧
        UppersEnabled 3 [.range zero two, .single two] := by
  refine agrees_iff_uppersEnabled Common.delimit rfl 3 [] .wraps [.range zero two, .single two]
    (fun item hitem => ?_) lastTwice ?_
  · rcases List.mem_pair.mp hitem with rfl | rfl
    · exact ⟨trivial, by decide, by decide⟩
    · refine ⟨trivial, ?_⟩
      show two.value < 2 ^ 63
      decide
  · exact .token (isToken_item (.range zero two)) rfl (.last (isToken_item (.single two)))

/-- The text `0-2`: of three devices the last is left out. -/
theorem not_agrees_threeDevices :
    ¬ Agrees Common.delimit 3 [] .wraps [48, 45, 50] := by
  have hdevices : deviceList Common.delimit 3 [48, 45, 50] = .ok [0, 1] := by
    rw [Common.delimit_eq]
    decide
  have hvalues : parseNumericRange Common.delimit [] 1 .wraps 4 [48, 45, 50] =
      some (.ok [0, 1, 2]) := by
    rw [Common.delimit_eq]
    rfl
  rw [agrees_iff_of_ok hdevices hvalues]
  intro hsame
  obtain ⟨d, hd, heq⟩ := (hsame 2).mpr ⟨by decide, 2, by decide, rfl⟩
  rcases List.mem_pair.mp hd with rfl | rfl
  · exact absurd heq (by decide)
  · exact absurd heq (by decide)

end AmdSmi
end Gpu
end Rocprofsys
