import Rocprofsys.Base.NearestDouble
import Rocprofsys.TraceCache.SampleType

namespace Rocprofsys
namespace CpuFreq

open Base
open TraceCache

/-! ## Registered counters -/

/-- `units::megabyte` and `units::sec`, which the repository does not define.  A sample counts
bytes and nanoseconds. -/
structure Units where
  megabyte : Int64
  sec : Int64
  one_lt_megabyte : 1 < megabyte.toInt
  one_lt_sec : 1 < sec.toInt

/-- The counters of a process, by category. -/
inductive Counter where
  | processPage
  | processVirt
  | processPeak
  | processContextSwitch
  | processPageFault
  | processUserModeTime
  | processKernelModeTime
  deriving DecidableEq, Repr

/-- The unit that `metadata_initialize_cpu_freq_pmc` registers. -/
def Counter.unit : Counter → String
  | .processPage => "MB"
  | .processVirt => "MB"
  | .processPeak => "MB"
  | .processContextSwitch => ""
  | .processPageFault => ""
  | .processUserModeTime => "sec"
  | .processKernelModeTime => "sec"

/-! ## The writers

A writer gives the counters of a sample with the values that it hands on for them.  Doubles and
integers both stand for the numbers they are. -/

/-- `static_cast<double>` of an `int64_t`. -/
def toDouble (n : Int64) : ℚ := nearestDouble n.toInt

/-- `rocpd_processor_t::handle`. -/
def rocpdHandle (sample : CpuFreqSample) : List (Counter × ℚ) :=
  [(.processPage, toDouble sample.pageRss),
    (.processVirt, toDouble sample.virtMemUsage),
    (.processPeak, toDouble sample.peakRss),
    (.processContextSwitch, toDouble sample.contextSwitchCount),
    (.processPageFault, toDouble sample.pageFaults),
    (.processUserModeTime, toDouble sample.userModeTime),
    (.processKernelModeTime, toDouble sample.kernelModeTime)]

/-- `perfetto_processor_t::handle`, dividing doubles. -/
def perfettoHandle (units : Units) (sample : CpuFreqSample) : List (Counter × ℚ) :=
  let scaled (n unit : Int64) := nearestDouble (toDouble n / toDouble unit)
  [(.processPage, scaled sample.pageRss units.megabyte),
    (.processVirt, scaled sample.virtMemUsage units.megabyte),
    (.processPeak, scaled sample.peakRss units.megabyte),
    (.processContextSwitch, toDouble sample.contextSwitchCount),
    (.processPageFault, toDouble sample.pageFaults),
    (.processUserModeTime, scaled sample.userModeTime units.sec),
    (.processKernelModeTime, scaled sample.kernelModeTime units.sec)]

/-- `post_process`, dividing integers.  The counts become `uint64_t`. -/
def postProcess (units : Units) (sample : CpuFreqSample) : List (Counter × ℚ) :=
  let page := toDouble (sample.pageRss / units.megabyte)
  let virt := toDouble (sample.virtMemUsage / units.megabyte)
  let peak := toDouble (sample.peakRss / units.megabyte)
  let cntx := sample.contextSwitchCount.toUInt64
  let flts := sample.pageFaults.toUInt64
  let user := toDouble (sample.userModeTime / units.sec)
  let kern := toDouble (sample.kernelModeTime / units.sec)
  [(.processPage, page),
    (.processVirt, virt),
    (.processPeak, peak),
    (.processContextSwitch, cntx.toNat),
    (.processPageFault, flts.toNat),
    (.processUserModeTime, user),
    (.processKernelModeTime, kern)]

/-! ## What the values mean -/

/-- What was sampled for a counter. -/
def Counter.sampled (sample : CpuFreqSample) : Counter → Int64
  | .processPage => sample.pageRss
  | .processVirt => sample.virtMemUsage
  | .processPeak => sample.peakRss
  | .processContextSwitch => sample.contextSwitchCount
  | .processPageFault => sample.pageFaults
  | .processUserModeTime => sample.userModeTime
  | .processKernelModeTime => sample.kernelModeTime

/-- How much of what is sampled makes one of a registered unit. -/
def Units.scale (units : Units) : String → Int
  | "MB" => units.megabyte.toInt
  | "sec" => units.sec.toInt
  | _ => 1

/-- The number that a counter has in its registered unit. -/
def quantity (units : Units) (sample : CpuFreqSample) (counter : Counter) : ℚ :=
  (counter.sampled sample).toInt / units.scale counter.unit

/-- A value is a number up to the rounding of a few operations on doubles. -/
def Within (number value : ℚ) : Prop := |value - number| ≤ |number| * (4 / 2 ^ 53)

/-- One value for each counter, and each the counter's number in its registered unit. -/
structure Denotes (units : Units) (sample : CpuFreqSample) (values : List (Counter × ℚ)) :
    Prop where
  counters : values.map Prod.fst =
    [.processPage, .processVirt, .processPeak, .processContextSwitch, .processPageFault,
      .processUserModeTime, .processKernelModeTime]
  within : ∀ entry ∈ values, Within (quantity units sample entry.1) entry.2

/-- The three writers say the same of a sample. -/
structure WritersAgree (units : Units) (sample : CpuFreqSample) : Prop where
  rocpd : Denotes units sample (rocpdHandle sample)
  perfetto : Denotes units sample (perfettoHandle units sample)
  direct : Denotes units sample (postProcess units sample)

/-! ## Single values -/

section Values

variable {n unit : Int64}

theorem cast_toInt_eq_zero_iff : (n.toInt : ℚ) = 0 ↔ n = 0 := by
  rw [Int.cast_eq_zero, ← Int64.toInt_zero, Int64.toInt_inj]

theorem zero_or_one_le (n : Int64) : (n.toInt : ℚ) = 0 ∨ 1 ≤ |(n.toInt : ℚ)| := by
  by_cases h : n.toInt = 0
  · exact Or.inl (by rw [h, Int.cast_zero])
  · refine Or.inr ?_
    exact_mod_cast Int.one_le_abs h

theorem exists_toDouble_eq (n : Int64) :
    ∃ δ : ℚ, |δ| ≤ 1 / 2 ^ 53 ∧ toDouble n = n.toInt * (1 + δ) := by
  have hsmall : (2 : ℚ) ^ (-1022 : ℤ) ≤ 1 :=
    zpow_le_one_of_nonpos₀ (by norm_num) (by norm_num)
  exact exists_nearestDouble_eq ((zero_or_one_le n).imp_right hsmall.trans)

@[simp] theorem toDouble_zero : toDouble 0 = 0 := by
  rw [toDouble, Int64.toInt_zero, Int.cast_zero, nearestDouble_zero]

/-- The value is right without a unit. -/
theorem within_toDouble (n : Int64) : Within (n.toInt / (1 : Int)) (toDouble n) := by
  obtain ⟨δ, hδ, hvalue⟩ := exists_toDouble_eq n
  have herror : (n.toInt : ℚ) * (1 + δ) - n.toInt = n.toInt * δ := by ring
  rw [Within, hvalue, Int.cast_one, div_one, herror, abs_mul]
  exact mul_le_mul_of_nonneg_left (hδ.trans (by norm_num)) (abs_nonneg _)

/-- What is not divided is too much, but for zero. -/
theorem within_toDouble_iff (hunit : 1 < unit.toInt) :
    Within (n.toInt / unit.toInt) (toDouble n) ↔ n = 0 := by
  constructor
  · intro h
    rw [← cast_toInt_eq_zero_iff]
    by_contra hzero
    obtain ⟨δ, hδ, hvalue⟩ := exists_toDouble_eq n
    have hn : 0 < |(n.toInt : ℚ)| := abs_pos.mpr hzero
    have hinv : (1 : ℚ) / unit.toInt ≤ 1 / 2 :=
      one_div_le_one_div_of_le (by norm_num) (by exact_mod_cast hunit)
    have hinvNonneg : (0 : ℚ) ≤ 1 / unit.toInt :=
      one_div_nonneg.mpr (by exact_mod_cast (zero_lt_one.trans hunit).le)
    rw [Within, hvalue, div_eq_mul_one_div (n.toInt : ℚ), ← mul_sub, abs_mul, abs_mul, mul_assoc,
      mul_le_mul_iff_right₀ hn, abs_of_nonneg hinvNonneg, abs_le] at h
    rw [abs_le] at hδ
    linarith [h.2]
  · intro h
    rw [h, Within, toDouble_zero, Int64.toInt_zero, Int.cast_zero, zero_div]
    norm_num

/-- Doubles divide up to rounding. -/
theorem within_div (n : Int64) (hunit : 1 < unit.toInt) :
    Within (n.toInt / unit.toInt) (nearestDouble (toDouble n / toDouble unit)) := by
  have hle : (1 : ℚ) ≤ unit.toInt := by exact_mod_cast hunit.le
  have hlt : (unit.toInt : ℚ) < 2 ^ 64 := by
    have hword := unit.toInt_lt
    exact_mod_cast hword.trans (by norm_num)
  exact abs_nearestDouble_div_sub_le (zero_or_one_le n) hle hlt

/-- Integers divide to the whole part, which is the number itself only of multiples. -/
theorem within_toDouble_div_iff (hunit : 1 < unit.toInt) (hsmall : n.toInt.natAbs < 2 ^ 51) :
    Within (n.toInt / unit.toInt) (toDouble (n / unit)) ↔ unit.toInt ∣ n.toInt := by
  have hne : unit ≠ -1 := by
    intro h
    rw [h] at hunit
    exact absurd hunit (by decide)
  have hquot : (n / unit).toInt = n.toInt.tdiv unit.toInt := Int64.toInt_div_of_ne_right n unit hne
  have hquotSmall : (n / unit).toInt.natAbs < 2 ^ 53 := by
    have hle := Int.natAbs_tdiv_le_natAbs n.toInt unit.toInt
    rw [hquot]
    omega
  have hexact : (n.toInt : ℚ) = unit.toInt * (n / unit).toInt + n.toInt.tmod unit.toInt := by
    rw [hquot]
    exact_mod_cast (Int.mul_tdiv_add_tmod n.toInt unit.toInt).symm
  have hpos : (0 : ℚ) < unit.toInt := by exact_mod_cast zero_lt_one.trans hunit
  have herror : ((n / unit).toInt : ℚ) - n.toInt / unit.toInt =
      -(n.toInt.tmod unit.toInt / unit.toInt) := by
    field_simp
    linarith
  have hwithin : Within (n.toInt / unit.toInt) (toDouble (n / unit)) ↔
      (n.toInt.tmod unit.toInt).natAbs * 2 ^ 51 ≤ n.toInt.natAbs := by
    rw [Within, toDouble, nearestDouble_intCast hquotSmall, herror, abs_neg, abs_div, abs_div,
      abs_of_pos hpos, div_mul_eq_mul_div, div_le_div_iff_of_pos_right hpos,
      show (4 : ℚ) / 2 ^ 53 = 1 / 2 ^ 51 by norm_num, mul_one_div, le_div_iff₀ (by norm_num),
      ← Int.cast_abs, ← Int.cast_abs, Int.abs_eq_natAbs, Int.abs_eq_natAbs]
    exact_mod_cast Iff.rfl
  rw [hwithin, Int.dvd_iff_tmod_eq_zero]
  omega

theorem toNat_toUInt64_eq (n : Int64) :
    (n.toUInt64.toNat : Int) = if 0 ≤ n.toInt then n.toInt else n.toInt + 2 ^ 64 := by
  have hint : n.toInt = if 2 * n.toUInt64.toNat < 2 ^ 64 then (n.toUInt64.toNat : Int)
      else (n.toUInt64.toNat : Int) - (2 ^ 64 : Nat) := BitVec.toInt_eq_toNat_cond n.toBitVec
  have hlt := n.toUInt64.toNat_lt
  split_ifs at hint ⊢ <;> omega

/-- A count keeps its number as `uint64_t` unless it is negative. -/
theorem within_toUInt64_iff : Within (n.toInt / (1 : Int)) n.toUInt64.toNat ↔ 0 ≤ n := by
  have hcast : (n.toUInt64.toNat : ℚ) = ((n.toUInt64.toNat : Int) : ℚ) := (Int.cast_natCast _).symm
  rw [Within, Int.cast_one, div_one, Int64.le_iff_toInt_le, Int64.toInt_zero, hcast,
    toNat_toUInt64_eq]
  split_ifs with hnonneg
  · rw [sub_self, abs_zero]
    exact iff_of_true (by positivity) hnonneg
  · refine iff_of_false (fun h => ?_) hnonneg
    have hle : |(n.toInt : ℚ)| ≤ 2 ^ 63 := by
      have hmin := n.le_toInt
      rw [abs_le]
      constructor
      · exact_mod_cast hmin
      · exact_mod_cast n.toInt_lt.le
    rw [Int.cast_add, add_sub_cancel_left] at h
    norm_num at h hle
    linarith

end Values

/-! ## When the writers agree -/

/-- Nothing was sampled that has to be divided. -/
structure Unscaled (sample : CpuFreqSample) : Prop where
  pageRss : sample.pageRss = 0
  virtMemUsage : sample.virtMemUsage = 0
  peakRss : sample.peakRss = 0
  userModeTime : sample.userModeTime = 0
  kernelModeTime : sample.kernelModeTime = 0

section Writers

variable (units : Units) (sample : CpuFreqSample)

theorem rocpdHandle_denotes_iff : Denotes units sample (rocpdHandle sample) ↔ Unscaled sample := by
  have hmega := units.one_lt_megabyte
  have hsec := units.one_lt_sec
  constructor
  · intro h
    have hwithin := h.within
    simp only [rocpdHandle, List.forall_mem_cons] at hwithin
    obtain ⟨hpage, hvirt, hpeak, -, -, huser, hkern, -⟩ := hwithin
    exact ⟨(within_toDouble_iff hmega).mp hpage, (within_toDouble_iff hmega).mp hvirt,
      (within_toDouble_iff hmega).mp hpeak, (within_toDouble_iff hsec).mp huser,
      (within_toDouble_iff hsec).mp hkern⟩
  · intro h
    refine ⟨rfl, ?_⟩
    simp only [rocpdHandle, List.forall_mem_cons]
    exact ⟨(within_toDouble_iff hmega).mpr h.pageRss,
      (within_toDouble_iff hmega).mpr h.virtMemUsage, (within_toDouble_iff hmega).mpr h.peakRss,
      within_toDouble _, within_toDouble _, (within_toDouble_iff hsec).mpr h.userModeTime,
      (within_toDouble_iff hsec).mpr h.kernelModeTime, List.forall_mem_nil _⟩

/-- Dividing doubles is right for every sample. -/
theorem perfettoHandle_denotes : Denotes units sample (perfettoHandle units sample) := by
  have hmega := units.one_lt_megabyte
  have hsec := units.one_lt_sec
  refine ⟨rfl, ?_⟩
  simp only [perfettoHandle, List.forall_mem_cons]
  exact ⟨within_div _ hmega, within_div _ hmega, within_div _ hmega, within_toDouble _,
    within_toDouble _, within_div _ hsec, within_div _ hsec, List.forall_mem_nil _⟩

/-- While a double still has all whole parts, dividing integers is right for whole megabytes and
seconds only. -/
theorem postProcess_denotes_iff (hsmall : ∀ counter : Counter, counter.unit ≠ "" →
    (counter.sampled sample).toInt.natAbs < 2 ^ 51) :
    Denotes units sample (postProcess units sample) ↔
      (∀ counter : Counter, units.scale counter.unit ∣ (counter.sampled sample).toInt) ∧
        0 ≤ sample.contextSwitchCount ∧ 0 ≤ sample.pageFaults := by
  have hmega := units.one_lt_megabyte
  have hsec := units.one_lt_sec
  have hpage := within_toDouble_div_iff hmega (hsmall .processPage (by decide))
  have hvirt := within_toDouble_div_iff hmega (hsmall .processVirt (by decide))
  have hpeak := within_toDouble_div_iff hmega (hsmall .processPeak (by decide))
  have huser := within_toDouble_div_iff hsec (hsmall .processUserModeTime (by decide))
  have hkern := within_toDouble_div_iff hsec (hsmall .processKernelModeTime (by decide))
  constructor
  · intro h
    have hwithin := h.within
    simp only [postProcess, List.forall_mem_cons] at hwithin
    obtain ⟨hpageIn, hvirtIn, hpeakIn, hcntxIn, hfltsIn, huserIn, hkernIn, -⟩ := hwithin
    refine ⟨fun counter => ?_, within_toUInt64_iff.mp hcntxIn, within_toUInt64_iff.mp hfltsIn⟩
    cases counter with
    | processPage => exact hpage.mp hpageIn
    | processVirt => exact hvirt.mp hvirtIn
    | processPeak => exact hpeak.mp hpeakIn
    | processContextSwitch => exact one_dvd _
    | processPageFault => exact one_dvd _
    | processUserModeTime => exact huser.mp huserIn
    | processKernelModeTime => exact hkern.mp hkernIn
  · intro ⟨hdvd, hcntx, hflts⟩
    refine ⟨rfl, ?_⟩
    simp only [postProcess, List.forall_mem_cons]
    exact ⟨hpage.mpr (hdvd .processPage), hvirt.mpr (hdvd .processVirt),
      hpeak.mpr (hdvd .processPeak), within_toUInt64_iff.mpr hcntx,
      within_toUInt64_iff.mpr hflts, huser.mpr (hdvd .processUserModeTime),
      hkern.mpr (hdvd .processKernelModeTime), List.forall_mem_nil _⟩

variable {sample} in
theorem Unscaled.sampled_eq_zero (h : Unscaled sample) {counter : Counter}
    (hunit : counter.unit ≠ "") : counter.sampled sample = 0 := by
  cases counter with
  | processPage => exact h.pageRss
  | processVirt => exact h.virtMemUsage
  | processPeak => exact h.peakRss
  | processContextSwitch => exact absurd rfl hunit
  | processPageFault => exact absurd rfl hunit
  | processUserModeTime => exact h.userModeTime
  | processKernelModeTime => exact h.kernelModeTime

variable {sample} in
/-- A sample without anything to divide has whole megabytes and seconds. -/
theorem Unscaled.postProcess_denotes_iff (h : Unscaled sample) :
    Denotes units sample (postProcess units sample) ↔
      0 ≤ sample.contextSwitchCount ∧ 0 ≤ sample.pageFaults := by
  rw [CpuFreq.postProcess_denotes_iff units sample fun counter hunit => by
    rw [h.sampled_eq_zero hunit]; decide]
  refine and_iff_right fun counter => ?_
  by_cases hunit : counter.unit = ""
  · rw [hunit]
    exact one_dvd _
  · rw [h.sampled_eq_zero hunit]
    exact dvd_zero _

/-- The writers agree exactly on samples without memory and times, and with counts that are not
negative: `rocpd_processor_t::handle` does not divide, `post_process` divides integers. -/
theorem writersAgree_iff_unscaled :
    WritersAgree units sample ↔
      Unscaled sample ∧ 0 ≤ sample.contextSwitchCount ∧ 0 ≤ sample.pageFaults := by
  constructor
  · intro ⟨hrocpd, _, hdirect⟩
    have hunscaled := (rocpdHandle_denotes_iff units sample).mp hrocpd
    exact ⟨hunscaled, (hunscaled.postProcess_denotes_iff units).mp hdirect⟩
  · intro ⟨hunscaled, hcounts⟩
    exact ⟨(rocpdHandle_denotes_iff units sample).mpr hunscaled,
      perfettoHandle_denotes units sample, (hunscaled.postProcess_denotes_iff units).mpr hcounts⟩

end Writers

/-- Bytes and nanoseconds. -/
def decimalUnits : Units where
  megabyte := 1000000
  sec := 1000000000
  one_lt_megabyte := by decide
  one_lt_sec := by decide

/-- A process with one megabyte of resident memory. -/
def oneMegabyte : CpuFreqSample where
  timestamp := 0
  pageRss := 1000000
  virtMemUsage := 0
  peakRss := 0
  contextSwitchCount := 0
  pageFaults := 0
  userModeTime := 0
  kernelModeTime := 0
  freqs := ⟨[]⟩

theorem not_writersAgree_oneMegabyte : ¬ WritersAgree decimalUnits oneMegabyte := by
  intro ⟨hrocpd, _, _⟩
  have hpage := hrocpd.within (.processPage, toDouble 1000000) List.mem_cons_self
  have hzero := (within_toDouble_iff decimalUnits.one_lt_megabyte).mp hpage
  exact absurd hzero (by decide)

end CpuFreq
end Rocprofsys
