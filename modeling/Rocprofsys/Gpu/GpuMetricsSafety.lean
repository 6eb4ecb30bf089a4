import Rocprofsys.Gpu.GpuMetricsOverflow
import Rocprofsys.Gpu.GpuMetricsReads

namespace Rocprofsys
namespace Gpu

open Base Decoder

/-! ## What the bytes of a vector promise -/

/-- A byte of the header. -/
def headerByte (serializedData : List UInt8) (i : Nat) : UInt8 := serializedData.getD i 0

/-- The header, where the bytes are there. -/
def headerFrom (serializedData : List UInt8) : Header where
  capabilities := ⟨headerByte serializedData 0⟩
  vcnCount := headerByte serializedData 1
  jpegCount := headerByte serializedData 2
  vcnXcpCount := headerByte serializedData 3
  jpegXcpCount := headerByte serializedData 4
  xgmiReadCount := headerByte serializedData 5
  xgmiWriteCount := headerByte serializedData 6

/-- The bytes of the values of an engine. -/
def engineWidth (isEnabled : Bool) (count : UInt8) : Nat :=
  if isEnabled then count.toNat * 2 else 0

def sizesTotal (sizes : List UInt8) : Nat := (sizes.map UInt8.toNat).sum

/-- The XCPs of an engine, if its `available` bytes hold its values, share out no more than
there are. -/
def EngineShares (isEnabled isDeviceLevelOnly : Bool) (count : UInt8) (sizes : List UInt8)
    (available : Nat) : Prop :=
  isEnabled = true → isDeviceLevelOnly = false → 0 < count → count.toNat * 2 ≤ available →
    sizesTotal sizes ≤ count.toNat

/-- The sizes in a vector that is long enough for its header and its sizes fit the counts. -/
def SizesFit (serializedData : List UInt8) (settings : GpuMetricsSettings) : Prop :=
  let header := headerFrom serializedData
  let vcnSizes := serializedData.drop 7
  let jpegSizes := vcnSizes.drop header.vcnXcpCount.toNat
  let values := jpegSizes.drop header.jpegXcpCount.toNat
  7 + header.vcnXcpCount.toNat + header.jpegXcpCount.toNat ≤ serializedData.length →
    EngineShares settings.vcnActivity header.capabilities.vcnIsDeviceLevelOnly header.vcnCount
      (vcnSizes.take header.vcnXcpCount.toNat) values.length ∧
    EngineShares settings.jpegActivity header.capabilities.jpegIsDeviceLevelOnly header.jpegCount
      (jpegSizes.take header.jpegXcpCount.toNat)
      (values.length - engineWidth settings.vcnActivity header.vcnCount)

/-- Only elements of the byte vector and of the flat vectors are read. -/
def ReadsInside (serializedData : List UInt8) (result : GpuMetrics)
    (settings : GpuMetricsSettings) : Prop :=
  readGpuMetrics serializedData result settings ≠ .error .outOfRange

/-! ## Widths -/

theorem unexpectedEnd_ne : unexpectedEnd ≠ .outOfRange := fun h => nomatch h

theorem takes_uint8 : Takes unexpectedEnd 1 deserializeUInt8 where
  enough bs h := by
    cases bs with
    | nil => exact absurd h (by decide)
    | cons b rest => exact ⟨b, rfl⟩
  short bs h := by
    cases bs with
    | nil => rfl
    | cons b rest => exact absurd h (by rw [List.length_cons]; omega)

theorem takes_uint16 : Takes unexpectedEnd 2 deserializeUInt16 where
  enough bs h := by
    match bs, h with
    | b₀ :: b₁ :: rest, _ => exact ⟨b₀.toUInt16 ||| b₁.toUInt16 <<< 8, rfl⟩
  short bs h := by
    match bs, h with
    | [], _ => rfl
    | [_], _ => rfl

theorem takes_uint64 : Takes unexpectedEnd 8 deserializeUInt64 where
  enough bs h := by
    show ∃ a, deserializeUInt64 bs = _
    rw [deserializeUInt64, if_pos (by omega)]
    exact ⟨_, rfl⟩
  short bs h := by
    show deserializeUInt64 bs = _
    rw [deserializeUInt64, if_neg (by omega)]

theorem takes_header : Takes unexpectedEnd 7 deserializeHeader :=
  takes_uint8.bind fun _ => takes_uint8.bind fun _ => takes_uint8.bind fun _ =>
    takes_uint8.bind fun _ => takes_uint8.bind fun _ => takes_uint8.bind fun _ =>
      takes_uint8.bind fun _ => takes_pure _ _

theorem run_header {bs : List UInt8} (h : 7 ≤ bs.length) :
    deserializeHeader.run bs = .ok (headerFrom bs, bs.drop 7) := by
  match bs, h with
  | _ :: _ :: _ :: _ :: _ :: _ :: _ :: _, _ => rfl

theorem run_sizes {n : Nat} {bs : List UInt8} (h : n ≤ bs.length) :
    (deserializeUInt8.times n).run bs = .ok (bs.take n, bs.drop n) := by
  induction n generalizing bs with
  | zero => rfl
  | succ n ih =>
    cases bs with
    | nil => exact absurd h (Nat.not_succ_le_zero n)
    | cons b rest =>
      have hrest := ih (Nat.le_of_succ_le_succ h)
      show (((deserializeUInt8.times n).run rest).bind fun x => _) = _
      rw [hrest]
      rfl

/-! ## The sections without XCPs -/

theorem neverFails_xgmi (isEnabled : Bool) (header : Header) (result : GpuMetrics) :
    NeverFails .outOfRange (deserializeXgmi isEnabled header result) := by
  cases isEnabled with
  | true =>
    exact ((takes_uint16.neverFails unexpectedEnd_ne).bind fun _ =>
      (takes_uint16.neverFails unexpectedEnd_ne).bind fun _ =>
        ((takes_times takes_uint64 _).neverFails unexpectedEnd_ne).bind fun _ =>
          ((takes_times takes_uint64 _).neverFails unexpectedEnd_ne).bind fun _ =>
            neverFails_pure _ _)
  | false => exact neverFails_pure _ _

theorem neverFails_pcie (isEnabled : Bool) (result : GpuMetrics) :
    NeverFails .outOfRange (deserializePcie isEnabled result) := by
  cases isEnabled with
  | true =>
    exact (takes_uint16.neverFails unexpectedEnd_ne).bind fun _ =>
      (takes_uint16.neverFails unexpectedEnd_ne).bind fun _ =>
        (takes_uint64.neverFails unexpectedEnd_ne).bind fun _ =>
          (takes_uint64.neverFails unexpectedEnd_ne).bind fun _ => neverFails_pure _ _
  | false => exact neverFails_pure _ _

/-! ## The section of an engine -/

theorem exists_splitXcps {sizes : List UInt8} {flatData : List UInt16}
    (h : sizesTotal sizes ≤ flatData.length) : ∃ xcps, splitXcps flatData sizes = .ok xcps := by
  induction sizes generalizing flatData with
  | nil => exact ⟨[], rfl⟩
  | cons size sizes ih =>
    rw [sizesTotal, List.map_cons, List.sum_cons] at h
    have hrest : sizesTotal sizes ≤ (flatData.drop size.toNat).length := by
      rw [sizesTotal, List.length_drop]
      omega
    obtain ⟨xcps, hxcps⟩ := ih hrest
    rw [splitXcps, if_pos (by omega), hxcps]
    exact ⟨_, rfl⟩

section Engine

variable {isEnabled isDeviceLevelOnly : Bool} {count : UInt8} {sizes : List UInt8}
  {activity : List UInt16} {busy : List (List UInt16)} {bs : List UInt8}

theorem takes_uint16Vector (count : UInt8) :
    Takes unexpectedEnd (count.toNat * 2) (deserializeUInt16Vector count) :=
  takes_times takes_uint16 count.toNat

theorem length_uint16Vector {flatData : List UInt16} {rest : List UInt8}
    (h : (deserializeUInt16Vector count).run bs = .ok (flatData, rest)) :
    flatData.length = count.toNat :=
  yields_times deserializeUInt16 count.toNat bs flatData rest h

/-- A section that is not empty: its values are there or not, and they are cut up or not. -/
theorem run_engine_of_pos (hcount : 0 < count) :
    (deserializeEngine true isDeviceLevelOnly count sizes activity busy).run bs =
      ((deserializeUInt16Vector count).run bs).bind fun x =>
        if isDeviceLevelOnly then .ok ((x.1, busy), x.2)
        else (splitXcps x.1 sizes).map fun xcps => ((activity, busy ++ xcps), x.2) := by
  rw [deserializeEngine, if_pos (show (true && decide (count > 0)) = true from
    decide_eq_true hcount), run_bind]
  congr 1
  funext x
  cases isDeviceLevelOnly with
  | true => rfl
  | false =>
    show ((Decoder.ofExcept (splitXcps x.1 sizes)).run x.2).bind _ = _
    show ((splitXcps x.1 sizes).map _).bind _ = _
    cases splitXcps x.1 sizes <;> rfl

theorem run_engine_of_zero (hcount : ¬ 0 < count) :
    (deserializeEngine isEnabled isDeviceLevelOnly count sizes activity busy).run bs =
      .ok ((activity, busy), bs) := by
  have hsection : ¬ (isEnabled && decide (count > 0)) = true := by
    rw [Bool.and_eq_true]
    exact fun h => hcount (of_decide_eq_true h.2)
  rw [deserializeEngine, if_neg hsection]
  rfl

theorem toNat_eq_zero (hcount : ¬ 0 < count) : count.toNat = 0 := by
  rw [UInt8.lt_iff_toNat_lt, UInt8.toNat_zero] at hcount
  omega

/-- The section is read and leaves the bytes behind its values, or it has too many XCPs, or it
is cut off. -/
theorem engine_run :
    (EngineShares isEnabled isDeviceLevelOnly count sizes bs.length ∧
      ∃ x rest, (deserializeEngine isEnabled isDeviceLevelOnly count sizes activity busy).run bs =
        .ok (x, rest) ∧ rest.length = bs.length - engineWidth isEnabled count) ∨
    (¬ EngineShares isEnabled isDeviceLevelOnly count sizes bs.length ∧
      (deserializeEngine isEnabled isDeviceLevelOnly count sizes activity busy).run bs =
        .error .outOfRange) ∨
    (EngineShares isEnabled isDeviceLevelOnly count sizes bs.length ∧
      bs.length ≤ engineWidth isEnabled count ∧
      (deserializeEngine isEnabled isDeviceLevelOnly count sizes activity busy).run bs =
        .error unexpectedEnd) := by
  cases isEnabled with
  | false => exact Or.inl ⟨fun h => (nomatch h), _, bs, rfl, rfl⟩
  | true =>
    by_cases hcount : 0 < count
    · rw [run_engine_of_pos hcount]
      by_cases hle : count.toNat * 2 ≤ bs.length
      · obtain ⟨flatData, hrun⟩ := (takes_uint16Vector count).enough bs hle
        have hlength := length_uint16Vector hrun
        rw [hrun]
        cases isDeviceLevelOnly with
        | true => exact Or.inl ⟨fun _ h => (nomatch h), _, _, rfl, List.length_drop⟩
        | false =>
          by_cases hshares : sizesTotal sizes ≤ count.toNat
          · obtain ⟨xcps, hxcps⟩ := exists_splitXcps (hlength.symm ▸ hshares)
            refine Or.inl ⟨fun _ _ _ _ => hshares, (activity, busy ++ xcps),
              bs.drop (count.toNat * 2), ?_, List.length_drop⟩
            show (splitXcps flatData sizes).map _ = _
            rw [hxcps]
            rfl
          · refine Or.inr (Or.inl ⟨fun h => hshares (h rfl rfl hcount hle), ?_⟩)
            show (splitXcps flatData sizes).map _ = _
            rw [splitXcps_of_lt (by rw [hlength]; exact not_le.mp hshares)]
            rfl
      · refine Or.inr (Or.inr ⟨fun _ _ _ h => absurd h hle, (not_le.mp hle).le, ?_⟩)
        rw [(takes_uint16Vector count).short bs (not_le.mp hle)]
        rfl
    · refine Or.inl ⟨fun _ _ h => absurd h hcount, _, bs, run_engine_of_zero hcount, ?_⟩
      show bs.length = bs.length - count.toNat * 2
      rw [toNat_eq_zero hcount, Nat.zero_mul, Nat.sub_zero]

/-- The bytes left for a section behind one that is cut off are none. -/
theorem engineShares_zero : EngineShares isEnabled isDeviceLevelOnly count sizes 0 := by
  intro _ _ hcount hle
  have hpos := UInt8.lt_iff_toNat_lt.mp hcount
  rw [UInt8.toNat_zero] at hpos
  omega

theorem engine_error_iff :
    (deserializeEngine isEnabled isDeviceLevelOnly count sizes activity busy).run bs =
        .error .outOfRange ↔
      ¬ EngineShares isEnabled isDeviceLevelOnly count sizes bs.length := by
  rcases @engine_run isEnabled isDeviceLevelOnly count sizes activity busy bs with
    ⟨hshares, x, rest, hrun, -⟩ | ⟨hshares, hrun⟩ | ⟨hshares, -, hrun⟩
  · rw [hrun]
    refine ⟨fun h => ?_, fun h => absurd hshares h⟩
    cases h
  · exact iff_of_true hrun hshares
  · rw [hrun]
    exact iff_of_false (fun h => unexpectedEnd_ne (Except.error.inj h)) (not_not_intro hshares)

end Engine

/-! ## The whole vector -/

/-- Two engines in a row; the second has the bytes that the first leaves. -/
theorem engines_error_iff {β : Type} {isVcnEnabled isJpegEnabled vcnLevel jpegLevel : Bool}
    {vcnCount jpegCount : UInt8} {vcnSizes jpegSizes : List UInt8}
    {vcnActivity jpegActivity : List UInt16} {vcnBusy jpegBusy : List (List UInt16)}
    {f : List UInt16 × List (List UInt16) → List UInt16 × List (List UInt16) → MetricsDecoder β}
    (hf : ∀ vcn jpeg, NeverFails .outOfRange (f vcn jpeg)) (bs : List UInt8) :
    Decoder.run (do
        let vcn ← deserializeEngine isVcnEnabled vcnLevel vcnCount vcnSizes vcnActivity vcnBusy
        let jpeg ←
          deserializeEngine isJpegEnabled jpegLevel jpegCount jpegSizes jpegActivity jpegBusy
        f vcn jpeg) bs = .error .outOfRange ↔
      ¬ (EngineShares isVcnEnabled vcnLevel vcnCount vcnSizes bs.length ∧
        EngineShares isJpegEnabled jpegLevel jpegCount jpegSizes
          (bs.length - engineWidth isVcnEnabled vcnCount)) := by
  rw [run_bind]
  rcases @engine_run isVcnEnabled vcnLevel vcnCount vcnSizes vcnActivity vcnBusy bs with
    ⟨hshares, x, rest, hrun, hlength⟩ | ⟨hshares, hrun⟩ | ⟨hshares, hshort, hrun⟩
  · rw [hrun, and_iff_right hshares, ← hlength]
    exact (bind_error_iff_of_neverFails (hf x)).trans engine_error_iff
  · rw [hrun]
    exact iff_of_true rfl fun h => hshares h.1
  · rw [hrun, Nat.sub_eq_zero_of_le hshort]
    exact iff_of_false (fun h => unexpectedEnd_ne (Except.error.inj h))
      (not_not_intro ⟨hshares, engineShares_zero⟩)

theorem sections_error_iff {settings : GpuMetricsSettings} {result : GpuMetrics} {header : Header}
    {bs : List UInt8} :
    (deserializeSections settings result header).run bs = .error .outOfRange ↔
      header.vcnXcpCount.toNat + header.jpegXcpCount.toNat ≤ bs.length ∧
      ¬ (EngineShares settings.vcnActivity header.capabilities.vcnIsDeviceLevelOnly
          header.vcnCount (bs.take header.vcnXcpCount.toNat)
          ((bs.drop header.vcnXcpCount.toNat).drop header.jpegXcpCount.toNat).length ∧
        EngineShares settings.jpegActivity header.capabilities.jpegIsDeviceLevelOnly
          header.jpegCount ((bs.drop header.vcnXcpCount.toNat).take header.jpegXcpCount.toNat)
          (((bs.drop header.vcnXcpCount.toNat).drop header.jpegXcpCount.toNat).length -
            engineWidth settings.vcnActivity header.vcnCount)) := by
  by_cases hsizes : header.vcnXcpCount.toNat + header.jpegXcpCount.toNat ≤ bs.length
  · have hvcn : header.vcnXcpCount.toNat ≤ bs.length := by omega
    have hjpeg : header.jpegXcpCount.toNat ≤ (bs.drop header.vcnXcpCount.toNat).length := by
      rw [List.length_drop]
      omega
    rw [and_iff_right hsizes, deserializeSections, run_bind, run_sizes hvcn]
    show Decoder.run (_ >>= _) (bs.drop header.vcnXcpCount.toNat) = _ ↔ _
    rw [run_bind, run_sizes hjpeg]
    show Decoder.run (_ >>= _)
      ((bs.drop header.vcnXcpCount.toNat).drop header.jpegXcpCount.toNat) = _ ↔ _
    exact engines_error_iff (f := fun vcn jpeg => do
      let result ← deserializeXgmi settings.xgmi header
        { result with
          vcnActivity := vcn.1, vcnBusy := vcn.2, jpegActivity := jpeg.1, jpegBusy := jpeg.2 }
      deserializePcie settings.pcie result)
      (fun _ _ => (neverFails_xgmi _ _ _).bind fun _ => neverFails_pcie _ _) _
  · rw [deserializeSections]
    refine iff_of_false (fun h => ?_) fun h => hsizes h.1
    obtain ⟨hvcn, vcnSizes, -, hrest⟩ :=
      ((takes_times takes_uint8 _).bind_error_iff unexpectedEnd_ne).mp h
    obtain ⟨hjpeg, -⟩ := ((takes_times takes_uint8 _).bind_error_iff unexpectedEnd_ne).mp hrest
    rw [List.length_drop] at hjpeg
    omega

theorem map_error_iff {ε α β : Type} {r : Except ε α} {f : α → β} {e : ε} :
    r.map f = .error e ↔ r = .error e := by
  cases r with
  | ok a => exact ⟨fun h => (nomatch h), fun h => (nomatch h)⟩
  | error e' =>
    have hinj : ∀ {γ : Type}, (Except.error e' : Except ε γ) = .error e ↔ e' = e :=
      ⟨Except.error.inj, congrArg _⟩
    exact hinj.trans hinj.symm

/-- The reads stay inside exactly if the sizes of the XCPs fit the counts. -/
theorem readsInside_iff_sizesFit (serializedData : List UInt8) (result : GpuMetrics)
    (settings : GpuMetricsSettings) :
    ReadsInside serializedData result settings ↔ SizesFit serializedData settings := by
  rw [ReadsInside, readGpuMetrics_eq, deserializeGpuMetrics]
  by_cases hheader : 7 ≤ serializedData.length
  · have hne : serializedData.isEmpty = false := by
      rw [List.isEmpty_eq_false_iff]
      intro heq
      subst heq
      exact absurd hheader (by decide)
    have hsections := (@bind_error_iff_of_neverFails _ _ _ _
      (deserializeSections settings result (headerFrom serializedData))
      (fun result => pure (result, (headerFrom serializedData).capabilities))
      (serializedData.drop 7) fun _ => neverFails_pure Failure.outOfRange _).trans sections_error_iff
    rw [hne, if_neg Bool.false_ne_true]
    show Except.map _ (Decoder.run (_ >>= _) serializedData) ≠ _ ↔ _
    rw [run_bind, run_header hheader]
    show Except.map _ (Decoder.run (_ >>= _) (serializedData.drop 7)) ≠ _ ↔ _
    rw [ne_eq, map_error_iff, hsections, not_and, not_not, List.length_drop]
    refine imp_congr_left ?_
    omega
  · refine iff_of_true ?_ fun hsizes => absurd hsizes (by omega)
    cases serializedData with
    | nil =>
      intro h
      cases h
    | cons b rest =>
      show Except.map _ (Decoder.run (_ >>= _) (b :: rest)) ≠ _
      rw [run_bind, takes_header.short (b :: rest) (not_le.mp hheader)]
      exact fun h => unexpectedEnd_ne (Except.error.inj h)

/-- A vector with one value for an XCP of two. -/
theorem not_readsInside_oneValue :
    ¬ ReadsInside [0, 1, 0, 1, 0, 0, 0, 2, 5, 0] {} { xgmi := false, pcie := false } :=
  fun h => h rfl

end Gpu
end Rocprofsys
