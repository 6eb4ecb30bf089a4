import Mathlib.Algebra.Order.Ring.Nat
import Mathlib.Data.List.DropRight
import Rocprofsys.Base.LastOf

namespace Rocprofsys
namespace Core

open Base

abbrev Text := List Char

/-! ## Strings -/

/-- A `std::string`, which is no longer than its `max_size`. -/
structure StdString where
  text : Text
  fits : text.length < 2 ^ 63
  deriving DecidableEq

def npos : UInt64 := 0xFFFFFFFFFFFFFFFF

namespace StdString

def length (s : StdString) : UInt64 := UInt64.ofNat s.text.length

def findLastOf (s : StdString) (c : Char) : UInt64 :=
  match lastOf c s.text with
  | some i => UInt64.ofNat i
  | none => npos

/-- `substr` of a position in the string. -/
def substr (s : StdString) (pos count : UInt64) : StdString :=
  ⟨(s.text.drop pos.toNat).take count.toNat, by
    have h := s.fits
    rw [List.length_take, List.length_drop]
    omega⟩

end StdString

/-! ## The name of the output file -/

/-- What `compose_output_filename` is called with. -/
structure ComposeCall where
  name : StdString
  ext : StdString
  useSuffix : Bool
  suffix : Text
  makeDir : Bool
  explicitPath : StdString

/-- What the functions take from elsewhere. -/
structure FilenameSettings where
  useOutputSuffix : Bool
  defaultProcessSuffix : Text
  /-- Of `ROCPROFSYS_PERFETTO_FILE`. -/
  environUpdated : Bool
  configUpdated : Bool
  composeOutputFilename : ComposeCall → Text
  /-- `settings::format`, which also replaces `%env\x7bPWD\x7d%`. -/
  format : Text → Text

def proto : StdString := ⟨['p', 'r', 'o', 't', 'o'], by decide⟩

def emptyString : StdString := ⟨[], by decide⟩

section Filename

variable (settings : FilenameSettings)

/-- What both functions do with the composed name. -/
def absoluteFilename (val : Text) : Text :=
  if val ≠ [] ∧ val.head? ≠ some '/' then settings.format ("%env\x7bPWD\x7d%/".toList ++ val) else val

/-- The pieces of `get_perfetto_output_filename`. -/
def perfettoOutputCall (val : StdString) : ComposeCall :=
  let posDir := val.findLastOf '/'
  let (dir, val) :=
    if posDir ≠ npos then (val.substr 0 (posDir + 1), val.substr (posDir + 1) npos)
    else (emptyString, val)
  let posExt := val.findLastOf '.'
  let (val, ext) :=
    if posExt + 1 < val.length then (val.substr 0 posExt, val.substr (posExt + 1) npos)
    else (val, proto)
  { name := val
    ext := ext
    useSuffix := settings.useOutputSuffix
    suffix := settings.defaultProcessSuffix
    makeDir := false
    explicitPath := dir }

def getPerfettoOutputFilename (val : StdString) : Text :=
  absoluteFilename settings (settings.composeOutputFilename (perfettoOutputCall settings val))

/-- The pieces of `get_perfetto_output_filename_with_suffix`, for a relative name. -/
def perfettoOutputCallWithSuffix (suffix : Text) (val : StdString) : ComposeCall :=
  let posDir := val.findLastOf '/'
  let (dir, val) :=
    if posDir ≠ npos then (val.substr 0 (posDir + 1), val.substr (posDir + 1) npos)
    else (emptyString, val)
  let posExt := val.findLastOf '.'
  let (val, ext) :=
    if posExt + 1 < val.length then (val.substr 0 posExt, val.substr (posExt + 1) npos)
    else (val, proto)
  let explicitlySet := settings.environUpdated || settings.configUpdated
  { name := val
    ext := ext
    useSuffix := !explicitlySet && suffix ≠ []
    suffix := suffix
    makeDir := true
    explicitPath := dir }

def getPerfettoOutputFilenameWithSuffix (suffix : Text) (val : StdString) : Text :=
  if val.text.head? = some '/' then val.text
  else absoluteFilename settings
    (settings.composeOutputFilename (perfettoOutputCallWithSuffix settings suffix val))

end Filename

/-! ## Directory, base name and extension -/

/-- How a name is cut. -/
structure NamePieces where
  dir : Text
  base : Text
  ext : Text
  deriving DecidableEq

def NamePieces.joined (p : NamePieces) : Text := p.dir ++ p.base ++ '.' :: p.ext

def ComposeCall.pieces (c : ComposeCall) : NamePieces := ⟨c.explicitPath.text, c.name.text, c.ext.text⟩

/-- Up to the last slash and with it. -/
def directory (val : Text) : Text := val.rdropWhile (· ≠ '/')

/-- After the last slash. -/
def component (val : Text) : Text := val.rtakeWhile (· ≠ '/')

/-- There is something after the last dot. -/
def HasExtension (component : Text) : Prop :=
  '.' ∈ component ∧ component.rtakeWhile (· ≠ '.') ≠ []

/-- A name with an extension is put together from its pieces; of another one the last component is
the base name, and the extension is the default. -/
structure Splits (val : Text) (pieces : NamePieces) : Prop where
  directory : pieces.dir = directory val
  joined : HasExtension (component val) → pieces.joined = val
  whole : ¬ HasExtension (component val) →
    pieces.base = component val ∧ pieces.ext = proto.text

namespace StdString

variable {s t : StdString} {c : Char} {p q : Text} {n : ℕ}

theorem eq_of_text_eq (h : s.text = t.text) : s = t := by
  cases s
  cases t
  cases h
  rfl

theorem toNat_ofNat_succ (h : n < 2 ^ 63) : (UInt64.ofNat n + 1).toNat = n + 1 := by
  rw [UInt64.toNat_add, UInt64.toNat_ofNat']
  show (n % 2 ^ 64 + 1) % 2 ^ 64 = n + 1
  omega

theorem toNat_length (s : StdString) : s.length.toNat = s.text.length := by
  have h := s.fits
  rw [length, UInt64.toNat_ofNat']
  omega

theorem findLastOf_of_not_mem (h : c ∉ s.text) : s.findLastOf c = npos := by
  rw [findLastOf, lastOf_eq_none h]

theorem findLastOf_cut (h : s.text = p ++ c :: q) (hq : c ∉ q) :
    s.findLastOf c = UInt64.ofNat p.length := by
  rw [findLastOf, h, lastOf_append hq]

theorem length_lt_of_cut (h : s.text = p ++ c :: q) : p.length < 2 ^ 63 := by
  have hfits := s.fits
  rw [h, List.length_append] at hfits
  omega

theorem findLastOf_ne_npos (h : s.text = p ++ c :: q) (hq : c ∉ q) : s.findLastOf c ≠ npos := by
  have hlt := length_lt_of_cut h
  rw [findLastOf_cut h hq]
  intro heq
  have htoNat := congrArg UInt64.toNat heq
  rw [UInt64.toNat_ofNat'] at htoNat
  change p.length % 2 ^ 64 = 2 ^ 64 - 1 at htoNat
  omega

theorem toNat_findLastOf_succ (h : s.text = p ++ c :: q) (hq : c ∉ q) :
    (s.findLastOf c + 1).toNat = p.length + 1 := by
  rw [findLastOf_cut h hq, toNat_ofNat_succ (length_lt_of_cut h)]

/-- Up to a character and with it. -/
theorem substr_through (h : s.text = p ++ c :: q) (hq : c ∉ q) :
    (s.substr 0 (s.findLastOf c + 1)).text = p ++ [c] := by
  show (s.text.drop 0).take (s.findLastOf c + 1).toNat = _
  rw [toNat_findLastOf_succ h hq, h, List.drop_zero, List.append_cons,
    List.take_left' (by rw [List.length_append, List.length_singleton])]

/-- After a character. -/
theorem substr_after (h : s.text = p ++ c :: q) (hq : c ∉ q) :
    (s.substr (s.findLastOf c + 1) npos).text = q := by
  have hfits := s.fits
  show (s.text.drop (s.findLastOf c + 1).toNat).take (2 ^ 64 - 1) = _
  rw [toNat_findLastOf_succ h hq, h, List.take_of_length_le]
  · simp [List.drop_append]
  · rw [List.length_drop, ← h]
    omega

/-- Up to a character. -/
theorem substr_before (h : s.text = p ++ c :: q) (hq : c ∉ q) :
    (s.substr 0 (s.findLastOf c)).text = p := by
  have hlt := length_lt_of_cut h
  show (s.text.drop 0).take (s.findLastOf c).toNat = _
  rw [findLastOf_cut h hq, UInt64.toNat_ofNat', h]
  rw [Nat.mod_eq_of_lt (by omega)]
  simp

end StdString

/-! ## What the functions make of a name -/

section Filename

variable {settings : FilenameSettings} {suffix : Text} {val w : StdString} {p q : Text}

/-- The base name and the extension of the last component. -/
def cutExtension (w : StdString) : StdString × StdString :=
  if w.findLastOf '.' + 1 < w.length then
    (w.substr 0 (w.findLastOf '.'), w.substr (w.findLastOf '.' + 1) npos)
  else (w, proto)

theorem cutExtension_of_dot (h : w.text = p ++ '.' :: q) (hq : '.' ∉ q) (hne : q ≠ []) :
    (cutExtension w).1.text = p ∧ (cutExtension w).2.text = q := by
  have hlt : w.findLastOf '.' + 1 < w.length := by
    have hpos := List.length_pos_iff.mpr hne
    rw [UInt64.lt_iff_toNat_lt, StdString.toNat_findLastOf_succ h hq, StdString.toNat_length, h,
      List.length_append, List.length_cons]
    omega
  rw [cutExtension, if_pos hlt]
  exact ⟨StdString.substr_before h hq, StdString.substr_after h hq⟩

theorem cutExtension_of_trailing (h : w.text = p ++ ['.']) : cutExtension w = (w, proto) := by
  refine if_neg ?_
  rw [UInt64.lt_iff_toNat_lt, StdString.toNat_findLastOf_succ h List.not_mem_nil,
    StdString.toNat_length, h, List.length_append, List.length_singleton]
  omega

/-- Without a dot, the position after it is the first: all of the name is also the extension. -/
theorem cutExtension_of_not_mem (h : '.' ∉ w.text) (hne : w.text ≠ []) :
    cutExtension w = (w, w) := by
  have hnpos : w.findLastOf '.' + 1 = 0 := by
    rw [StdString.findLastOf_of_not_mem h]
    rfl
  have hpos := List.length_pos_iff.mpr hne
  have hfits := w.fits
  have hlt : w.findLastOf '.' + 1 < w.length := by
    rw [hnpos, UInt64.lt_iff_toNat_lt, StdString.toNat_length]
    exact hpos
  have hall : ∀ count : UInt64, w.text.length ≤ count.toNat → w.substr 0 count = w := by
    intro count hcount
    apply StdString.eq_of_text_eq
    exact List.take_of_length_le hcount
  rw [cutExtension, if_pos hlt, StdString.findLastOf_of_not_mem h]
  have hnpos' : w.text.length ≤ npos.toNat := by
    show w.text.length ≤ 2 ^ 64 - 1
    omega
  exact Prod.ext (hall npos hnpos') (hall npos hnpos')

theorem cutExtension_of_nil (h : w.text = []) : cutExtension w = (w, proto) := by
  refine if_neg ?_
  rw [UInt64.lt_iff_toNat_lt, StdString.toNat_length, h]
  exact Nat.not_lt_zero _

/-- The directory and the last component. -/
def cutDirectory (val : StdString) : StdString × StdString :=
  if val.findLastOf '/' ≠ npos then
    (val.substr 0 (val.findLastOf '/' + 1), val.substr (val.findLastOf '/' + 1) npos)
  else (emptyString, val)

theorem cutDirectory_text (val : StdString) :
    (cutDirectory val).1.text = directory val.text ∧
      (cutDirectory val).2.text = component val.text := by
  unfold cutDirectory directory component
  by_cases hslash : '/' ∈ val.text
  · obtain ⟨p, q, hval, hq⟩ := exists_split_last hslash
    rw [if_pos (StdString.findLastOf_ne_npos hval hq), hval, rdropWhile_append_cons hq,
      rtakeWhile_append_cons hq]
    exact ⟨StdString.substr_through hval hq, StdString.substr_after hval hq⟩
  · have hne : ∀ c ∈ val.text, decide (c ≠ '/') = true := fun c hc =>
      decide_eq_true fun heq => hslash (heq ▸ hc)
    rw [if_neg (not_not.mpr (StdString.findLastOf_of_not_mem hslash)),
      List.rdropWhile_eq_nil_iff.mpr hne, List.rtakeWhile_eq_self_iff.mpr hne]
    exact ⟨rfl, rfl⟩

theorem directory_append_component (val : Text) : directory val ++ component val = val :=
  List.rdropWhile_append_rtakeWhile

/-- The pieces of a name. -/
def piecesOf (val : StdString) : NamePieces :=
  ⟨(cutDirectory val).1.text, (cutExtension (cutDirectory val).2).1.text,
    (cutExtension (cutDirectory val).2).2.text⟩

theorem pieces_perfettoOutputCall : (perfettoOutputCall settings val).pieces = piecesOf val := rfl

theorem pieces_perfettoOutputCallWithSuffix :
    (perfettoOutputCallWithSuffix settings suffix val).pieces = piecesOf val := rfl

/-- The last component is empty, has a dot, or is the default extension itself. -/
def Cuttable (component : Text) : Prop :=
  component = [] ∨ '.' ∈ component ∨ component = proto.text

theorem splits_piecesOf_iff (val : StdString) :
    Splits val.text (piecesOf val) ↔ Cuttable (component val.text) := by
  obtain ⟨hdirectory, hcomponent⟩ := cutDirectory_text val
  have hval := directory_append_component val.text
  unfold piecesOf Cuttable
  generalize (cutDirectory val).2 = w at hcomponent
  rw [hdirectory, ← hcomponent]
  rw [← hcomponent] at hval
  by_cases hdot : '.' ∈ w.text
  · refine iff_of_true ?_ (Or.inr (Or.inl hdot))
    obtain ⟨p, q, hw, hq⟩ := exists_split_last hdot
    have hlast : w.text.rtakeWhile (· ≠ '.') = q := by rw [hw, rtakeWhile_append_cons hq]
    by_cases hne : q = []
    · subst hne
      rw [cutExtension_of_trailing hw]
      refine ⟨rfl, ?_, fun _ => ⟨hcomponent, rfl⟩⟩
      intro h
      rw [← hcomponent] at h
      exact absurd hlast h.2
    · obtain ⟨hbase, hext⟩ := cutExtension_of_dot hw hq hne
      rw [hbase, hext]
      refine ⟨rfl, fun _ => ?_, ?_⟩
      · show directory val.text ++ p ++ '.' :: q = val.text
        rw [List.append_assoc, ← hw, hval]
      · intro h
        rw [← hcomponent] at h
        exact absurd ⟨hdot, hlast ▸ hne⟩ h
  · have hplain : ¬ HasExtension (component val.text) := fun h => hdot (hcomponent ▸ h.1)
    by_cases hnil : w.text = []
    · refine iff_of_true ?_ (Or.inl hnil)
      rw [cutExtension_of_nil hnil]
      exact ⟨rfl, fun h => absurd h hplain, fun _ => ⟨hcomponent, rfl⟩⟩
    · rw [cutExtension_of_not_mem hdot hnil]
      constructor
      · intro h
        exact Or.inr (Or.inr (h.whole hplain).2)
      · intro h
        have hproto := (h.resolve_left hnil).resolve_left hdot
        exact ⟨rfl, fun h => absurd h hplain, fun _ => ⟨hcomponent, hproto⟩⟩

/-- Both functions cut a name alike, and as they should exactly if its last component is empty, has
a dot or is the default extension. -/
theorem perfettoOutput_iff (settings : FilenameSettings) (suffix : Text) (val : StdString) :
    ((perfettoOutputCallWithSuffix settings suffix val).pieces =
        (perfettoOutputCall settings val).pieces ∧
      Splits val.text (perfettoOutputCall settings val).pieces) ↔
      Cuttable (component val.text) := by
  rw [pieces_perfettoOutputCall, pieces_perfettoOutputCallWithSuffix, splits_piecesOf_iff]
  exact and_iff_right rfl

/-- Where the pieces are joined, a name with an extension is kept. -/
theorem getPerfettoOutputFilename_of_joined
    (hjoined : ∀ c, settings.composeOutputFilename c = c.pieces.joined)
    (h : HasExtension (component val.text)) :
    getPerfettoOutputFilename settings val = absoluteFilename settings val.text ∧
      (val.text.head? ≠ some '/' → getPerfettoOutputFilenameWithSuffix settings suffix val =
        absoluteFilename settings val.text) := by
  have hsplits := (splits_piecesOf_iff val).mpr (Or.inr (Or.inl h.1))
  refine ⟨?_, fun hrelative => ?_⟩
  · rw [getPerfettoOutputFilename, hjoined, pieces_perfettoOutputCall, hsplits.joined h]
  · rw [getPerfettoOutputFilenameWithSuffix, if_neg hrelative, hjoined,
      pieces_perfettoOutputCallWithSuffix, hsplits.joined h]

def joining : FilenameSettings where
  useOutputSuffix := false
  defaultProcessSuffix := []
  environUpdated := false
  configUpdated := false
  composeOutputFilename c := c.pieces.joined
  format := id

def trace : StdString := ⟨['t', 'r', 'a', 'c', 'e'], by decide⟩

/-- A name without a dot is its own extension, too. -/
theorem not_splits_trace :
    (perfettoOutputCall joining trace).pieces.ext = trace.text ∧
      ¬ Splits trace.text (perfettoOutputCall joining trace).pieces := by
  refine ⟨by decide +kernel, ?_⟩
  intro h
  have hplain : ¬ HasExtension (component trace.text) := fun h => absurd h.1 (by decide +kernel)
  exact absurd (h.whole hplain).2 (by decide +kernel)

end Filename

end Core
end Rocprofsys
