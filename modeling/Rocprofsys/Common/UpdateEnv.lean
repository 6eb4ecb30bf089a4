import Rocprofsys.Common.Environment

namespace Rocprofsys
namespace Common

open Base

/-! ## The components of a variable -/

/-- The end of a value at which a component is added. -/
inductive Side where
  | front
  | back

def Side.mode : Side → UpdateMode
  | front => .prepend
  | back => .append

def Side.add (new : CString) (components : List CString) : Side → List CString
  | front => new :: components
  | back => components ++ [new]

/-- A variable that is not set has no components. -/
def components (delim : CString) : Option CString → List CString
  | none => []
  | some value => pieces delim value

variable {originalEnvs : List CString} {side : Side} {joinDelim envVar envVal old : CString}
  {s : Environment}

/-- The new value becomes a component at its end unless it is one already, nothing else in
the environment changes, and a second call changes nothing. -/
structure AddsComponent (originalEnvs : List CString) (side : Side)
    (joinDelim envVar envVal : CString) (s : Environment) : Prop where
  components : components joinDelim (lookup envVar
      (updateEnv originalEnvs side.mode joinDelim envVar envVal s).environ) =
    if envVal ∈ components joinDelim (lookup envVar s.environ) then
      components joinDelim (lookup envVar s.environ)
    else side.add envVal (components joinDelim (lookup envVar s.environ))
  others : ∀ i, i ≠ s.environ.findIdx (isEntryOf envVar) →
    (updateEnv originalEnvs side.mode joinDelim envVar envVal s).environ[i]? = s.environ[i]?
  again : updateEnv originalEnvs side.mode joinDelim envVar envVal
      (updateEnv originalEnvs side.mode joinDelim envVar envVal s) =
    updateEnv originalEnvs side.mode joinDelim envVar envVal s

/-- Written beside the old value the new one is cut off again.  Only for a delimiter of
several characters does the text in front of it matter. -/
def SplitsOff (joinDelim envVal old : CString) : Side → Prop
  | .front => Clean joinDelim envVal
  | .back => Clean joinDelim (lastPiece joinDelim old) ∧ ¬ joinDelim <:+: envVal

/-- With a delimiter of one character the new value splits off if it does not hold it. -/
theorem splitsOff_singleton_iff (delim : CChar) (envVal old : CString) (side : Side) :
    SplitsOff [delim] envVal old side ↔ delim ∉ envVal := by
  have hwithin : ∀ t : CString, [delim] <:+: t ↔ delim ∈ t := fun t =>
    List.singleton_infix_iff delim t
  cases side with
  | front => exact clean_singleton_iff
  | back =>
    have hlast := find_eq_none_iff.mp (find_lastPiece (List.cons_ne_nil delim []) old)
    rw [hwithin] at hlast
    rw [SplitsOff, clean_singleton_iff, hwithin, and_iff_right hlast]

/-- The search for the new value in the whole entry decides as a search among the
components would. -/
def AddedWhole (side : Side) (joinDelim envVar envVal : CString) (s : Environment) : Prop :=
  match lookup envVar s.environ with
  | none => joinDelim = [] ∨ ¬ joinDelim <:+: envVal
  | some old =>
    envVal ∈ pieces joinDelim old ∨
      (¬ envVal <:+: key envVar ++ old ∧ joinDelim ≠ [] ∧ SplitsOff joinDelim envVal old side)

/-- The old value and the new one, joined. -/
def Side.join (joinDelim envVal old : CString) : Side → CString
  | front => envVal ++ joinDelim ++ old
  | back => old ++ joinDelim ++ envVal

theorem infix_join (joinDelim envVal old : CString) (side : Side) :
    envVal <:+: side.join joinDelim envVal old := by
  cases side with
  | front =>
    rw [Side.join, List.append_assoc]
    exact (List.prefix_append _ _).isInfix
  | back => exact (List.suffix_append _ _).isInfix

theorem infix_key_append (envVar : CString) {t value : CString} (h : t <:+: value) :
    t <:+: key envVar ++ value :=
  h.trans (List.suffix_append _ _).isInfix

/-- An entry that holds the new value anywhere stays. -/
theorem updateEntry_of_infix {itr : CString} (h : envVal <:+: itr) :
    updateEntry originalEnvs side.mode joinDelim envVar envVal itr = itr := by
  have hfound : find envVal itr ≠ none := fun hnone => find_eq_none_iff.mp hnone h
  cases side with
  | front => exact if_neg hfound
  | back => exact if_neg hfound

theorem updateEntry_of_not_infix (h : ¬ envVal <:+: key envVar ++ old) :
    updateEntry originalEnvs side.mode joinDelim envVar envVal (key envVar ++ old) =
      key envVar ++ side.join joinDelim envVal old := by
  have hnone := find_eq_none_iff.mpr h
  cases side with
  | front =>
    rw [Side.mode, updateEntry, if_pos hnone, List.drop_left, join_eq, join_eq, ← key_eq]
    rfl
  | back =>
    rw [Side.mode, updateEntry, if_pos hnone, List.drop_left, join_eq, join_eq, ← key_eq]
    rfl

/-- The value an entry is left with. -/
theorem updateEntry_eq (originalEnvs : List CString) (side : Side)
    (joinDelim envVar envVal old : CString) :
    ∃ value, envVal <:+: key envVar ++ value ∧
      updateEntry originalEnvs side.mode joinDelim envVar envVal (key envVar ++ old) =
        key envVar ++ value := by
  by_cases h : envVal <:+: key envVar ++ old
  · exact ⟨old, h, updateEntry_of_infix h⟩
  · exact ⟨side.join joinDelim envVal old, infix_key_append envVar (infix_join _ _ _ _),
      updateEntry_of_not_infix h⟩

theorem updateEnv_others (originalEnvs : List CString) (side : Side)
    (joinDelim envVar envVal : CString) (s : Environment) {i : Nat}
    (hi : i ≠ s.environ.findIdx (isEntryOf envVar)) :
    (updateEnv originalEnvs side.mode joinDelim envVar envVal s).environ[i]? = s.environ[i]? := by
  unfold updateEnv
  rcases environ_cases envVar s.environ with hnone | ⟨front, old, back, heq, hfront⟩
  · have hend : s.environ.findIdx (isEntryOf envVar) = s.environ.length :=
      List.findIdx_eq_length_of_false hnone
    rw [hend] at hi
    simp only [updateEnviron_of_none hnone, List.getElem?_append]
    split
    · rfl
    · rw [List.getElem?_eq_none (by rw [List.length_singleton]; omega),
        List.getElem?_eq_none (by omega)]
  · rw [heq, findIdx_append hfront] at hi
    simp only [heq, updateEnviron_of_entry hfront, List.getElem?_append]
    split
    · rfl
    · obtain ⟨j, hj⟩ : ∃ j, i - front.length = j + 1 := ⟨i - front.length - 1, by omega⟩
      rw [hj, List.getElem?_cons_succ, List.getElem?_cons_succ]

/-- After a call the entry holds the new value, so that a second call leaves it. -/
theorem updateEnv_again (originalEnvs : List CString) (side : Side)
    (joinDelim envVar envVal : CString) (s : Environment) :
    updateEnv originalEnvs side.mode joinDelim envVar envVal
        (updateEnv originalEnvs side.mode joinDelim envVar envVal s) =
      updateEnv originalEnvs side.mode joinDelim envVar envVal s := by
  unfold updateEnv
  simp only [Finset.insert_idem]
  congr 1
  rcases environ_cases envVar s.environ with hnone | ⟨front, old, back, heq, hfront⟩
  · rw [updateEnviron_of_none hnone, updateEnviron_of_entry hnone,
      updateEntry_of_infix (infix_key_append envVar List.infix_rfl)]
  · obtain ⟨value, hvalue, hentry⟩ := updateEntry_eq originalEnvs side joinDelim envVar envVal old
    rw [heq, updateEnviron_of_entry hfront, hentry, updateEnviron_of_entry hfront,
      updateEntry_of_infix hvalue]

/-- Joined with a delimiter the new value is a component of its own exactly if it splits
off. -/
theorem pieces_join_iff (joinDelim envVal old : CString) (side : Side) :
    pieces joinDelim (side.join joinDelim envVal old) =
        side.add envVal (pieces joinDelim old) ↔
      joinDelim ≠ [] ∧ SplitsOff joinDelim envVal old side := by
  by_cases hne : joinDelim = []
  · -- an empty delimiter leaves one piece where two are asked for
    constructor
    · intro h
      have hlength := congrArg List.length h
      rw [length_pieces_of_eq_nil hne, pieces_of_eq_nil hne] at hlength
      cases side with
      | front => simp [Side.add] at hlength
      | back => simp [Side.add] at hlength
    · intro h
      exact absurd hne h.1
  · rw [and_iff_right hne]
    cases side with
    | front => exact pieces_prepend_iff hne envVal old
    | back => exact pieces_append_iff hne old envVal

theorem add_ne_self (new : CString) (components : List CString) (side : Side) :
    side.add new components ≠ components := by
  intro h
  have hlength := congrArg List.length h
  cases side with
  | front => simp [Side.add] at hlength
  | back => simp [Side.add] at hlength

/-- `update_env` adds a component as asked exactly if the value is not merely a part of what
the entry holds and can be told apart from what it is joined with. -/
theorem addsComponent_iff (originalEnvs : List CString) (side : Side)
    (joinDelim envVar envVal : CString) (s : Environment) :
    AddsComponent originalEnvs side joinDelim envVar envVal s ↔
      AddedWhole side joinDelim envVar envVal s := by
  have hothers := fun i => @updateEnv_others originalEnvs side joinDelim envVar envVal s i
  have hagain := updateEnv_again originalEnvs side joinDelim envVar envVal s
  suffices hcomponents : components joinDelim (lookup envVar
        (updateEnv originalEnvs side.mode joinDelim envVar envVal s).environ) =
      (if envVal ∈ components joinDelim (lookup envVar s.environ) then
        components joinDelim (lookup envVar s.environ)
      else side.add envVal (components joinDelim (lookup envVar s.environ))) ↔
      AddedWhole side joinDelim envVar envVal s by
    rw [← hcomponents]
    exact ⟨fun h => h.components, fun h => ⟨h, hothers, hagain⟩⟩
  unfold updateEnv AddedWhole
  rcases environ_cases envVar s.environ with hnone | ⟨front, old, back, heq, hfront⟩
  · have hadd : side.add envVal [] = [envVal] := by
      cases side <;> rfl
    simp only [updateEnviron_of_none hnone, lookup_append hnone, lookup_of_none hnone, components,
      List.not_mem_nil, if_false, hadd, pieces_eq_singleton_iff]
  · simp only [heq, updateEnviron_of_entry hfront, lookup_append hfront, components]
    by_cases hmem : envVal ∈ pieces joinDelim old
    · have hwithin := infix_key_append envVar (infix_of_mem_pieces hmem)
      simp only [hmem, if_true, true_or, updateEntry_of_infix hwithin, lookup_append hfront]
    · simp only [hmem, if_false, false_or]
      by_cases hwithin : envVal <:+: key envVar ++ old
      · simp only [hwithin, not_true_eq_false, false_and, iff_false,
          updateEntry_of_infix hwithin, lookup_append hfront]
        exact fun h => add_ne_self _ _ _ h.symm
      · simp only [hwithin, not_false_eq_true, true_and, updateEntry_of_not_infix hwithin,
          lookup_append hfront]
        exact pieces_join_iff joinDelim envVal old side

/-- A directory whose name starts the name of one that is already listed. -/
theorem not_addsComponent_libraryPrefix :
    ¬ AddsComponent [] .back (literal ":") (literal "LD_LIBRARY_PATH") (literal "/usr/lib")
      ⟨[some (literal "LD_LIBRARY_PATH=/usr/lib64")], ∅⟩ := by
  intro h
  have hsame : (updateEnv [] Side.back.mode (literal ":") (literal "LD_LIBRARY_PATH")
      (literal "/usr/lib") ⟨[some (literal "LD_LIBRARY_PATH=/usr/lib64")], ∅⟩).environ =
        [some (literal "LD_LIBRARY_PATH=/usr/lib64")] := by decide +kernel
  have hlookup : lookup (literal "LD_LIBRARY_PATH")
      [some (literal "LD_LIBRARY_PATH=/usr/lib64")] = some (literal "/usr/lib64") := by decide +kernel
  have hpieces : pieces (literal ":") (literal "/usr/lib64") = [literal "/usr/lib64"] :=
    pieces_eq_singleton_iff.mpr (Or.inr (by decide +kernel))
  have hcomponents := h.components
  simp only [hsame, hlookup, components, hpieces] at hcomponents
  rw [if_neg (by decide +kernel)] at hcomponents
  exact add_ne_self _ _ _ hcomponents.symm

end Common
end Rocprofsys
