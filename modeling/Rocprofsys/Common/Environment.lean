import Mathlib.Data.Finset.Insert
import Rocprofsys.Base.Pieces

namespace Rocprofsys
namespace Common

open Base

/-! ## C strings -/

/-- A `char` in front of the terminator. -/
abbrev CChar := {b : UInt8 // b ≠ 0}

abbrev CString := List CChar

/-- The characters of a literal. -/
def literal (text : String) : CString :=
  text.toUTF8.toList.filterMap fun b => if h : b ≠ 0 then some ⟨b, h⟩ else none

def equalsSign : CChar := ⟨61, by decide⟩

/-- `join` of two strings.  The delimiter is first put in front of both. -/
def join (delim first second : CString) : CString :=
  let ret := delim ++ first ++ (delim ++ second)
  if ret.length > delim.length then ret.drop delim.length else []

theorem join_eq (delim first second : CString) :
    join delim first second = first ++ delim ++ second := by
  unfold join
  simp only [List.append_assoc, List.drop_left]
  split
  · rfl
  · rename_i hshort
    rw [List.length_append] at hshort
    exact (List.eq_nil_of_length_eq_zero (by omega)).symm

/-! ## Entries of an environment -/

inductive UpdateMode where
  | replace
  | prepend
  | append
  | weak
  deriving DecidableEq

/-- What the entries of a variable start with. -/
def key (envVar : CString) : CString := join [] envVar [equalsSign]

theorem key_eq (envVar : CString) : key envVar = envVar ++ [equalsSign] := by
  rw [key, join_eq, List.append_nil]

/-- `update_env` of an entry whose key matches. -/
def updateEntry (originalEnvs : List CString) (mode : UpdateMode)
    (joinDelim envVar envVal itr : CString) : CString :=
  match mode with
  | .weak => if itr ∉ originalEnvs then itr else join [equalsSign] envVar envVal
  | .prepend =>
    if find envVal itr = none then
      let val := itr.drop (key envVar).length
      join [equalsSign] envVar (join joinDelim envVal val)
    else itr
  | .append =>
    if find envVal itr = none then
      let val := itr.drop (key envVar).length
      join [equalsSign] envVar (join joinDelim val envVal)
    else itr
  | .replace => join [equalsSign] envVar envVal

/-- The loop of `update_env` over the entries, some of them null. -/
def updateEnviron (originalEnvs : List CString) (mode : UpdateMode)
    (joinDelim envVar envVal : CString) : List (Option CString) → List (Option CString)
  | [] => [some (join [equalsSign] envVar envVal)]
  | none :: environ =>
    none :: updateEnviron originalEnvs mode joinDelim envVar envVal environ
  | some itr :: environ =>
    if find (key envVar) itr ≠ some 0 then
      some itr :: updateEnviron originalEnvs mode joinDelim envVar envVal environ
    else some (updateEntry originalEnvs mode joinDelim envVar envVal itr) :: environ

/-- What `update_env` changes. -/
structure Environment where
  environ : List (Option CString)
  updatedEnvs : Finset CString

/-- `update_env`.  The value is what `to_env_string` makes of the argument. -/
def updateEnv (originalEnvs : List CString) (mode : UpdateMode)
    (joinDelim envVar envVal : CString) (s : Environment) : Environment where
  environ := updateEnviron originalEnvs mode joinDelim envVar envVal s.environ
  updatedEnvs := insert envVar s.updatedEnvs

/-- `remove_env`.  The original entries come in the order of the set's iteration. -/
def removeEnv (originalEnvs : List CString) (envVar : CString) (environ : List (Option CString)) :
    List (Option CString) :=
  let matches' := fun itr : CString => decide (find (key envVar) itr = some 0)
  let freed := environ.map fun itr => itr.filter (! matches' ·)
  freed.filter Option.isSome ++ (originalEnvs.filter matches').map some

/-! ## Lookup -/

/-- The entry is one of the variable. -/
def isEntryOf (envVar : CString) (entry : Option CString) : Bool :=
  entry.any (key envVar).isPrefixOf

/-- The value of a variable: what follows the key in its first entry. -/
def lookup (envVar : CString) (environ : List (Option CString)) : Option CString :=
  (environ.find? (isEntryOf envVar)).join.map (·.drop (key envVar).length)

variable {originalEnvs : List CString} {mode : UpdateMode} {joinDelim envVar envVal old : CString}
  {front back environ : List (Option CString)}

theorem find_key_iff {itr : CString} :
    find (key envVar) itr = some 0 ↔ isEntryOf envVar (some itr) = true := by
  rw [find_eq_zero_iff, ← List.isPrefixOf_iff_prefix]
  exact Iff.rfl

theorem isEntryOf_key_append (envVar old : CString) :
    isEntryOf envVar (some (key envVar ++ old)) = true :=
  List.isPrefixOf_iff_prefix.mpr (List.prefix_append _ _)

/-- An environment has no entry of the variable, or one behind entries of others. -/
theorem environ_cases (envVar : CString) (environ : List (Option CString)) :
    (∀ entry ∈ environ, isEntryOf envVar entry = false) ∨
      ∃ front old back, environ = front ++ some (key envVar ++ old) :: back ∧
        ∀ entry ∈ front, isEntryOf envVar entry = false := by
  induction environ with
  | nil => exact Or.inl fun entry hentry => absurd hentry List.not_mem_nil
  | cons entry environ ih =>
    cases hentry : isEntryOf envVar entry with
    | true =>
      cases entry with
      | none => cases hentry
      | some itr =>
        obtain ⟨old, hold⟩ := List.isPrefixOf_iff_prefix.mp hentry
        exact Or.inr ⟨[], old, environ, by rw [hold]; rfl,
          fun entry hmem => absurd hmem List.not_mem_nil⟩
    | false =>
      rcases ih with hnone | ⟨front, old, back, heq, hfront⟩
      · exact Or.inl (List.forall_mem_cons.mpr ⟨hentry, hnone⟩)
      · exact Or.inr ⟨entry :: front, old, back, by rw [heq]; rfl,
          List.forall_mem_cons.mpr ⟨hentry, hfront⟩⟩

theorem lookup_of_none (h : ∀ entry ∈ environ, isEntryOf envVar entry = false) :
    lookup envVar environ = none := by
  have hfind : environ.find? (isEntryOf envVar) = none := by
    rw [List.find?_eq_none]
    intro entry hentry
    simp [h entry hentry]
  rw [lookup, hfind]
  rfl

theorem lookup_append (h : ∀ entry ∈ front, isEntryOf envVar entry = false)
    (old : CString) (back : List (Option CString)) :
    lookup envVar (front ++ some (key envVar ++ old) :: back) = some old := by
  have hfront : front.find? (isEntryOf envVar) = none := by
    rw [List.find?_eq_none]
    intro entry hentry
    simp [h entry hentry]
  rw [lookup, List.find?_append, hfront, Option.none_or,
    List.find?_cons_of_pos (isEntryOf_key_append envVar old)]
  simp

theorem findIdx_append (h : ∀ entry ∈ front, isEntryOf envVar entry = false)
    (old : CString) (back : List (Option CString)) :
    (front ++ some (key envVar ++ old) :: back).findIdx (isEntryOf envVar) = front.length := by
  induction front with
  | nil => rw [List.nil_append, List.findIdx_cons, isEntryOf_key_append]; rfl
  | cons entry front ih =>
    obtain ⟨hentry, hfront⟩ := List.forall_mem_cons.mp h
    rw [List.cons_append, List.findIdx_cons, hentry, ih hfront]
    rfl

/-- Entries of other variables are passed over. -/
theorem updateEnviron_append (h : ∀ entry ∈ front, isEntryOf envVar entry = false)
    (back : List (Option CString)) :
    updateEnviron originalEnvs mode joinDelim envVar envVal (front ++ back) =
      front ++ updateEnviron originalEnvs mode joinDelim envVar envVal back := by
  induction front with
  | nil => rfl
  | cons entry front ih =>
    obtain ⟨hentry, hfront⟩ := List.forall_mem_cons.mp h
    cases entry with
    | none => rw [List.cons_append, updateEnviron, ih hfront, List.cons_append]
    | some itr =>
      have hkey : find (key envVar) itr ≠ some 0 := by
        intro hkey
        rw [find_key_iff.mp hkey] at hentry
        cases hentry
      rw [List.cons_append, updateEnviron, if_pos hkey, ih hfront, List.cons_append]

/-- A variable without an entry gets one at the end. -/
theorem updateEnviron_of_none (h : ∀ entry ∈ environ, isEntryOf envVar entry = false) :
    updateEnviron originalEnvs mode joinDelim envVar envVal environ =
      environ ++ [some (key envVar ++ envVal)] := by
  have happend := @updateEnviron_append originalEnvs mode joinDelim envVar envVal environ h []
  rwa [List.append_nil, updateEnviron, join_eq, ← key_eq] at happend

/-- Of a variable with entries the first is updated. -/
theorem updateEnviron_of_entry (h : ∀ entry ∈ front, isEntryOf envVar entry = false)
    (old : CString) (back : List (Option CString)) :
    updateEnviron originalEnvs mode joinDelim envVar envVal
        (front ++ some (key envVar ++ old) :: back) =
      front ++
        some (updateEntry originalEnvs mode joinDelim envVar envVal (key envVar ++ old)) ::
          back := by
  have hkey : find (key envVar) (key envVar ++ old) = some 0 :=
    find_key_iff.mpr (isEntryOf_key_append envVar old)
  rw [updateEnviron_append h, updateEnviron, if_neg (not_not_intro hkey)]

/-- `remove_env` keeps the entries of other variables in their order and puts the original
ones of the variable behind them. -/
theorem removeEnv_eq (originalEnvs : List CString) (envVar : CString)
    (environ : List (Option CString)) :
    removeEnv originalEnvs envVar environ =
      environ.filter (fun entry => entry.isSome && ! isEntryOf envVar entry) ++
        (originalEnvs.map some).filter (isEntryOf envVar) := by
  have hmatch : ∀ itr : CString,
      decide (find (key envVar) itr = some 0) = isEntryOf envVar (some itr) := by
    intro itr
    rw [Bool.eq_iff_iff, decide_eq_true_iff]
    exact find_key_iff
  unfold removeEnv
  simp only [hmatch]
  congr 1
  · induction environ with
    | nil => rfl
    | cons entry environ ih =>
      cases entry with
      | none => exact ih
      | some itr =>
        cases hentry : isEntryOf envVar (some itr) with
        | true => simp [hentry, ih]
        | false => simp [hentry, ih]
  · rw [List.filter_map]
    rfl

end Common
end Rocprofsys
