import Rocprofsys.Base.Grouping
import Rocprofsys.Base.Tokens
import Rocprofsys.Common.Environment

namespace Rocprofsys
namespace Common

open Base

/-! ## The parts of a value -/

/-- `delim` of `consolidate_env_entries`. -/
def colon : CChar := ⟨58, by decide⟩

/-- The parts that `std::getline` reads: what is left after the last delimiter is one only
if it is not empty. -/
def getlines (delim : CChar) : CString → List CString
  | [] => []
  | c :: stream =>
    let part := (c :: stream).takeWhile (· ≠ delim)
    part :: getlines delim (((c :: stream).dropWhile (· ≠ delim)).drop 1)
termination_by stream => stream.length
decreasing_by
  have hle := List.length_dropWhile_le (· ≠ delim) (c :: stream)
  rw [List.length_cons] at hle
  rw [List.length_drop, List.length_cons]
  omega

/-- `key_data`. -/
structure KeyData where
  parts : List CString
  seen : Finset CString
  nodup : parts.Nodup
  mem_seen : ∀ part, part ∈ seen ↔ part ∈ parts

namespace KeyData

def empty : KeyData where
  parts := []
  seen := ∅
  nodup := List.nodup_nil
  mem_seen _ := by simp

/-- `add_unique`. -/
def addUnique (data : KeyData) (part : CString) : KeyData :=
  if h : part ≠ [] ∧ part ∉ data.seen then
    { parts := data.parts ++ [part]
      seen := insert part data.seen
      nodup := by
        refine List.nodup_append.mpr ⟨data.nodup, List.nodup_singleton part, ?_⟩
        intro a ha b hb heq
        rw [List.mem_singleton.mp hb] at heq
        exact h.2 ((data.mem_seen part).mpr (heq ▸ ha))
      mem_seen := by
        intro part'
        rw [Finset.mem_insert, data.mem_seen, List.mem_append, List.mem_singleton, or_comm] }
  else data

end KeyData

/-! ## The entries -/

/-- `parse_entry`. -/
def parseEntry (entry : CString) : Option (CString × CString) :=
  match entry.findIdx? (· = equalsSign) with
  | none => none
  | some eqPos => some (entry.take eqPos, entry.drop (eqPos + 1))

/-- `join_parts`.  Its `reserve` changes nothing that is seen, and for no parts its argument
wraps around to less than what is written. -/
def joinParts (key : CString) (parts : List CString) : CString :=
  parts.foldl (fun acc part =>
    (if some part ≠ parts.head? then acc ++ [colon] else acc) ++ part) (key ++ [equalsSign])

/-- `key_map` and `key_order`. -/
structure KeyTable where
  keyMap : CString → Option KeyData
  keyOrder : List CString

namespace KeyTable

def empty : KeyTable := ⟨fun _ => none, []⟩

def data (table : KeyTable) (key : CString) : KeyData := (table.keyMap key).getD .empty

/-- The loop body for an entry that parses. -/
def add (table : KeyTable) (entry : CString × CString) : KeyTable where
  keyMap := Function.update table.keyMap entry.1
    (some ((getlines colon entry.2).foldl KeyData.addUnique (table.data entry.1)))
  keyOrder :=
    if (table.keyMap entry.1).isNone then table.keyOrder ++ [entry.1] else table.keyOrder

/-- The loop body. -/
def addEntry (table : KeyTable) : Option CString → KeyTable
  | none => table
  | some entry =>
    match parseEntry entry with
    | none => table
    | some parsed => table.add parsed

end KeyTable

def consolidateEnvEntries (envp : List (Option CString)) : List (Option CString) :=
  let table := envp.foldl KeyTable.addEntry .empty
  table.keyOrder.map fun key => some (joinParts key (table.data key).parts)

/-! ## What the entries say -/

/-- Name and value of an entry that has both. -/
def definition (entry : Option CString) : Option (CString × CString) := entry.bind parseEntry

def definitions (envp : List (Option CString)) : List (CString × CString) :=
  envp.filterMap definition

/-- The names in the order of their first occurrence. -/
def names (envp : List (Option CString)) : List CString := keys (definitions envp)

/-- The non-empty components of all entries of a name, each once, in the order of their
first occurrence. -/
def componentsOf (name : CString) (envp : List (Option CString)) : List CString :=
  ((group name (definitions envp)).flatMap (tokens (· = colon))).eraseDups

variable {name value : CString} {parts : List CString} {envp : List (Option CString)}

/-- An entry is a name without equals sign, the first equals sign and the value. -/
theorem parseEntry_eq_some_iff {entry : CString} :
    parseEntry entry = some (name, value) ↔
      equalsSign ∉ name ∧ entry = name ++ equalsSign :: value := by
  unfold parseEntry
  constructor
  · intro h
    cases hfind : entry.findIdx? (· = equalsSign) with
    | none =>
      rw [hfind] at h
      cases h
    | some eqPos =>
      rw [hfind, Option.some.injEq, Prod.mk.injEq] at h
      obtain ⟨rfl, rfl⟩ := h
      obtain ⟨hlt, heq, hbefore⟩ := List.findIdx?_eq_some_iff_getElem.mp hfind
      refine ⟨?_, ?_⟩
      · intro hmem
        obtain ⟨i, hi, hget⟩ := List.getElem_of_mem hmem
        rw [List.length_take] at hi
        rw [List.getElem_take] at hget
        exact hbefore i (by omega) (by rw [hget]; exact decide_eq_true rfl)
      · have hdrop := List.drop_eq_getElem_cons hlt
        rw [of_decide_eq_true heq] at hdrop
        rw [← hdrop, List.take_append_drop]
  · intro ⟨hname, hentry⟩
    have hfront : name.findIdx? (· = equalsSign) = none := by
      rw [List.findIdx?_eq_none_iff]
      intro c hc
      exact decide_eq_false fun heq => hname (heq ▸ hc)
    have hfind : entry.findIdx? (· = equalsSign) = some name.length := by
      rw [hentry, List.findIdx?_append, hfront, List.findIdx?_cons]
      simp
    rw [hfind, hentry]
    simp only [List.take_left, Option.some.injEq, Prod.mk.injEq, true_and]
    rw [← List.drop_drop, List.drop_left, List.drop_succ_cons, List.drop_zero]

/-- The non-empty ones of the parts read are the tokens. -/
theorem filter_getlines (delim : CChar) (stream : CString) :
    (getlines delim stream).filter (! ·.isEmpty) = tokens (· = delim) stream := by
  induction stream using getlines.induct delim with
  | case1 => rw [getlines, tokens_nil, List.filter_nil]
  | case2 c stream ih =>
    simp only [ne_eq, decide_not] at ih
    rw [getlines]
    simp only [ne_eq, decide_not]
    by_cases hc : c = delim
    · have hdelim : decide (c = delim) = true := decide_eq_true hc
      rw [List.filter_cons_of_neg (by simp [hc]), ih, tokens_drop_one,
        List.dropWhile_cons_of_neg (by simp [hc])]
    · have hpart : (! ((c :: stream).takeWhile fun x => ! decide (x = delim)).isEmpty) = true := by
        simp [hc]
      rw [List.filter_cons, if_pos hpart, ih, tokens_drop_one, tokens_cons (by simp [hc])]

theorem KeyData.parts_addUnique (data : KeyData) (part : CString) :
    (data.addUnique part).parts =
      (data.parts ++ [part].filter (! ·.isEmpty)).eraseDups := by
  unfold addUnique
  cases part with
  | nil => simp [eraseDups_of_nodup data.nodup]
  | cons c part =>
    have hfilter : [c :: part].filter (! ·.isEmpty) = [c :: part] := rfl
    rw [hfilter, eraseDups_append_singleton, eraseDups_of_nodup data.nodup]
    by_cases hmem : c :: part ∈ data.parts
    · simp [data.mem_seen, hmem]
    · simp [data.mem_seen, hmem]

theorem KeyData.parts_foldl_addUnique (data : KeyData) (ps : List CString) :
    (ps.foldl KeyData.addUnique data).parts =
      (data.parts ++ ps.filter (! ·.isEmpty)).eraseDups := by
  induction ps generalizing data with
  | nil => simp [eraseDups_of_nodup data.nodup]
  | cons part ps ih =>
    have hdups : (data.addUnique part).parts.eraseDups =
        (data.parts ++ [part].filter (! ·.isEmpty)).eraseDups := by
      rw [KeyData.parts_addUnique, eraseDups_eraseDups]
    rw [List.foldl_cons, ih, eraseDups_append_congr hdups, List.append_assoc, ← List.filter_append,
      List.singleton_append]

theorem intercalate_cons (sep part : CString) (parts : List CString) :
    sep.intercalate (part :: parts) = part ++ parts.flatMap (sep ++ ·) := by
  induction parts generalizing part with
  | nil => simp
  | cons part' parts ih =>
    rw [List.intercalate_cons_cons, ih, List.flatMap_cons, List.append_assoc, List.append_assoc]

/-- Of parts without repetition only the first is not preceded by a delimiter. -/
theorem joinParts_eq (key : CString) (h : parts.Nodup) :
    joinParts key parts = key ++ [equalsSign] ++ [colon].intercalate parts := by
  unfold joinParts
  cases parts with
  | nil => simp
  | cons part parts =>
    have hpart := (List.nodup_cons.mp h).1
    have hothers : ∀ acc : CString, parts.foldl (fun acc part' =>
        (if some part' ≠ (part :: parts).head? then acc ++ [colon] else acc) ++ part') acc =
          acc ++ parts.flatMap ([colon] ++ ·) := by
      rw [List.head?_cons]
      clear h
      induction parts with
      | nil => simp
      | cons part' parts ih =>
        intro acc
        obtain ⟨hne, hrest⟩ := not_or.mp (mt List.mem_cons.mpr hpart)
        have hsome : some part' ≠ some part := fun heq => hne (Option.some.inj heq).symm
        rw [List.foldl_cons, if_pos hsome, ih hrest, List.flatMap_cons]
        simp only [List.append_assoc]
    rw [intercalate_cons, List.foldl_cons, hothers, if_neg (by simp), List.append_assoc]

/-! ## The loop over the entries -/

/-- The table after the entries with these names and values. -/
structure KeyTable.Follows (table : KeyTable) (defs : List (CString × CString)) : Prop where
  keyOrder : table.keyOrder = keys defs
  isSome : ∀ key, (table.keyMap key).isSome = true ↔ key ∈ keys defs
  parts : ∀ key, (table.data key).parts =
    ((group key defs).flatMap (tokens (· = colon))).eraseDups

variable {table : KeyTable} {defs : List (CString × CString)}

theorem KeyTable.Follows.empty : KeyTable.empty.Follows [] where
  keyOrder := rfl
  isSome _ := by simp [KeyTable.empty, keys]
  parts _ := rfl

theorem KeyTable.data_add (table : KeyTable) (entry : CString × CString) (key : CString) :
    (table.add entry).data key =
      if key = entry.1 then
        (getlines colon entry.2).foldl KeyData.addUnique (table.data entry.1)
      else table.data key := by
  unfold KeyTable.add KeyTable.data
  simp only [Function.update_apply]
  split <;> rfl

/-- One more entry puts its name into the order if it is new, and its components behind those
of the name. -/
theorem KeyTable.Follows.add (h : table.Follows defs) (entry : CString × CString) :
    (table.add entry).Follows (defs ++ [entry]) := by
  obtain ⟨key, value⟩ := entry
  constructor
  · rw [keys_append_singleton]
    by_cases hkey : key ∈ keys defs
    · have hsome := (h.isSome key).mpr hkey
      rw [if_pos hkey, ← h.keyOrder]
      simp [KeyTable.add, Option.isSome_iff_ne_none.mp hsome]
    · have hnone := mt (h.isSome key).mp hkey
      rw [if_neg hkey, ← h.keyOrder]
      simp [KeyTable.add, Option.not_isSome_iff_eq_none.mp hnone]
  · intro key'
    have hmem : key' ∈ keys (defs ++ [(key, value)]) ↔ key' = key ∨ key' ∈ keys defs := by
      unfold keys
      rw [List.mem_eraseDups, List.mem_eraseDups, List.map_append, List.mem_append, or_comm,
        List.map_singleton, List.mem_singleton]
    rw [hmem, ← h.isSome]
    by_cases heq : key' = key
    · simp [KeyTable.add, heq]
    · simp [KeyTable.add, heq]
  · intro key'
    rw [KeyTable.data_add, group_append_singleton]
    by_cases heq : key' = key
    · subst heq
      have hdups := congrArg List.eraseDups (h.parts key')
      rw [eraseDups_eraseDups] at hdups
      rw [if_pos rfl, if_pos (beq_self_eq_true key'), KeyData.parts_foldl_addUnique,
        eraseDups_append_congr hdups, filter_getlines, List.flatMap_append,
        List.flatMap_singleton]
    · have hne : (key == key') = false := beq_eq_false_iff_ne.mpr fun h => heq h.symm
      rw [if_neg heq, hne, h.parts]
      rfl

/-- The loop is a loop over the definitions. -/
theorem KeyTable.follows_foldl (h : table.Follows defs) (envp : List (Option CString)) :
    (envp.foldl KeyTable.addEntry table).Follows (defs ++ definitions envp) := by
  induction envp generalizing table defs with
  | nil =>
    rw [definitions, List.filterMap_nil, List.append_nil]
    exact h
  | cons entry envp ih =>
    rw [List.foldl_cons]
    cases hparse : definition entry with
    | none =>
      have hskip : table.addEntry entry = table := by
        cases entry with
        | none => rfl
        | some entry => rw [KeyTable.addEntry, show parseEntry entry = none from hparse]
      rw [hskip, definitions, List.filterMap_cons_none hparse]
      exact ih h
    | some parsed =>
      have hadd : table.addEntry entry = table.add parsed := by
        cases entry with
        | none => cases hparse
        | some entry => rw [KeyTable.addEntry, show parseEntry entry = some parsed from hparse]
      rw [hadd, definitions, List.filterMap_cons_some hparse, List.append_cons]
      exact ih (h.add parsed)

theorem consolidateEnvEntries_eq (envp : List (Option CString)) :
    consolidateEnvEntries envp =
      (names envp).map fun name =>
        some (name ++ equalsSign :: [colon].intercalate (componentsOf name envp)) := by
  have h := KeyTable.follows_foldl KeyTable.Follows.empty envp
  rw [List.nil_append] at h
  simp only [consolidateEnvEntries, h.keyOrder]
  apply List.map_congr_left
  intro name _
  rw [h.parts, joinParts_eq name (nodup_eraseDups _), List.append_assoc]
  rfl

/-! ## What is written says the same -/

theorem isToken_of_mem_componentsOf {t : CString} (h : t ∈ componentsOf name envp) :
    IsToken (· = colon) t := by
  rw [componentsOf, List.mem_eraseDups, List.mem_flatMap] at h
  obtain ⟨value, -, ht⟩ := h
  exact isToken_of_mem_tokens ht

theorem nodup_names (envp : List (Option CString)) : (names envp).Nodup := nodup_keys _

theorem not_mem_of_mem_names (h : name ∈ names envp) : equalsSign ∉ name := by
  rw [names, keys, List.mem_eraseDups, List.mem_map] at h
  obtain ⟨⟨name', value⟩, hdef, rfl⟩ := h
  obtain ⟨entry, -, hentry⟩ := List.mem_filterMap.mp hdef
  cases entry with
  | none => cases hentry
  | some entry => exact (parseEntry_eq_some_iff.mp hentry).1

theorem splitOn_intercalate_components (h : componentsOf name envp ≠ []) :
    ([colon].intercalate (componentsOf name envp)).splitOn colon = componentsOf name envp := by
  refine List.splitOn_intercalate colon ?_ h
  intro t ht hcolon
  have hclean := (isToken_of_mem_componentsOf ht).clean colon hcolon
  simp at hclean

theorem tokens_intercalate_components (name : CString) (envp : List (Option CString)) :
    tokens (· = colon) ([colon].intercalate (componentsOf name envp)) =
      componentsOf name envp := by
  by_cases h : componentsOf name envp = []
  · rw [h, List.intercalate_nil, tokens_nil]
  · have hpred : (fun c => decide (c = colon)) = (· == colon) := by
      funext c
      exact (beq_eq_decide c colon).symm
    have hsplit := splitOn_intercalate_components h
    rw [List.splitOn] at hsplit
    rw [tokens, hpred, hsplit, List.filter_eq_self]
    intro t ht
    simp [(isToken_of_mem_componentsOf ht).ne_nil]

theorem definitions_consolidateEnvEntries (envp : List (Option CString)) :
    definitions (consolidateEnvEntries envp) =
      (names envp).map fun name =>
        (name, [colon].intercalate (componentsOf name envp)) := by
  rw [consolidateEnvEntries_eq, definitions, List.filterMap_map]
  rw [← List.filterMap_eq_map]
  apply List.filterMap_congr
  intro name hname
  exact parseEntry_eq_some_iff.mpr ⟨not_mem_of_mem_names hname, rfl⟩

theorem names_consolidateEnvEntries (envp : List (Option CString)) :
    names (consolidateEnvEntries envp) = names envp := by
  rw [names, definitions_consolidateEnvEntries, keys_map (nodup_names envp)]

theorem componentsOf_consolidateEnvEntries (name : CString) (envp : List (Option CString)) :
    componentsOf name (consolidateEnvEntries envp) = componentsOf name envp := by
  rw [componentsOf, definitions_consolidateEnvEntries, group_map (nodup_names envp)]
  split
  · rw [List.flatMap_singleton, tokens_intercalate_components, componentsOf, eraseDups_eraseDups]
  · rename_i hname
    rw [componentsOf, group_eq_nil hname]

/-- One entry for each name that says all that the old entries of the name say, and nothing
twice. -/
structure Consolidates (envp result : List (Option CString)) : Prop where
  entries : result = (names envp).map fun name =>
    some (name ++ equalsSign :: [colon].intercalate (componentsOf name envp))
  split : ∀ name, componentsOf name envp ≠ [] →
    ([colon].intercalate (componentsOf name envp)).splitOn colon = componentsOf name envp
  names_eq : names result = names envp
  components_eq : ∀ name, componentsOf name result = componentsOf name envp
  again : consolidateEnvEntries result = result

/-- `consolidate_env_entries` consolidates every environment. -/
theorem consolidateEnvEntries_consolidates (envp : List (Option CString)) :
    Consolidates envp (consolidateEnvEntries envp) where
  entries := consolidateEnvEntries_eq envp
  split _ h := splitOn_intercalate_components h
  names_eq := names_consolidateEnvEntries envp
  components_eq name := componentsOf_consolidateEnvEntries name envp
  again := by
    rw [consolidateEnvEntries_eq (consolidateEnvEntries envp), names_consolidateEnvEntries]
    simp only [componentsOf_consolidateEnvEntries]
    exact (consolidateEnvEntries_eq envp).symm

end Common
end Rocprofsys
