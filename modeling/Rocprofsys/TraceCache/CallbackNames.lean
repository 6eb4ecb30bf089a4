import Mathlib.Data.Int.Notation
import Mathlib.Logic.Function.Basic
import Rocprofsys.Base.OrderedSet
import Rocprofsys.Base.StringView

namespace Rocprofsys
namespace TraceCache

open Base

/-! ## The tables of the SDK -/

/-- The kinds with their names and those of their operations. -/
abbrev CallbackTable := List (CText × List CText)

def operationsAt (table : CallbackTable) (kind : ℕ) : List CText :=
  (table[kind]?.map Prod.snd).getD []

/-- `callback_name_info_t`. -/
structure CallbackNameInfo (σ : Type) where
  items : σ → CallbackTable
  emplaceKind : σ → ℕ → CText → σ
  emplaceOperation : σ → ℕ → ℕ → CText → σ

/-- Emplacing a kind resizes the storage of the kinds to end with it. Emplacing an operation keeps
those before it; whether it keeps those after it is left open. -/
structure CallbackNameInfo.Resizes {σ : Type} (info : CallbackNameInfo σ) : Prop where
  kind : ∀ s i name, i ≤ (info.items s).length → ∃ ops,
    ops.length ≤ (operationsAt (info.items s) i).length ∧
      info.items (info.emplaceKind s i name) = (info.items s).take i ++ [(name, ops)]
  operation : ∀ s i op name kindName ops, (info.items s)[i]? = some (kindName, ops) →
    op ≤ ops.length → ∃ ops', ops'.take (op + 1) = ops.take op ++ [name] ∧
      ops'.length ≤ max ops.length (op + 1) ∧
      info.items (info.emplaceOperation s i op name) = (info.items s).set i (kindName, ops')

/-! ## Renaming -/

/-- An entry of `rename_table`: a kind with a `callback_rename_map_t`. -/
structure Rename where
  kind : ℕ
  names : OrderedMap ℤ StringView

/-- `operation_names_t`. -/
abbrev OperationNames := List StringView

section Overwrite

variable (ci : Bool) (table : CallbackTable) (last : ℕ)

/-- `extract_operations`. -/
def extractOperations (kind : ℕ) : OperationNames :=
  (operationsAt table kind).map StringView.ofCText

/-- The operations of the kinds that follow, up to the first that are stored already. -/
def storeFollowing :
    List ℕ → OrderedMap ℕ OperationNames → OrderedMap ℕ OperationNames
  | [], modifiedOps => modifiedOps
  | i :: following, modifiedOps =>
    if (modifiedOps.get? i).isSome then modifiedOps
    else storeFollowing following (modifiedOps.set i (extractOperations table i))

/-- The loop over the new names of a kind. -/
def overwriteNames : List (ℤ × StringView) → OperationNames → Except String OperationNames
  | [], names => .ok names
  | (index, newValue) :: rest, names =>
    if ci ∧ (index < 0 ∨ names.length ≤ index.toNat) then .error "Index is invalid"
    else overwriteNames rest (names.set index.toNat newValue)

/-- The body of the loop over the list. -/
def overwriteKind (r : Rename) (modifiedOps : OrderedMap ℕ OperationNames) :
    Except String (OrderedMap ℕ OperationNames) :=
  let modifiedOps := storeFollowing table (List.range' (r.kind + 1) (last - (r.kind + 1))) modifiedOps
  if ci ∧ (modifiedOps.get? r.kind).isSome then
    .error "Overwriting a previously overwritten entry is forbidden"
  else if ci ∧ modifiedOps.items.head?.any fun first => decide (first.1 ≤ r.kind) then
    .error "Category must have a larger enum value than all previously modified_ops categories"
  else
    match overwriteNames ci r.names.items (extractOperations table r.kind) with
    | .error e => .error e
    | .ok names => .ok (modifiedOps.set r.kind names)

/-- The loop over the list. -/
def processList : List Rename → OrderedMap ℕ OperationNames →
    Except String (OrderedMap ℕ OperationNames)
  | [], modifiedOps => .ok modifiedOps
  | r :: rest, modifiedOps =>
    match overwriteKind ci table last r modifiedOps with
    | .error e => .error e
    | .ok modifiedOps => processList rest modifiedOps

variable {σ : Type} (info : CallbackNameInfo σ)

/-- The operations of a kind from number `op` on. -/
def emplaceOperations (kind : ℕ) : ℕ → OperationNames → σ → σ
  | _, [], s => s
  | op, name :: names, s =>
    emplaceOperations kind (op + 1) names (info.emplaceOperation s kind op name.cText)

/-- The loop that emplaces the kinds; without the checks a missing one reads past the map. -/
def emplaceKinds (modifiedOps : OrderedMap ℕ OperationNames) :
    List ℕ → σ → Except String σ
  | [], s => .ok s
  | i :: following, s =>
    match modifiedOps.get? i, table[i]? with
    | some names, some (name, _) =>
      emplaceKinds modifiedOps following
        (emplaceOperations info i 0 names (info.emplaceKind s i name))
    | _, _ =>
      .error (if ci then "A category that needs to be emplaced is missing" else "past the end")

end Overwrite

/-- `overwrite_callback_names`, with `last` for `ROCPROFILER_CALLBACK_TRACING_LAST`. -/
def overwriteCallbackNames {σ : Type} (info : CallbackNameInfo σ) (ci : Bool) (last : ℕ)
    (renames : List Rename) (s : σ) : Except String σ :=
  if renames.isEmpty then .ok s
  else
    let table := info.items s
    match processList ci table last renames ∅ with
    | .error e => .error e
    | .ok modifiedOps =>
      match modifiedOps.items.head? with
      | none => .ok s
      | some first =>
        emplaceKinds ci table info modifiedOps (List.range' first.1 (last - first.1)) s

/-! ## What is asked for -/

/-- The new name of an operation, if it is listed. -/
def newName (renames : List Rename) (kind op : ℕ) : Option StringView :=
  (renames.find? fun r => r.kind == kind).bind fun r => r.names.get? op

/-- The table with new names for the operations that are listed. -/
def renamed (renames : List Rename) (table : CallbackTable) :
    List (List UInt8 × List (List UInt8)) :=
  table.mapIdx fun kind entry =>
    (entry.1.val, entry.2.mapIdx fun op name =>
      ((newName renames kind op).map StringView.text).getD name.val)

def shown (table : CallbackTable) : List (List UInt8 × List (List UInt8)) :=
  table.map fun entry => (entry.1.val, entry.2.map Subtype.val)

/-- A list of rising kinds with operations that exist, for a table that has all kinds. -/
structure ValidRenames (last : ℕ) (renames : List Rename) (table : CallbackTable) : Prop where
  complete : table.length = last
  rising : renames.Pairwise fun r r' => r.kind < r'.kind
  kinds : ∀ r ∈ renames, r.kind < last
  operations : ∀ r ∈ renames, ∀ e ∈ r.names.items,
    0 ≤ e.1 ∧ e.1.toNat < (operationsAt table r.kind).length

/-! ## The operations of a kind -/

section Names

variable {ci : Bool} {table : CallbackTable} {last : ℕ} {r : Rename}

/-- The operations of a kind with the new names that are listed. -/
def namesWith (items : List (ℤ × StringView)) (names : OperationNames) : OperationNames :=
  names.mapIdx fun op name => (items.lookup (op : ℤ)).getD name

/-- Valid operations are overwritten, whether they are checked or not. -/
theorem overwriteNames_eq {items : List (ℤ × StringView)} (names : OperationNames)
    (hsorted : items.Pairwise fun e e' => e.1 < e'.1)
    (hvalid : ∀ e ∈ items, 0 ≤ e.1 ∧ e.1.toNat < names.length) :
    overwriteNames ci items names = .ok (namesWith items names) := by
  induction items generalizing names with
  | nil =>
    refine congrArg Except.ok (List.ext_getElem? fun op => ?_)
    rw [namesWith, List.getElem?_mapIdx]
    exact Option.map_id'.symm
  | cons e rest ih =>
    obtain ⟨index, newValue⟩ := e
    rw [List.pairwise_cons] at hsorted
    rw [List.forall_mem_cons] at hvalid
    obtain ⟨⟨hnonneg, hlt⟩, hvalid⟩ := hvalid
    have hlength : (names.set index.toNat newValue).length = names.length := List.length_set
    rw [overwriteNames, if_neg (by omega), ih _ hsorted.2 (by rwa [hlength])]
    refine congrArg Except.ok (List.ext_getElem? fun op => ?_)
    rw [namesWith, namesWith, List.getElem?_mapIdx, List.getElem?_mapIdx, List.getElem?_set]
    by_cases hop : index.toNat = op
    · have hindex : (op : ℤ) = index := by omega
      have hnone : rest.lookup (op : ℤ) = none := by
        rw [List.lookup_eq_none_iff]
        intro e he
        have hgt := hsorted.1 e he
        rw [bne_iff_ne]
        show (op : ℤ) ≠ e.1
        have hgt' : index < e.1 := hgt
        omega
      subst hop
      rw [if_pos rfl, if_pos hlt, List.getElem?_eq_getElem hlt, Option.map_some,
        Option.map_some, hnone, OrderedMap.lookup_cons_eq, if_pos hindex]
      rfl
    · have hindex : (op : ℤ) ≠ index := by omega
      rw [if_neg hop]
      refine congrArg (names[op]?.map ·) (funext fun name => ?_)
      rw [OrderedMap.lookup_cons_eq, if_neg hindex]

end Names

/-! ## The kinds that are stored -/

section Stored

variable {ci : Bool} {table : CallbackTable} {last first : ℕ} {r : Rename} {renames : List Rename}
  {modifiedOps : OrderedMap ℕ OperationNames} {names : ℕ → OperationNames}

/-- The kinds from the first one on are stored with their names, and no others. -/
def Stores (modifiedOps : OrderedMap ℕ OperationNames) (first last : ℕ)
    (names : ℕ → OperationNames) : Prop :=
  ∀ i, modifiedOps.get? i = if first ≤ i ∧ i < last then some (names i) else none

theorem storeFollowing_of_isSome {following : List ℕ}
    (h : ∀ i ∈ following.head?, (modifiedOps.get? i).isSome = true) :
    storeFollowing table following modifiedOps = modifiedOps := by
  cases following with
  | nil => rfl
  | cons i following => exact if_pos (h i rfl)

theorem get?_storeFollowing {following : List ℕ} (hnodup : following.Nodup)
    (hnone : ∀ i ∈ following, modifiedOps.get? i = none) (i : ℕ) :
    (storeFollowing table following modifiedOps).get? i =
      if i ∈ following then some (extractOperations table i) else modifiedOps.get? i := by
  induction following generalizing modifiedOps with
  | nil => rfl
  | cons j following ih =>
    rw [List.nodup_cons] at hnodup
    rw [List.forall_mem_cons] at hnone
    have hrest : ∀ i ∈ following,
        (modifiedOps.set j (extractOperations table j)).get? i = none := by
      intro i hi
      have hne : i ≠ j := fun h => hnodup.1 (h ▸ hi)
      rw [OrderedMap.get?_set, if_neg hne, hnone.2 i hi]
    rw [storeFollowing, hnone.1, if_neg (by decide), ih hnodup.2 hrest, OrderedMap.get?_set]
    by_cases hij : i = j
    · subst hij
      rw [if_neg hnodup.1, if_pos rfl, if_pos List.mem_cons_self]
    · rw [if_neg hij]
      simp only [List.mem_cons, hij, false_or]

/-- The kinds after the first entry of the list. -/
theorem stores_following (table : CallbackTable) (last kind : ℕ) :
    Stores (storeFollowing table (List.range' (kind + 1) (last - (kind + 1))) ∅) (kind + 1) last
      (extractOperations table) := by
  intro i
  rw [get?_storeFollowing List.nodup_range' (fun _ _ => rfl)]
  have hmem : i ∈ List.range' (kind + 1) (last - (kind + 1)) ↔ kind + 1 ≤ i ∧ i < last := by
    rw [List.mem_range'_1]
    omega
  simp only [hmem]
  rfl

theorem Stores.set (h : Stores modifiedOps (first + 1) last names) (hlt : first < last)
    (value : OperationNames) :
    Stores (modifiedOps.set first value) first last (Function.update names first value) := by
  intro i
  rw [OrderedMap.get?_set, h i]
  by_cases hi : i = first
  · subst hi
    rw [if_pos rfl, if_pos ⟨le_refl _, hlt⟩, Function.update_self]
  · rw [if_neg hi, Function.update_of_ne hi]
    have hiff : first + 1 ≤ i ∧ i < last ↔ first ≤ i ∧ i < last := by omega
    simp only [hiff]

theorem Stores.set_of_le (h : Stores modifiedOps first last names) {kind : ℕ} (hle : first ≤ kind)
    (hlt : kind < last) (value : OperationNames) :
    Stores (modifiedOps.set kind value) first last (Function.update names kind value) := by
  intro i
  rw [OrderedMap.get?_set, h i]
  by_cases hi : i = kind
  · subst hi
    rw [if_pos rfl, if_pos ⟨hle, hlt⟩, Function.update_self]
  · rw [if_neg hi, Function.update_of_ne hi]

/-- The first kind that is stored. -/
theorem Stores.head (h : Stores modifiedOps first last names) (hlt : first < last) :
    ∃ value, modifiedOps.items.head? = some (first, value) := by
  have hmem := OrderedMap.mem_of_get? ((h first).trans (if_pos ⟨le_refl _, hlt⟩))
  have hsorted := modifiedOps.sorted
  have hfirst : ∀ e ∈ modifiedOps.items, first ≤ e.1 := by
    intro e he
    have hget := OrderedMap.get?_of_mem he
    rw [h e.1] at hget
    split_ifs at hget with hin
    exact hin.1
  generalize modifiedOps.items = items at hmem hsorted hfirst
  cases items with
  | nil => cases hmem
  | cons e items =>
    have hle := hfirst e List.mem_cons_self
    rcases List.mem_cons.mp hmem with heq | hrest
    · rw [← heq]
      exact ⟨_, rfl⟩
    · exact absurd ((List.pairwise_cons.mp hsorted).1 _ hrest) (not_lt.mpr hle)

/-- The operations of a kind that an entry renames. -/
def overwritten (table : CallbackTable) (r : Rename) : OperationNames :=
  namesWith r.names.items (extractOperations table r.kind)

theorem overwriteNames_extract
    (hvalid : ∀ e ∈ r.names.items, 0 ≤ e.1 ∧ e.1.toNat < (operationsAt table r.kind).length) :
    overwriteNames ci r.names.items (extractOperations table r.kind) =
      .ok (overwritten table r) := by
  refine overwriteNames_eq _ r.names.sorted ?_
  rwa [extractOperations, List.length_map]

/-- The first entry of the list passes the checks. -/
theorem overwriteKind_first (ci : Bool) (hlt : r.kind < last)
    (hvalid : ∀ e ∈ r.names.items, 0 ≤ e.1 ∧ e.1.toNat < (operationsAt table r.kind).length) :
    ∃ modifiedOps, overwriteKind ci table last r ∅ = .ok modifiedOps ∧
      Stores modifiedOps r.kind last
        (Function.update (extractOperations table) r.kind (overwritten table r)) := by
  have hstores := stores_following table last r.kind
  refine ⟨_, ?_, hstores.set hlt _⟩
  have hnone := hstores r.kind
  rw [if_neg (by omega)] at hnone
  have hhead : ∀ e ∈ (storeFollowing table
      (List.range' (r.kind + 1) (last - (r.kind + 1))) ∅).items.head?, ¬ e.1 ≤ r.kind := by
    intro e he
    have hget := OrderedMap.get?_of_mem (List.mem_of_mem_head? he)
    rw [hstores e.1] at hget
    split_ifs at hget with hin
    omega
  unfold overwriteKind
  dsimp only
  rw [hnone, if_neg (by simp), if_neg, overwriteNames_extract hvalid]
  rintro ⟨-, hany⟩
  obtain ⟨e, he, hle⟩ := (Option.any_eq_true _ _).mp hany
  exact hhead e he (of_decide_eq_true hle)

/-- A later entry is taken for one that was overwritten before, if that is checked. -/
theorem overwriteKind_later (hstores : Stores modifiedOps first last names) (hfirst : first < r.kind)
    (hlt : r.kind < last)
    (hvalid : ∀ e ∈ r.names.items, 0 ≤ e.1 ∧ e.1.toNat < (operationsAt table r.kind).length) :
    overwriteKind ci table last r modifiedOps =
      if ci then .error "Overwriting a previously overwritten entry is forbidden"
      else .ok (modifiedOps.set r.kind (overwritten table r)) := by
  have hsome : ∀ i, first ≤ i → i < last → (modifiedOps.get? i).isSome = true := by
    intro i hle hi
    rw [hstores i, if_pos ⟨hle, hi⟩]
    rfl
  have hfollowing : storeFollowing table (List.range' (r.kind + 1) (last - (r.kind + 1)))
      modifiedOps = modifiedOps := by
    apply storeFollowing_of_isSome
    intro i hi
    rw [List.head?_range'] at hi
    split_ifs at hi with hzero
    · cases hi
    · rw [← Option.some.inj hi]
      exact hsome _ (by omega) (by omega)
  unfold overwriteKind
  dsimp only
  rw [hfollowing, hsome r.kind (by omega) hlt, overwriteNames_extract hvalid]
  cases ci <;> rfl

/-- What a list makes of the operations of a kind. -/
def namesAfter (table : CallbackTable) (renames : List Rename) (names : ℕ → OperationNames)
    (kind : ℕ) : OperationNames :=
  match renames.find? fun r => r.kind == kind with
  | some r => overwritten table r
  | none => names kind

theorem namesAfter_cons (hrising : ∀ r' ∈ renames, r.kind < r'.kind) :
    namesAfter table renames (Function.update names r.kind (overwritten table r)) =
      namesAfter table (r :: renames) names := by
  funext kind
  unfold namesAfter
  rw [List.find?_cons]
  by_cases hkind : r.kind = kind
  · subst hkind
    have hnone : renames.find? (fun r' => r'.kind == r.kind) = none := by
      rw [List.find?_eq_none]
      intro r' hr'
      have hgt := hrising r' hr'
      rw [beq_iff_eq]
      omega
    rw [hnone, beq_self_eq_true]
    exact Function.update_self r.kind _ names
  · rw [beq_eq_false_iff_ne.mpr hkind, Function.update_of_ne (Ne.symm hkind)]

/-- Without the checks every entry of the list is taken. -/
theorem processList_later (hstores : Stores modifiedOps first last names)
    (hrising : renames.Pairwise fun r r' => r.kind < r'.kind)
    (hkinds : ∀ r ∈ renames, first < r.kind ∧ r.kind < last)
    (hvalid : ∀ r ∈ renames, ∀ e ∈ r.names.items,
      0 ≤ e.1 ∧ e.1.toNat < (operationsAt table r.kind).length) :
    ∃ modifiedOps', processList false table last renames modifiedOps = .ok modifiedOps' ∧
      Stores modifiedOps' first last (namesAfter table renames names) := by
  induction renames generalizing modifiedOps names with
  | nil => exact ⟨_, rfl, hstores⟩
  | cons r rest ih =>
    rw [List.pairwise_cons] at hrising
    rw [List.forall_mem_cons] at hkinds hvalid
    obtain ⟨⟨hfirst, hlt⟩, hkinds⟩ := hkinds
    have hset := hstores.set_of_le hfirst.le hlt (overwritten table r)
    have hnext := ih hset hrising.2 hkinds hvalid.2
    rw [namesAfter_cons hrising.1] at hnext
    rw [processList, overwriteKind_later hstores hfirst hlt hvalid.1]
    exact hnext

/-- The list passes exactly if nothing is checked or it has one entry. -/
theorem processList_cons (hvalid : ValidRenames last (r :: renames) table) :
    (ci = false ∨ renames = [] → ∃ modifiedOps,
      processList ci table last (r :: renames) ∅ = .ok modifiedOps ∧
        Stores modifiedOps r.kind last
          (namesAfter table (r :: renames) (extractOperations table))) ∧
      (¬ (ci = false ∨ renames = []) → processList ci table last (r :: renames) ∅ =
        .error "Overwriting a previously overwritten entry is forbidden") := by
  have hrising := List.pairwise_cons.mp hvalid.rising
  obtain ⟨hlt, hkinds⟩ := List.forall_mem_cons.mp hvalid.kinds
  obtain ⟨hoperations, hrest⟩ := List.forall_mem_cons.mp hvalid.operations
  obtain ⟨modifiedOps, hfirst, hstores⟩ := overwriteKind_first ci hlt hoperations
  rw [processList, hfirst, ← namesAfter_cons hrising.1]
  constructor
  · rintro (rfl | rfl)
    · exact processList_later hstores hrising.2 (fun r' hr' => ⟨hrising.1 r' hr', hkinds r' hr'⟩)
        hrest
    · exact ⟨_, rfl, hstores⟩
  · intro hnot
    obtain ⟨hci, hne⟩ := not_or.mp hnot
    cases renames with
    | nil => exact absurd rfl hne
    | cons r' renames =>
      show processList ci table last (r' :: renames) modifiedOps = _
      rw [processList, overwriteKind_later hstores (hrising.1 r' List.mem_cons_self)
        (hkinds r' List.mem_cons_self) (hrest r' List.mem_cons_self),
        if_pos (eq_true_of_ne_false hci)]

end Stored

/-! ## Emplacing -/

section Emplace

variable {σ : Type} {info : CallbackNameInfo σ} {ci : Bool} {table : CallbackTable} {s : σ}

theorem items_emplaceOperations (hinfo : info.Resizes) {kind op : ℕ} {name : CText}
    {ops : List CText} (vs : OperationNames) (h : (info.items s)[kind]? = some (name, ops))
    (hop : op ≤ ops.length) :
    ∃ ops', ops'.take (op + vs.length) = ops.take op ++ vs.map StringView.cText ∧
      ops'.length ≤ max ops.length (op + vs.length) ∧
      info.items (emplaceOperations info kind op vs s) =
        (info.items s).set kind (name, ops') := by
  induction vs generalizing s op ops with
  | nil =>
    refine ⟨ops, (List.append_nil _).symm, le_max_left _ _, ?_⟩
    obtain ⟨hlt, heq⟩ := List.getElem?_eq_some_iff.mp h
    rw [← heq]
    exact (List.set_getElem_self hlt).symm
  | cons v vs ih =>
    obtain ⟨ops₁, htake, hlength, hitems⟩ := hinfo.operation s kind op v.cText name ops h hop
    have hlt := (List.getElem?_eq_some_iff.mp h).1
    have hget : (info.items (info.emplaceOperation s kind op v.cText))[kind]? =
        some (name, ops₁) := by
      rw [hitems, List.getElem?_set_self hlt]
    have hcount := congrArg List.length htake
    rw [List.length_take, List.length_append, List.length_take, List.length_singleton] at hcount
    obtain ⟨ops', htake', hlength', hitems'⟩ := ih hget (by omega : op + 1 ≤ ops₁.length)
    have hsucc : op + (v :: vs).length = op + 1 + vs.length := by
      rw [List.length_cons]
      omega
    refine ⟨ops', ?_, ?_, ?_⟩
    · rw [hsucc, htake', htake, List.map_cons, List.append_assoc, List.singleton_append]
    · rw [hsucc]
      omega
    · rw [emplaceOperations, hitems', hitems, List.set_set]

/-- A kind is emplaced with its operations and ends the table. -/
theorem items_emplaceKind (hinfo : info.Resizes) {kind : ℕ} (name : CText) (vs : OperationNames)
    (hkind : kind ≤ (info.items s).length)
    (hops : (operationsAt (info.items s) kind).length ≤ vs.length) :
    info.items (emplaceOperations info kind 0 vs (info.emplaceKind s kind name)) =
      (info.items s).take kind ++ [(name, vs.map StringView.cText)] := by
  obtain ⟨ops, hlength, hitems⟩ := hinfo.kind s kind name hkind
  have htake : ((info.items s).take kind).length = kind := List.length_take_of_le hkind
  have hget : (info.items (info.emplaceKind s kind name))[kind]? = some (name, ops) := by
    rw [hitems, List.getElem?_append_right htake.le, htake, Nat.sub_self]
    rfl
  obtain ⟨ops', htake', hlength', hitems'⟩ :=
    items_emplaceOperations hinfo vs hget (Nat.zero_le _)
  rw [Nat.zero_add, List.take_zero, List.nil_append, List.take_of_length_le (by omega)] at htake'
  rw [hitems', htake', hitems, List.set_append_right _ _ htake.le, htake, Nat.sub_self]
  rfl

def kindName (table : CallbackTable) (kind : ℕ) : CText :=
  (table[kind]?.map Prod.fst).getD ⟨[], List.not_mem_nil⟩

theorem emplaceKinds_cons {modifiedOps : OrderedMap ℕ OperationNames} {kind : ℕ}
    {vs : OperationNames} (hget : modifiedOps.get? kind = some vs) (hlt : kind < table.length)
    (following : List ℕ) :
    emplaceKinds ci table info modifiedOps (kind :: following) s =
      emplaceKinds ci table info modifiedOps following
        (emplaceOperations info kind 0 vs (info.emplaceKind s kind (kindName table kind))) := by
  rw [emplaceKinds, hget, kindName, List.getElem?_eq_getElem hlt]
  rfl

/-- The kinds from one on are emplaced with the operations that are stored. -/
theorem items_emplaceKinds (ci : Bool) (hinfo : info.Resizes) {modifiedOps : OrderedMap ℕ OperationNames}
    {names : ℕ → OperationNames} {first count : ℕ}
    (hstores : ∀ i, first ≤ i → i < first + (count + 1) → modifiedOps.get? i = some (names i))
    (htable : first + (count + 1) ≤ table.length) (hfirst : first ≤ (info.items s).length)
    (hops : (operationsAt (info.items s) first).length ≤ (names first).length) :
    ∃ s', emplaceKinds ci table info modifiedOps (List.range' first (count + 1)) s = .ok s' ∧
      info.items s' = (info.items s).take first ++ (List.range' first (count + 1)).map fun i =>
        (kindName table i, (names i).map StringView.cText) := by
  induction count generalizing first s with
  | zero =>
    exact ⟨_, emplaceKinds_cons (hstores first (le_refl _) (by omega)) (by omega) [],
      items_emplaceKind hinfo _ _ hfirst hops⟩
  | succ count ih =>
    have hitems := items_emplaceKind hinfo (kindName table first) (names first) hfirst hops
    have htake : ((info.items s).take first).length = first := List.length_take_of_le hfirst
    rw [List.range'_succ,
      emplaceKinds_cons (hstores first (le_refl _) (by omega)) (by omega : first < table.length)]
    generalize emplaceOperations info first 0 (names first)
      (info.emplaceKind s first (kindName table first)) = s₁ at hitems
    have hlength : (info.items s₁).length = first + 1 := by
      rw [hitems, List.length_append, htake]
      rfl
    have hnone : operationsAt (info.items s₁) (first + 1) = [] := by
      rw [operationsAt, List.getElem?_eq_none hlength.le]
      rfl
    obtain ⟨s', hs', hitems'⟩ := @ih s₁ (first + 1) (fun i hle hlt => hstores i (by omega) (by omega))
      (by omega) hlength.ge (by rw [hnone]; exact Nat.zero_le _)
    refine ⟨s', hs', ?_⟩
    rw [hitems', List.take_of_length_le hlength.le, hitems, List.append_assoc]
    rfl

end Emplace

/-! ## The table afterwards -/

section Renamed

variable {σ : Type} {info : CallbackNameInfo σ} {ci : Bool} {last : ℕ} {s : σ}
  {renames : List Rename}

/-- The table with the C strings that new names are read as. -/
def renamedAs (renames : List Rename) (table : CallbackTable) : CallbackTable :=
  table.mapIdx fun kind entry =>
    (entry.1, entry.2.mapIdx fun op name =>
      ((newName renames kind op).map StringView.cText).getD name)

theorem namesAfter_cText (table : CallbackTable) (renames : List Rename) (kind : ℕ) :
    (namesAfter table renames (extractOperations table) kind).map StringView.cText =
      (operationsAt table kind).mapIdx fun op name =>
        ((newName renames kind op).map StringView.cText).getD name := by
  unfold namesAfter newName
  refine List.ext_getElem? fun op => ?_
  cases hfind : renames.find? fun r => r.kind == kind with
  | none =>
    rw [List.getElem?_mapIdx, extractOperations, List.map_map, List.getElem?_map]
    exact congrArg (Option.map · _) (funext fun name => StringView.cText_ofCText name)
  | some r =>
    have hbeq : (r.kind == kind) = true :=
      @List.find?_some _ (fun r : Rename => r.kind == kind) _ _ hfind
    have hkind : r.kind = kind := beq_iff_eq.mp hbeq
    show ((overwritten table r).map StringView.cText)[op]? = _
    rw [overwritten, namesWith, extractOperations, hkind, List.getElem?_map, List.getElem?_mapIdx,
      List.getElem?_map, List.getElem?_mapIdx, Option.map_map, Option.map_map]
    refine congrArg (Option.map · _) (funext fun name => ?_)
    show (((r.names.items.lookup (op : ℤ)).getD (StringView.ofCText name)).cText) =
      ((r.names.items.lookup (op : ℤ)).map StringView.cText).getD name
    cases r.names.items.lookup (op : ℤ) with
    | none => exact StringView.cText_ofCText name
    | some v => rfl

theorem renamedAs_eq (renames : List Rename) (table : CallbackTable) :
    renamedAs renames table = table.mapIdx fun kind entry =>
      (entry.1, (namesAfter table renames (extractOperations table) kind).map StringView.cText) := by
  unfold renamedAs
  refine List.ext_getElem? fun kind => ?_
  rw [List.getElem?_mapIdx, List.getElem?_mapIdx, namesAfter_cText]
  cases hentry : table[kind]? with
  | none => rfl
  | some entry =>
    rw [operationsAt, hentry]
    rfl

/-- Where the list passes the checks, the listed operations carry what their names are read as. -/
theorem overwriteCallbackNames_of_passing (hinfo : info.Resizes)
    (hvalid : ValidRenames last renames (info.items s)) (hpass : ci = false ∨ renames.length ≤ 1) :
    ∃ s', overwriteCallbackNames info ci last renames s = .ok s' ∧
      info.items s' = renamedAs renames (info.items s) := by
  rw [renamedAs_eq]
  have hextract : ∀ kind, (extractOperations (info.items s) kind).map StringView.cText =
      operationsAt (info.items s) kind := by
    intro kind
    rw [extractOperations, List.map_map]
    exact (List.map_congr_left fun name _ => StringView.cText_ofCText name).trans (List.map_id _)
  cases renames with
  | nil =>
    refine ⟨s, rfl, List.ext_getElem? fun kind => ?_⟩
    rw [List.getElem?_mapIdx]
    cases hentry : (info.items s)[kind]? with
    | none => rfl
    | some entry =>
      show some entry = some (entry.1, (extractOperations (info.items s) kind).map _)
      rw [hextract, operationsAt, hentry]
      rfl
  | cons r rest =>
    have hpass' : ci = false ∨ rest = [] := by
      rcases hpass with hci | hlength
      · exact Or.inl hci
      · rw [List.length_cons] at hlength
        exact Or.inr (List.length_eq_zero_iff.mp (by omega))
    have hlt : r.kind < last := hvalid.kinds r List.mem_cons_self
    have hcomplete := hvalid.complete
    have hrising := List.pairwise_cons.mp hvalid.rising
    obtain ⟨modifiedOps, hprocess, hstores⟩ := (processList_cons hvalid).1 hpass'
    obtain ⟨value, hhead⟩ := hstores.head hlt
    have hops : (operationsAt (info.items s) r.kind).length ≤
        (namesAfter (info.items s) (r :: rest) (extractOperations (info.items s)) r.kind).length := by
      have hlength := congrArg List.length (namesAfter_cText (info.items s) (r :: rest) r.kind)
      rw [List.length_map, List.length_mapIdx] at hlength
      exact hlength.ge
    obtain ⟨s', hs', hitems⟩ := items_emplaceKinds ci hinfo
      (fun i hle hi => (hstores i).trans (if_pos ⟨hle, by omega⟩))
      (by omega : r.kind + (last - (r.kind + 1) + 1) ≤ (info.items s).length) (by omega) hops
    have hcount : last - (r.kind + 1) + 1 = last - r.kind := by omega
    rw [hcount] at hs' hitems
    refine ⟨s', ?_, ?_⟩
    · unfold overwriteCallbackNames
      dsimp only [List.isEmpty_cons]
      rw [if_neg Bool.false_ne_true, hprocess]
      dsimp only
      rw [hhead]
      exact hs'
    · rw [hitems]
      refine List.ext_getElem? fun kind => ?_
      have htake : ((info.items s).take r.kind).length = r.kind :=
        List.length_take_of_le (by omega)
      rw [List.getElem?_mapIdx]
      by_cases hbefore : kind < r.kind
      · have hnone : (r :: rest).find? (fun r' => r'.kind == kind) = none := by
          rw [List.find?_eq_none, List.forall_mem_cons]
          refine ⟨by rw [beq_iff_eq]; omega, fun r' hr' => ?_⟩
          have hgt := hrising.1 r' hr'
          rw [beq_iff_eq]
          omega
        have hentry : (info.items s)[kind]? = some (info.items s)[kind] :=
          List.getElem?_eq_getElem (by omega)
        rw [List.getElem?_append_left (by omega), List.getElem?_take_of_lt hbefore, hentry,
          Option.map_some, namesAfter, hnone]
        show _ = some (_, (extractOperations (info.items s) kind).map StringView.cText)
        rw [hextract, operationsAt, hentry]
        rfl
      · rw [List.getElem?_append_right (by omega), htake, List.getElem?_map]
        by_cases hin : kind < last
        · have hentry : (info.items s)[kind]? = some (info.items s)[kind] :=
            List.getElem?_eq_getElem (by omega)
          rw [List.getElem?_range' (by omega), hentry, Option.map_some, Option.map_some]
          have hadd : r.kind + 1 * (kind - r.kind) = kind := by omega
          rw [hadd, kindName, hentry]
          rfl
        · rw [List.getElem?_eq_none (by rw [List.length_range']; omega),
            List.getElem?_eq_none (by omega)]
          rfl

/-- Several entries are refused where they are checked. -/
theorem overwriteCallbackNames_of_not_passing (hvalid : ValidRenames last renames (info.items s))
    (hpass : ¬ (ci = false ∨ renames.length ≤ 1)) :
    overwriteCallbackNames info ci last renames s =
      .error "Overwriting a previously overwritten entry is forbidden" := by
  cases renames with
  | nil => exact absurd (Or.inr (Nat.zero_le 1)) hpass
  | cons r rest =>
    have hpass' : ¬ (ci = false ∨ rest = []) := by
      rintro (hci | hnil)
      · exact hpass (Or.inl hci)
      · refine hpass (Or.inr ?_)
        rw [hnil]
        exact le_refl 1
    unfold overwriteCallbackNames
    dsimp only [List.isEmpty_cons]
    rw [if_neg Bool.false_ne_true, (processList_cons hvalid).2 hpass']

theorem newName_eq (hrising : renames.Pairwise fun r r' => r.kind < r'.kind) {r : Rename}
    (hr : r ∈ renames) {e : ℤ × StringView} (he : e ∈ r.names.items) (hnonneg : 0 ≤ e.1) :
    newName renames r.kind e.1.toNat = some e.2 := by
  have hfind : renames.find? (fun r' => r'.kind == r.kind) = some r := by
    induction renames with
    | nil => cases hr
    | cons r' rest ih =>
      rw [List.pairwise_cons] at hrising
      rw [List.find?_cons]
      rcases List.mem_cons.mp hr with rfl | hmem
      · rw [beq_self_eq_true]
      · have hlt := hrising.1 r hmem
        rw [beq_eq_false_iff_ne.mpr hlt.ne]
        exact ih hrising.2 hmem
  rw [newName, hfind, Int.toNat_of_nonneg hnonneg]
  exact OrderedMap.get?_of_mem he

theorem exists_of_newName {kind op : ℕ} {v : StringView} (h : newName renames kind op = some v) :
    ∃ r ∈ renames, ∃ e ∈ r.names.items, e.2 = v := by
  obtain ⟨r, hr, hget⟩ := Option.bind_eq_some_iff.mp h
  exact ⟨r, List.mem_of_find?_eq_some hr, _, OrderedMap.mem_of_get? hget, rfl⟩

theorem map_mapIdx {α β γ : Type} (l : List α) (f : ℕ → α → β) (g : β → γ) :
    (l.mapIdx f).map g = l.mapIdx fun i a => g (f i a) := by
  refine List.ext_getElem? fun i => ?_
  rw [List.getElem?_map, List.getElem?_mapIdx, List.getElem?_mapIdx, Option.map_map]
  rfl

/-- What is shown is what was asked for exactly if each new name ends at its NUL. -/
theorem shown_renamedAs_iff {table : CallbackTable} (hvalid : ValidRenames last renames table) :
    shown (renamedAs renames table) = renamed renames table ↔
      ∀ r ∈ renames, ∀ e ∈ r.names.items, e.2.cText.val = e.2.text := by
  unfold shown renamed renamedAs
  rw [map_mapIdx, List.mapIdx_eq_mapIdx_iff]
  constructor
  · intro h r hr e he
    obtain ⟨hnonneg, hop⟩ := hvalid.operations r hr e he
    have hkind : r.kind < table.length := hvalid.complete.symm ▸ hvalid.kinds r hr
    have hnames := (Prod.mk.injEq _ _ _ _ ▸ h r.kind hkind).2
    rw [map_mapIdx, List.mapIdx_eq_mapIdx_iff] at hnames
    rw [operationsAt, List.getElem?_eq_getElem hkind] at hop
    have hname := hnames e.1.toNat hop
    rw [newName_eq hvalid.rising hr he hnonneg] at hname
    exact hname
  · intro h kind hkind
    refine Prod.ext rfl ?_
    show List.map _ _ = _
    rw [map_mapIdx, List.mapIdx_eq_mapIdx_iff]
    intro op hop
    cases hnew : newName renames kind op with
    | none => rfl
    | some v =>
      obtain ⟨r, hr, e, he, rfl⟩ := exists_of_newName hnew
      exact h r hr e he

/-- A list of rising kinds changes the listed operations and nothing else exactly if nothing is
checked or it has one entry, and each new name is a view that ends at a NUL. -/
theorem overwriteCallbackNames_iff {σ : Type} (info : CallbackNameInfo σ) (hinfo : info.Resizes)
    (ci : Bool) (last : ℕ) (renames : List Rename) (s : σ)
    (hvalid : ValidRenames last renames (info.items s)) :
    (∃ s', overwriteCallbackNames info ci last renames s = .ok s' ∧
        shown (info.items s') = renamed renames (info.items s)) ↔
      (ci = false ∨ renames.length ≤ 1) ∧
        ∀ r ∈ renames, ∀ e ∈ r.names.items, e.2.cText.val = e.2.text := by
  by_cases hpass : ci = false ∨ renames.length ≤ 1
  · obtain ⟨s', hs', hitems⟩ := overwriteCallbackNames_of_passing hinfo hvalid hpass
    rw [and_iff_right hpass, ← shown_renamedAs_iff hvalid, ← hitems]
    constructor
    · rintro ⟨t, ht, hshown⟩
      rw [hs'] at ht
      rw [Except.ok.inj ht]
      exact hshown
    · exact fun hshown => ⟨s', hs', hshown⟩
  · rw [overwriteCallbackNames_of_not_passing hvalid hpass]
    exact iff_of_false (fun ⟨_, h, _⟩ => nomatch h) fun h => hpass h.1

end Renamed

/-! ### Two kinds with new names -/

/-- Tables that are resized to end with what is emplaced. -/
def resizing : CallbackNameInfo CallbackTable where
  items := id
  emplaceKind s i name := s.take i ++ [(name, operationsAt s i)]
  emplaceOperation s i op name := s.modify i fun entry => (entry.1, entry.2.take op ++ [name])

theorem resizes_resizing : resizing.Resizes where
  kind _ _ _ _ := ⟨_, le_refl _, rfl⟩
  operation := by
    intro s i op name kindName ops h hop
    obtain ⟨hlt, heq⟩ := List.getElem?_eq_some_iff.mp h
    have hlength : (ops.take op ++ [name]).length = op + 1 := by
      rw [List.length_append, List.length_take_of_le hop]
      rfl
    refine ⟨ops.take op ++ [name], List.take_of_length_le hlength.le, hlength ▸ le_max_right _ _, ?_⟩
    show s.modify i _ = s.set i _
    rw [List.modify_eq_set_getElem?, show s[i]? = some (kindName, ops) from h]
    rfl

def letter (b : UInt8) (h : b ≠ 0) : CText := ⟨[b], by simpa using h.symm⟩

def threeKinds : CallbackTable :=
  [(letter 65 (by decide), [letter 97 (by decide), letter 98 (by decide)]),
    (letter 66 (by decide), [letter 99 (by decide)]),
    (letter 67 (by decide), [letter 100 (by decide), letter 101 (by decide)])]

def renameOne (kind : ℕ) (op : ℤ) (v : StringView) : Rename := ⟨kind, ⟨[(op, v)], by simp⟩⟩

/-- New names for operations of the first and the last kind. -/
def twoRenames : List Rename :=
  [renameOne 0 1 (StringView.ofCText (letter 120 (by decide))),
    renameOne 2 0 (StringView.ofCText (letter 121 (by decide)))]

theorem valid_twoRenames : ValidRenames 3 twoRenames threeKinds :=
  ⟨rfl, by decide, by decide, by decide⟩

theorem renamed_twoRenames : ∃ s', overwriteCallbackNames resizing false 3 twoRenames threeKinds =
    .ok s' ∧ shown (resizing.items s') = renamed twoRenames threeKinds :=
  (overwriteCallbackNames_iff resizing resizes_resizing false 3 twoRenames threeKinds
    valid_twoRenames).mpr ⟨Or.inl rfl, by decide⟩

/-- With the checks on, the second entry of a valid list is refused. -/
theorem refused_twoRenames : ValidRenames 3 twoRenames threeKinds ∧
    ¬ ∃ s', overwriteCallbackNames resizing true 3 twoRenames threeKinds = .ok s' := by
  refine ⟨valid_twoRenames, ?_⟩
  rw [overwriteCallbackNames_of_not_passing valid_twoRenames (by decide)]
  exact fun ⟨_, h⟩ => nomatch h

end TraceCache
end Rocprofsys
