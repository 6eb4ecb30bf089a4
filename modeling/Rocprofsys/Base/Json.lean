import Mathlib.Data.List.Nodup
import Mathlib.Tactic.Ring

namespace Rocprofsys
namespace Base

/-- The byte string is the UTF-8 form of some text. -/
def IsUtf8 (bytes : List UInt8) : Prop :=
  ∃ text : List Char, bytes = text.flatMap String.utf8EncodeChar

theorem isUtf8_nil : IsUtf8 [] := ⟨[], rfl⟩

/-! ## Documents

Strings are byte strings, since a document can be built from any.  The fields of an
object are kept in the order of their names, so a document has one representation. -/

inductive Json where
  | null
  | boolean (value : Bool)
  | number (value : Int)
  | real (value : ℚ)
  | string (bytes : List UInt8)
  | array (items : List Json)
  | object (fields : List (String × Json))

namespace Json

/-- `fields[key] = value`. -/
def assign (key : String) (value : Json) : List (String × Json) → List (String × Json)
  | [] => [(key, value)]
  | (key', value') :: fields =>
    if key < key' then (key, value) :: (key', value') :: fields
    else if key = key' then (key, value) :: fields
    else (key', value') :: assign key value fields

/-- The object that the assignments in `fields` make, the first one first. -/
def ofFields (fields : List (String × Json)) : Json :=
  .object (fields.foldl (fun made field => assign field.1 field.2 made) [])

/-- The value of field `key`. -/
def get? (json : Json) (key : String) : Option Json :=
  match json with
  | .object fields => fields.lookup key
  | _ => none

/-- Read field `key` with `get`. -/
def field {α : Type} (json : Json) (key : String) (get : Json → Option α) : Option α :=
  (json.get? key).bind get

/-- What a loop over the value visits.  A null has no items, and a value that is
neither array nor object is its own only item. -/
def items : Json → List Json
  | null => []
  | array items => items
  | object fields => fields.map Prod.snd
  | value => [value]

/-! A number is converted as a C++ cast converts it: without its fraction, and modulo the
range of the type.  The two signed types also take a truth value. -/

/-- The number without its fraction. -/
def truncate (value : ℚ) : Int := value.num.tdiv value.den

def getInt32 : Json → Option Int32
  | boolean value => some (if value then 1 else 0)
  | number value => some (Int32.ofInt value)
  | real value => some (Int32.ofInt (truncate value))
  | _ => none

def getInt64 : Json → Option Int64
  | boolean value => some (if value then 1 else 0)
  | number value => some (Int64.ofInt value)
  | real value => some (Int64.ofInt (truncate value))
  | _ => none

def getUInt64 : Json → Option UInt64
  | number value => some (UInt64.ofInt value)
  | real value => some (UInt64.ofInt (truncate value))
  | _ => none

def getUInt8 : Json → Option UInt8
  | number value => some (UInt8.ofInt value)
  | real value => some (UInt8.ofInt (truncate value))
  | _ => none

def getString : Json → Option (List UInt8)
  | string bytes => some bytes
  | _ => none

/-- A null, or a value that `get` reads. -/
def getNullable {α : Type} (get : Json → Option α) : Json → Option (Option α)
  | null => some none
  | json => (get json).map some

@[simp] theorem getString_string (bytes : List UInt8) : getString (.string bytes) = some bytes := rfl

/-! ## Reading what was assigned -/

theorem lookup_cons (key name : String) (value : Json) (fields : List (String × Json)) :
    ((name, value) :: fields).lookup key = if key = name then some value else fields.lookup key := by
  rw [List.lookup_cons]
  by_cases h : key = name
  · rw [if_pos h, beq_iff_eq.mpr h]
  · rw [if_neg h, beq_eq_false_iff_ne.mpr h]

theorem lookup_assign (key name : String) (value : Json) (fields : List (String × Json)) :
    (assign name value fields).lookup key =
      if key = name then some value else fields.lookup key := by
  induction fields with
  | nil => rw [assign, lookup_cons]
  | cons entry fields ih =>
    obtain ⟨name', value'⟩ := entry
    rw [assign]
    by_cases hlt : name < name'
    · rw [if_pos hlt, lookup_cons]
    · rw [if_neg hlt]
      by_cases heq : name = name'
      · rw [if_pos heq, lookup_cons, lookup_cons, ← heq]
        by_cases h : key = name
        · rw [if_pos h, if_pos h]
        · rw [if_neg h, if_neg h, if_neg h]
      · rw [if_neg heq, lookup_cons, ih, lookup_cons]
        by_cases h : key = name'
        · have hne : key ≠ name := fun e => heq (e.symm.trans h)
          rw [if_pos h, if_neg hne, if_pos h]
        · rw [if_neg h, if_neg h]

theorem lookup_eq_none {key : String} {fields : List (String × Json)}
    (h : key ∉ fields.map Prod.fst) : fields.lookup key = none := by
  induction fields with
  | nil => rfl
  | cons entry fields ih =>
    rw [List.map_cons, List.mem_cons, not_or] at h
    rw [lookup_cons, if_neg h.1, ih h.2]

theorem lookup_foldl_assign (key : String) (fields made : List (String × Json))
    (h : (fields.map Prod.fst).Nodup) :
    (fields.foldl (fun made field => assign field.1 field.2 made) made).lookup key =
      (fields.lookup key).or (made.lookup key) := by
  induction fields generalizing made with
  | nil => rfl
  | cons entry fields ih =>
    obtain ⟨name, value⟩ := entry
    rw [List.map_cons, List.nodup_cons] at h
    rw [List.foldl_cons, ih _ h.2, lookup_assign, lookup_cons]
    by_cases hkey : key = name
    · rw [if_pos hkey, if_pos hkey, hkey, lookup_eq_none h.1]
      rfl
    · rw [if_neg hkey, if_neg hkey]

theorem get?_ofFields {fields : List (String × Json)} (h : (fields.map Prod.fst).Nodup)
    (key : String) : (ofFields fields).get? key = fields.lookup key := by
  rw [ofFields, get?, lookup_foldl_assign key fields [] h, List.lookup_nil, Option.or_none]

theorem field_ofFields {α : Type} {fields : List (String × Json)}
    (h : (fields.map Prod.fst).Nodup) (key : String) (get : Json → Option α) :
    (ofFields fields).field key get = (fields.lookup key).bind get := by
  rw [field, get?_ofFields h]

/-! ## Texts of a document -/

/-- The string `bytes` occurs in the document as a value. -/
inductive Mentions (bytes : List UInt8) : Json → Prop where
  | string : Mentions bytes (.string bytes)
  | array {item : Json} {items : List Json} (mem : item ∈ items) (h : Mentions bytes item) :
      Mentions bytes (.array items)
  | object {key : String} {value : Json} {fields : List (String × Json)}
      (mem : (key, value) ∈ fields) (h : Mentions bytes value) : Mentions bytes (.object fields)

/-- Every string in the document is UTF-8. -/
def ValidText (json : Json) : Prop := ∀ bytes, Mentions bytes json → IsUtf8 bytes

variable {bytes : List UInt8}

@[simp] theorem not_mentions_null : ¬Mentions bytes .null := nofun

@[simp] theorem not_mentions_number (value : Int) : ¬Mentions bytes (.number value) := nofun

@[simp] theorem mentions_string {bytes' : List UInt8} : Mentions bytes (.string bytes') ↔ bytes = bytes' := by
  constructor
  · intro h
    cases h
    rfl
  · intro heq
    subst heq
    exact .string

theorem mentions_array {items : List Json} :
    Mentions bytes (.array items) ↔ ∃ item ∈ items, Mentions bytes item := by
  constructor
  · intro h
    cases h with
    | array mem h => exact ⟨_, mem, h⟩
  · intro h
    obtain ⟨item, mem, h⟩ := h
    exact .array mem h

theorem mentions_object {fields : List (String × Json)} :
    Mentions bytes (.object fields) ↔ ∃ entry ∈ fields, Mentions bytes entry.2 := by
  constructor
  · intro h
    cases h with
    | object mem h => exact ⟨_, mem, h⟩
  · intro h
    obtain ⟨⟨key, value⟩, mem, h⟩ := h
    exact .object mem h

/-- An assignment to a new name keeps all other fields. -/
theorem perm_assign {key : String} (value : Json) {fields : List (String × Json)}
    (h : key ∉ fields.map Prod.fst) : (assign key value fields).Perm ((key, value) :: fields) := by
  induction fields with
  | nil => exact List.Perm.refl _
  | cons old fields ih =>
    rw [List.map_cons, List.mem_cons, not_or] at h
    rw [assign]
    by_cases hlt : key < old.1
    · rw [if_pos hlt]
    · rw [if_neg hlt, if_neg h.1]
      exact ((ih h.2).cons old).trans (List.Perm.swap _ _ _)

theorem perm_foldl_assign {fields made : List (String × Json)}
    (h : ((made ++ fields).map Prod.fst).Nodup) :
    (fields.foldl (fun made field => assign field.1 field.2 made) made).Perm (made ++ fields) := by
  induction fields generalizing made with
  | nil => simp
  | cons new fields ih =>
    have hmiddle : (made ++ new :: fields).Perm (new :: made ++ fields) := List.perm_middle
    have hnodup : ((new :: made ++ fields).map Prod.fst).Nodup :=
      (hmiddle.map Prod.fst).nodup_iff.mp h
    have hfresh : new.1 ∉ made.map Prod.fst := by
      rw [List.cons_append, List.map_cons, List.nodup_cons, List.map_append, List.mem_append,
        not_or] at hnodup
      exact hnodup.1.1
    have hassign : (assign new.1 new.2 made ++ fields).Perm (new :: made ++ fields) :=
      (perm_assign new.2 hfresh).append_right fields
    exact (ih ((hassign.map Prod.fst).nodup_iff.mpr hnodup)).trans (hassign.trans hmiddle.symm)

theorem mentions_ofFields {fields : List (String × Json)} (h : (fields.map Prod.fst).Nodup) :
    Mentions bytes (ofFields fields) ↔ ∃ entry ∈ fields, Mentions bytes entry.2 := by
  have hperm : (fields.foldl (fun made field => assign field.1 field.2 made) []).Perm ([] ++ fields) :=
    perm_foldl_assign h
  rw [ofFields, mentions_object]
  constructor
  · intro h
    obtain ⟨entry, mem, hentry⟩ := h
    exact ⟨entry, hperm.mem_iff.mp mem, hentry⟩
  · intro h
    obtain ⟨entry, mem, hentry⟩ := h
    exact ⟨entry, hperm.mem_iff.mpr mem, hentry⟩

/-! ## Documents that are UTF-8 -/

theorem validText_string {bytes : List UInt8} : (string bytes).ValidText ↔ IsUtf8 bytes := by
  constructor
  · exact fun h => h bytes (mentions_string.mpr rfl)
  · intro h bytes' hmentions
    rw [mentions_string.mp hmentions]
    exact h

theorem validText_object {fields : List (String × Json)} :
    (object fields).ValidText ↔ ∀ entry ∈ fields, entry.2.ValidText := by
  constructor
  · exact fun h entry hentry bytes hmentions => h bytes (mentions_object.mpr ⟨entry, hentry, hmentions⟩)
  · intro h bytes hmentions
    obtain ⟨entry, hentry, hmentions⟩ := mentions_object.mp hmentions
    exact h entry hentry bytes hmentions

theorem validText_ofFields {fields : List (String × Json)} (h : (fields.map Prod.fst).Nodup) :
    (ofFields fields).ValidText ↔ ∀ entry ∈ fields, entry.2.ValidText := by
  constructor
  · exact fun hvalid entry hentry bytes hmentions =>
      hvalid bytes ((mentions_ofFields h).mpr ⟨entry, hentry, hmentions⟩)
  · intro hvalid bytes hmentions
    obtain ⟨entry, hentry, hmentions⟩ := (mentions_ofFields h).mp hmentions
    exact hvalid entry hentry bytes hmentions

/-! ## Records

A record's two hand-written conversions, with what one trip through a document makes
of the record. -/

/-- `toJson` and `fromJson` agree up to what `reload` changes. -/
structure Codec (α : Type) where
  toJson : α → Json
  fromJson : Json → Option α
  reload : α → α
  texts : α → List (List UInt8)
  fromJson_toJson : ∀ x, fromJson (toJson x) = some (reload x)
  reload_reload : ∀ x, reload (reload x) = reload x
  mentions_toJson : ∀ x bytes, Mentions bytes (toJson x) ↔ bytes ∈ texts x

namespace Codec

variable {α β : Type} (codec : Codec α)

theorem mentions_array (xs : List α) :
    Mentions bytes (.array (xs.map codec.toJson)) ↔ bytes ∈ xs.flatMap codec.texts := by
  rw [Json.mentions_array, List.mem_flatMap]
  constructor
  · intro h
    obtain ⟨item, mem, h⟩ := h
    obtain ⟨x, hx, rfl⟩ := List.mem_map.mp mem
    exact ⟨x, hx, (codec.mentions_toJson x bytes).mp h⟩
  · intro h
    obtain ⟨x, hx, h⟩ := h
    exact ⟨codec.toJson x, List.mem_map_of_mem hx, (codec.mentions_toJson x bytes).mpr h⟩

/-- A loop that reads the items of an array and hands each record to `add`. -/
theorem foldlM_fromJson (add : β → α → β) (xs : List α) (s : β) :
    (xs.map codec.toJson).foldlM (fun s item => (codec.fromJson item).map (add s)) s =
      some ((xs.map codec.reload).foldl add s) := by
  induction xs generalizing s with
  | nil => rfl
  | cons x xs ih =>
    rw [List.map_cons, List.foldlM_cons, codec.fromJson_toJson, List.map_cons, List.foldl_cons]
    exact ih (add s (codec.reload x))

end Codec

end Json

end Base
end Rocprofsys
