import Mathlib.Data.Int.Notation
import Mathlib.Data.List.Basic

namespace Rocprofsys
namespace Base

/-- What an archive keeps under a name. -/
inductive Node where
  | number (n : ℕ)
  | integer (n : ℤ)
  | flag (b : Bool)
  | text (s : String)
  | object (fields : List (String × Node))
  | array (items : List Node)

namespace Node

/-- The value of a name: an input archive finds it wherever it stands in the node. -/
def get? : Node → String → Option Node
  | object fields, name => fields.lookup name
  | _, _ => none

/-- `setNextName` and `startNode` of an input archive. -/
def enter (name : String) (node : Node) : Except String Node :=
  match node.get? name with
  | some value => .ok value
  | none => .error ("provided NVP (" ++ name ++ ") not found")

theorem enter_object {name : String} {fields : List (String × Node)} {value : Node}
    (h : fields.lookup name = some value) : (object fields).enter name = .ok value := by
  show (match fields.lookup name with | some value => _ | none => _) = _
  rw [h]

theorem enter_object_of_none {name : String} {fields : List (String × Node)}
    (h : fields.lookup name = none) :
    (object fields).enter name = .error ("provided NVP (" ++ name ++ ") not found") := by
  show (match fields.lookup name with | some value => _ | none => _) = _
  rw [h]

/-- A type with what an output archive writes of its values and what an input archive makes of
it, which is `reload`. -/
structure Codec (α : Type) where
  save : α → Except String Node
  load : Node → Except String α
  reload : α → α
  load_save : ∀ {a node}, save a = .ok node → load node = .ok (reload a)

namespace Codec

variable {α β : Type}

/-- Values that are one node. -/
def ofNode (make : α → Node) (read : Node → Option α) (h : ∀ a, read (make a) = some a) :
    Codec α where
  save a := .ok (make a)
  load node := match read node with
    | some a => .ok a
    | none => .error "unexpected type"
  reload := id
  load_save hsave := by
    cases hsave
    rw [h]
    rfl

def number : Codec ℕ := ofNode .number (fun | .number n => some n | _ => none) fun _ => rfl

def flag : Codec Bool := ofNode .flag (fun | .flag b => some b | _ => none) fun _ => rfl

def text : Codec String := ofNode .text (fun | .text s => some s | _ => none) fun _ => rfl

/-- `make_nvp` of an input archive: the value of a name, which has to be there. -/
def named (codec : Codec α) (name : String) (node : Node) : Except String α :=
  node.enter name >>= codec.load

theorem named_object {codec : Codec α} {name : String} {fields : List (String × Node)} {a : α}
    {value : Node} (h : fields.lookup name = some value) (hsave : codec.save a = .ok value) :
    codec.named name (object fields) = .ok (codec.reload a) := by
  rw [named, enter_object h]
  exact codec.load_save hsave

def pair (first : Codec α) (second : Codec β) : Codec (α × β) where
  save ab := do
    return object [("first", ← first.save ab.1), ("second", ← second.save ab.2)]
  load node := do
    let a ← first.named "first" node
    let b ← second.named "second" node
    return (a, b)
  reload ab := (first.reload ab.1, second.reload ab.2)
  load_save := by
    intro ab node hsave
    cases hfirst : first.save ab.1 with
    | error e => rw [hfirst] at hsave; cases hsave
    | ok x =>
      cases hsecond : second.save ab.2 with
      | error e => rw [hfirst, hsecond] at hsave; cases hsave
      | ok y =>
        rw [hfirst, hsecond] at hsave
        cases hsave
        rw [named_object rfl hfirst, named_object rfl hsecond]
        rfl

/-- The items of an array, in their order. -/
def saveItems (codec : Codec α) (l : List α) : Except String Node :=
  array <$> l.mapM codec.save

def loadItems (codec : Codec α) : Node → Except String (List α)
  | array items => items.mapM codec.load
  | _ => .error "unexpected type"

theorem loadItems_saveItems {codec : Codec α} {l : List α} {node : Node}
    (h : codec.saveItems l = .ok node) : codec.loadItems node = .ok (l.map codec.reload) := by
  have hitems : ∀ items, l.mapM codec.save = .ok items →
      items.mapM codec.load = .ok (l.map codec.reload) := by
    clear h
    induction l with
    | nil =>
      intro items h
      cases h
      rfl
    | cons a l ih =>
      intro items h
      rw [List.mapM_cons] at h
      cases ha : codec.save a with
      | error e => rw [ha] at h; cases h
      | ok x =>
        cases hl : l.mapM codec.save with
        | error e => rw [ha, hl] at h; cases h
        | ok xs =>
          rw [ha, hl] at h
          cases h
          rw [List.mapM_cons, codec.load_save ha, ih xs hl]
          rfl
  unfold saveItems at h
  cases hl : l.mapM codec.save with
  | error e => rw [hl] at h; cases h
  | ok items =>
    rw [hl] at h
    cases h
    exact hitems items hl

end Codec

end Node

end Base
end Rocprofsys
