import Rocprofsys.Base.Run
import Rocprofsys.Container.StableVector

namespace Rocprofsys
namespace Container

open Base

/-! ## static_vector and aligned_static_vector -/

inductive Layout where
  | packed
  | aligned
  deriving DecidableEq, Repr

/-- As in the texts of the errors. -/
def Layout.container : Layout → String
  | .packed => "static_vector"
  | .aligned => "aligned_static_vector"

structure StaticVector (α : Type) (N : UInt64) where
  /-- `m_size`; in one thread an atomic size counts as a plain one does. -/
  size : UInt64
  data : Vector α N.toNat

namespace StaticVector

variable {α : Type} {N : UInt64} {layout : Layout} {atomic : Bool}

def empty [Inhabited α] : StaticVector α N := ⟨0, Vector.replicate N.toNat default⟩

/-- `m_data[m_size++] = a`. -/
def store (v : StaticVector α N) (a : α) : StaticVector α N :=
  ⟨v.size + 1, v.data.setIfInBounds v.size.toNat a⟩

def reachedCapacity (layout : Layout) (N : UInt64) : ContainerError :=
  .outOfRange (layout.container ++ "::emplace_back - reached capacity " ++ toString N.toNat)

/-- The size is counted up before the capacity is looked at. -/
def emplaceBack (layout : Layout) (v : StaticVector α N) (a : α) :
    StaticVector α N × Option ContainerError :=
  let idx := v.size
  let v := { v with size := v.size + 1 }
  if idx ≥ N then (v, some (reachedCapacity layout N))
  else ({ v with data := v.data.setIfInBounds idx.toNat a }, none)

def popBack (v : StaticVector α N) : StaticVector α N := { v with size := v.size - 1 }

def clear (v : StaticVector α N) : StaticVector α N := { v with size := 0 }

/-- `operator=` of an initializer list. -/
def assignList (layout : Layout) (v : StaticVector α N) (l : List α) :
    StaticVector α N × Option ContainerError :=
  if l.length > N.toNat then
    (v, some (.outOfRange
      (layout.container ++ "::operator=(initializer_list) size > " ++ toString N.toNat)))
  else (l.foldl store v.clear, none)

end StaticVector

open StaticVector

/-- The constructors that compile for the container: what fills or lists the elements does not for
the aligned one, and a copy does not for an atomic size. -/
inductive Construction (α : Type) (N : UInt64) : Layout → Bool → Type where
  | plain {layout : Layout} {atomic : Bool} : Construction α N layout atomic
  | filled {atomic : Bool} (n : UInt64) (a : α) : Construction α N .packed atomic
  /-- From a `c_array` or a `std::array`. -/
  | array {atomic : Bool} (l : List α) : Construction α N .packed atomic
  | copy {layout : Layout} (other : StaticVector α N) : Construction α N layout false

/-- The operations that compile for the container. -/
inductive VectorOperation (α : Type) (N : UInt64) : Layout → Bool → Type where
  | emplaceBack {layout : Layout} {atomic : Bool} (a : α) : VectorOperation α N layout atomic
  | pushBack {layout : Layout} {atomic : Bool} (a : α) : VectorOperation α N layout atomic
  | popBack {layout : Layout} {atomic : Bool} : VectorOperation α N layout atomic
  | clear {layout : Layout} {atomic : Bool} : VectorOperation α N layout atomic
  | reserve {layout : Layout} {atomic : Bool} (n : UInt64) : VectorOperation α N layout atomic
  | shrinkToFit {layout : Layout} {atomic : Bool} : VectorOperation α N layout atomic
  | assignList {atomic : Bool} (l : List α) : VectorOperation α N .packed atomic
  | assignPair {layout : Layout} {atomic : Bool} (data : Vector α N.toNat) (n : UInt64) :
      VectorOperation α N layout atomic
  | assign {layout : Layout} (other : StaticVector α N) : VectorOperation α N layout false
  | swap {layout : Layout} (other : StaticVector α N) : VectorOperation α N layout false
  /-- An assignment to `v[i]`, within the array. -/
  | write {layout : Layout} {atomic : Bool} (i : Fin N.toNat) (a : α) :
      VectorOperation α N layout atomic

variable {α : Type} {N : UInt64} {layout : Layout} {atomic : Bool}

namespace Construction

def vector [Inhabited α] : Construction α N layout atomic → StaticVector α N
  | plain => empty
  | filled n a => ⟨n, Vector.replicate N.toNat a⟩
  | array l => (l.take N.toNat).foldl store empty
  | copy other => other

end Construction

namespace VectorOperation

def apply (v : StaticVector α N) :
    VectorOperation α N layout atomic → StaticVector α N × Option ContainerError
  | emplaceBack a => v.emplaceBack layout a
  | pushBack a => v.emplaceBack layout a
  | popBack => (v.popBack, none)
  | clear => (v.clear, none)
  | reserve _ => (v, none)
  | shrinkToFit => (v, none)
  | assignList l => v.assignList .packed l
  | assignPair data n => (⟨n, data⟩, none)
  | assign other => (other, none)
  | swap other => (other, none)
  | write i a => ({ v with data := v.data.set i.1 a i.2 }, none)

end VectorOperation

/-! ## The elements that are stored -/

namespace StaticVector

/-- The elements below the size. -/
def elements (v : StaticVector α N) : List α := v.data.toList.take v.size.toNat

/-- The size is within the capacity, and the indices below it are the stored elements. -/
structure Holds (v : StaticVector α N) (stored : List α) : Prop where
  size_le : v.size.toNat ≤ N.toNat
  elements_eq : v.elements = stored

end StaticVector

/-- What is stored at first. -/
def Construction.stored : Construction α N layout atomic → List α
  | plain => []
  | filled n a => List.replicate n.toNat a
  | array l => l.take N.toNat
  | copy other => other.elements

namespace VectorOperation

/-- What is stored after an operation; one that fails stores nothing. -/
def stored (before : List α) : VectorOperation α N layout atomic → List α
  | emplaceBack a => if before.length < N.toNat then before ++ [a] else before
  | pushBack a => if before.length < N.toNat then before ++ [a] else before
  | popBack => before.dropLast
  | clear => []
  | reserve _ => before
  | shrinkToFit => before
  | assignList l => if l.length ≤ N.toNat then l else before
  | assignPair data n => data.toList.take n.toNat
  | assign other => other.elements
  | swap other => other.elements
  | write i a => before.set i.1 a

def Inserts : VectorOperation α N layout atomic → Prop
  | emplaceBack _ => True
  | pushBack _ => True
  | _ => False

/-- An insertion into a full vector throws, and what throws leaves the vector as it is. -/
structure FailsCleanly (v : StaticVector α N) (op : VectorOperation α N layout atomic) : Prop where
  throws : op.Inserts → N ≤ v.size → (op.apply v).2.isSome = true
  unchanged : (op.apply v).2.isSome = true → (op.apply v).1 = v

/-- Nothing is inserted into a full vector or popped from an empty one, and no size above the
capacity is given. -/
def Allowed (v : StaticVector α N) : VectorOperation α N layout atomic → Prop
  | emplaceBack _ => v.size < N
  | pushBack _ => v.size < N
  | popBack => 0 < v.size
  | assignPair _ n => n ≤ N
  | assign other => other.size ≤ N
  | swap other => other.size ≤ N
  | _ => True

/-- The vector, and what is stored. -/
def step (s : StaticVector α N × List α) (op : VectorOperation α N layout atomic) :
    StaticVector α N × List α := ((op.apply s.1).1, op.stored s.2)

end VectorOperation

def Construction.Allowed : Construction α N layout atomic → Prop
  | filled n _ => n ≤ N
  | copy other => other.size ≤ N
  | _ => True

/-! ## One operation -/

variable {v : StaticVector α N} {before l : List α} {a : α}

namespace StaticVector

theorem Holds.length_eq (h : Holds v before) : before.length = v.size.toNat := by
  have hle := h.size_le
  rw [← h.elements_eq, elements, List.length_take, Vector.length_toList]
  omega

theorem Holds.store (h : Holds v before) (hlt : before.length < N.toNat) :
    Holds (v.store a) (before ++ [a]) := by
  have hlength := h.length_eq
  have hsize : (v.size + 1).toNat = v.size.toNat + 1 := by
    have hN := N.toNat_lt
    have hone : (1 : UInt64).toNat = 1 := rfl
    rw [UInt64.toNat_add]
    omega
  constructor
  · show (v.size + 1).toNat ≤ N.toNat
    omega
  · show ((v.data.setIfInBounds v.size.toNat a).toList.take (v.size + 1).toNat) = _
    have hlast : v.size.toNat < v.data.toList.length := by
      rw [Vector.length_toList]
      omega
    rw [hsize, Vector.toList_setIfInBounds, List.take_add_one, List.take_set_of_le le_rfl, List.getElem?_set_self hlast,
      ← h.elements_eq, elements, Option.toList_some]

theorem Holds.foldl_store (h : Holds v before) (hle : before.length + l.length ≤ N.toNat) :
    Holds (l.foldl StaticVector.store v) (before ++ l) := by
  induction l generalizing v before with
  | nil => rwa [List.append_nil]
  | cons a l ih =>
    rw [List.length_cons] at hle
    have hstore : Holds (v.store a) (before ++ [a]) := h.store (by omega)
    have hrest := ih hstore (by rw [List.length_append, List.length_singleton]; omega)
    rwa [List.append_assoc, List.singleton_append] at hrest

theorem holds_nil (data : Vector α N.toNat) : Holds ⟨0, data⟩ [] :=
  ⟨Nat.zero_le _, List.take_zero⟩

/-- A vector of a given size holds its elements unless the size is too large. -/
theorem holds_elements_iff : Holds v v.elements ↔ v.size ≤ N := by
  rw [UInt64.le_iff_toNat_le]
  exact ⟨fun h => h.size_le, fun h => ⟨h, rfl⟩⟩

end StaticVector

namespace VectorOperation

/-- What a step keeps, and owes. -/
def Right (s : StaticVector α N × List α) (op : VectorOperation α N layout atomic) : Prop :=
  (step s op).1.Holds (step s op).2 ∧ op.FailsCleanly s.1

/-- An operation that neither throws nor has to. -/
theorem right_iff_of_none {op : VectorOperation α N layout atomic}
    (hroom : op.Inserts → ¬ N ≤ v.size) (hnone : (op.apply v).2 = none) :
    op.Right (v, before) ↔ (op.apply v).1.Holds (op.stored before) := by
  refine and_iff_left ⟨fun hop hfull => absurd hfull (hroom hop), fun hthrows => ?_⟩
  rw [hnone] at hthrows
  cases hthrows

theorem right_iff_of_not_inserts {op : VectorOperation α N layout atomic} (hop : ¬ op.Inserts)
    (hnone : (op.apply v).2 = none) :
    op.Right (v, before) ↔ (op.apply v).1.Holds (op.stored before) :=
  right_iff_of_none (fun hinserts => absurd hinserts hop) hnone

theorem emplaceBack_of_lt (h : v.size < N) :
    v.emplaceBack layout a = (v.store a, none) := if_neg (UInt64.not_le.mpr h)

/-- The size of a full vector is counted up all the same. -/
theorem emplaceBack_of_le (h : N ≤ v.size) : v.emplaceBack layout a =
    ({ v with size := v.size + 1 }, some (reachedCapacity layout N)) := if_pos h

/-- The two insertions. -/
theorem right_insert_iff {op : VectorOperation α N layout atomic} (h : v.Holds before)
    (happly : op.apply v = v.emplaceBack layout a)
    (hstored : op.stored before = if before.length < N.toNat then before ++ [a] else before) :
    op.Right (v, before) ↔ v.size < N := by
  have hlength := h.length_eq
  by_cases hlt : v.size < N
  · have hroom : before.length < N.toNat := by
      rw [UInt64.lt_iff_toNat_lt] at hlt
      omega
    rw [right_iff_of_none (fun _ => UInt64.not_le.mpr hlt)
      (by rw [happly, emplaceBack_of_lt hlt]), happly, hstored, emplaceBack_of_lt hlt,
      if_pos hroom]
    exact iff_of_true (h.store hroom) hlt
  · refine iff_of_false (fun hright => ?_) hlt
    have hfails := hright.2
    have hunchanged := hfails.unchanged
    rw [happly, emplaceBack_of_le (UInt64.not_lt.mp hlt)] at hunchanged
    have hsize : v.size + 1 = v.size := congrArg StaticVector.size (hunchanged rfl)
    have hone : (1 : UInt64).toNat = 1 := rfl
    have hsum := UInt64.toNat_add v.size 1
    have hbound := v.size.toNat_lt
    rw [hsize] at hsum
    omega

theorem right_popBack_iff (h : v.Holds before) :
    (popBack : VectorOperation α N layout atomic).Right (v, before) ↔ 0 < v.size := by
  have hsize := h.size_le
  have hlength := h.length_eq
  have hpos : 0 < v.size ↔ 0 < v.size.toNat := UInt64.lt_iff_toNat_lt
  have hone : (1 : UInt64).toNat = 1 := rfl
  have hsub := UInt64.toNat_sub v.size 1
  rw [hpos]
  refine (right_iff_of_not_inserts id rfl).trans ?_
  show Holds v.popBack before.dropLast ↔ _
  constructor
  · intro hpop
    -- the size of an empty vector wraps around, and nothing is stored
    have hpopped := hpop.length_eq
    rw [List.length_dropLast] at hpopped
    have hwrapped : v.popBack.size = v.size - 1 := rfl
    rw [hwrapped] at hpopped
    omega
  · intro hlt
    have hless : (v.size - 1).toNat = v.size.toNat - 1 := by
      have hbound := v.size.toNat_lt
      omega
    constructor
    · show (v.size - 1).toNat ≤ N.toNat
      omega
    · show v.data.toList.take (v.size - 1).toNat = _
      rw [hless, ← h.elements_eq, elements, List.dropLast_eq_take, List.take_take,
        List.length_take, Vector.length_toList]
      congr 1
      omega

theorem right_assignList (l : List α) (h : v.Holds before) :
    (assignList l : VectorOperation α N .packed atomic).Right (v, before) := by
  have happly : (assignList l : VectorOperation α N .packed atomic).apply v =
      v.assignList .packed l := rfl
  have hstored : (assignList l : VectorOperation α N .packed atomic).stored before =
      if l.length ≤ N.toNat then l else before := rfl
  by_cases hle : l.length ≤ N.toNat
  · have hlist : v.assignList .packed l = (l.foldl store v.clear, none) :=
      if_neg (Nat.not_lt.mpr hle)
    refine (right_iff_of_not_inserts id (by rw [happly, hlist])).mpr ?_
    rw [happly, hlist, hstored, if_pos hle]
    exact (holds_nil v.data).foldl_store (by rwa [List.length_nil, Nat.zero_add])
  · have hfails : (v.assignList .packed l).1 = v := by
      rw [StaticVector.assignList, if_pos (Nat.lt_of_not_le hle)]
    constructor
    · show Holds (v.assignList .packed l).1 (if l.length ≤ N.toNat then l else before)
      rwa [hfails, if_neg hle]
    · exact ⟨fun hop : False => hop.elim, fun _ => hfails⟩

theorem right_write (i : Fin N.toNat) (a : α) (h : v.Holds before) :
    (write i a : VectorOperation α N layout atomic).Right (v, before) := by
  refine (right_iff_of_not_inserts id rfl).mpr ⟨h.size_le, ?_⟩
  show (v.data.set i.1 a i.2).toList.take v.size.toNat = before.set i.1 a
  rw [Vector.toList_set, List.take_set, ← h.elements_eq, elements]

/-- A right state is followed by a right one exactly if the operation is allowed. -/
theorem right_iff (h : v.Holds before) (op : VectorOperation α N layout atomic) :
    op.Right (v, before) ↔ op.Allowed v := by
  cases op with
  | emplaceBack a => exact right_insert_iff h rfl rfl
  | pushBack a => exact right_insert_iff h rfl rfl
  | popBack => exact right_popBack_iff h
  | clear => exact iff_of_true ((right_iff_of_not_inserts id rfl).mpr (holds_nil v.data)) trivial
  | reserve n => exact iff_of_true ((right_iff_of_not_inserts id rfl).mpr h) trivial
  | shrinkToFit => exact iff_of_true ((right_iff_of_not_inserts id rfl).mpr h) trivial
  | assignList l => exact iff_of_true (right_assignList l h) trivial
  | assignPair data n => exact (right_iff_of_not_inserts id rfl).trans holds_elements_iff
  | assign other => exact (right_iff_of_not_inserts id rfl).trans holds_elements_iff
  | swap other => exact (right_iff_of_not_inserts id rfl).trans holds_elements_iff
  | write i a => exact iff_of_true (right_write i a h) trivial

end VectorOperation

/-! ## Every run -/

/-- A vector that is made as allowed holds what is stored in it. -/
theorem holds_vector_iff [Inhabited α] (made : Construction α N layout atomic) :
    made.vector.Holds made.stored ↔ made.Allowed := by
  cases made with
  | plain => exact iff_of_true (holds_nil _) trivial
  | filled n a =>
    constructor
    · intro h
      exact UInt64.le_iff_toNat_le.mpr h.size_le
    · intro hle
      have hle' : n.toNat ≤ N.toNat := UInt64.le_iff_toNat_le.mp hle
      refine ⟨hle', ?_⟩
      show (Vector.replicate N.toNat a).toList.take n.toNat = List.replicate n.toNat a
      rw [Vector.toList_replicate, List.take_replicate, Nat.min_eq_left hle']
  | array l =>
    refine iff_of_true ?_ trivial
    have hlength : (l.take N.toNat).length ≤ N.toNat := List.length_take_le _ _
    exact (holds_nil _).foldl_store (by rwa [List.length_nil, Nat.zero_add])
  | copy other => exact holds_elements_iff

/-- One element too many. -/
def oneTooMany (layout : Layout) (atomic : Bool) : List (VectorOperation ℕ 1 layout atomic) :=
  [.emplaceBack 7, .emplaceBack 8]

theorem size_oneTooMany (layout : Layout) (atomic : Bool) :
    ((oneTooMany layout atomic).foldl VectorOperation.step (empty, [])).1.size = 2 := rfl

end Container
end Rocprofsys
