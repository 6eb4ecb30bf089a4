import Rocprofsys.Base.Run

namespace Rocprofsys
namespace Dl

open Base

/-! ## Calls -/

/-- `rocprofsys_annotation_t`. -/
structure Annotation where
  name : String
  type : UInt64
  value : UInt64
  deriving DecidableEq, Repr

/-- The calls that an instrumented thread makes into the dl library. -/
inductive Call where
  | pushTrace (name : String)
  | popTrace (name : String)
  | pushRegion (name : String)
  | popRegion (name : String)
  | pushCategoryRegion (category : Nat) (name : String) (annotations : List Annotation)
  | popCategoryRegion (category : Nat) (name : String) (annotations : List Annotation)
  | startTrace
  | stopTrace
  | startThreadTrace
  | stopThreadTrace
  deriving DecidableEq, Repr

/-- What a push opens and a pop closes. -/
inductive Region where
  | trace (name : String)
  | region (name : String)
  | categoryRegion (category : Nat) (name : String)
  deriving DecidableEq, Repr

namespace Call

def opens : Call → Option Region
  | .pushTrace name => some (.trace name)
  | .pushRegion name => some (.region name)
  | .pushCategoryRegion category name _ => some (.categoryRegion category name)
  | _ => none

def closes : Call → Option Region
  | .popTrace name => some (.trace name)
  | .popRegion name => some (.region name)
  | .popCategoryRegion category name _ => some (.categoryRegion category name)
  | _ => none

end Call

/-- The open regions, innermost first. A pop has to close the innermost one. -/
def nest (opened : List Region) (call : Call) : Option (List Region) :=
  match call.opens with
  | some region => some (region :: opened)
  | none =>
    match call.closes with
    | none => some opened
    | some region => if opened.head? = some region then some opened.tail else none

/-- Pushes and pops are properly nested. -/
def Nested (opened : List Region) (calls : List Call) : Prop :=
  (runFrom nest opened calls).isSome

instance (opened : List Region) (calls : List Call) : Decidable (Nested opened calls) :=
  inferInstanceAs (Decidable (_ = true))

section Nested

variable {opened : List Region} {c : Call} {calls : List Call}

theorem nested_cons :
    Nested opened (c :: calls) ↔ ∃ opened', nest opened c = some opened' ∧ Nested opened' calls :=
  isSome_runFrom_cons

theorem nested_cons_of_some {opened' : List Region} (h : nest opened c = some opened') :
    Nested opened (c :: calls) ↔ Nested opened' calls := by
  rw [nested_cons, h]
  constructor
  · intro h
    obtain ⟨opened'', heq, hnested⟩ := h
    cases heq
    exact hnested
  · exact fun hnested => ⟨opened', rfl, hnested⟩

theorem nested_cons_of_opens {region : Region} (h : c.opens = some region) :
    Nested opened (c :: calls) ↔ Nested (region :: opened) calls :=
  nested_cons_of_some (by rw [nest, h])

theorem nested_cons_of_closes {region : Region} (hopens : c.opens = none)
    (hcloses : c.closes = some region) :
    Nested opened (c :: calls) ↔ opened.head? = some region ∧ Nested opened.tail calls := by
  have hnest : nest opened c = if opened.head? = some region then some opened.tail else none := by
    rw [nest, hopens, hcloses]
  by_cases hhead : opened.head? = some region
  · rw [if_pos hhead] at hnest
    rw [nested_cons_of_some hnest, and_iff_right hhead]
  · rw [if_neg hhead] at hnest
    rw [nested_cons, hnest]
    refine iff_of_false ?_ fun h => hhead h.1
    intro h
    obtain ⟨opened', heq, -⟩ := h
    cases heq

theorem nested_cons_of_neither (hopens : c.opens = none) (hcloses : c.closes = none) :
    Nested opened (c :: calls) ↔ Nested opened calls :=
  nested_cons_of_some (by rw [nest, hopens, hcloses])

end Nested

/-! ## The thread -/

/-- The flags of the process that a thread reads, and the thread's own flag and count. -/
structure Thread where
  active : Bool
  enabled : Bool
  threadEnabled : Bool
  threadCount : Int
  deriving DecidableEq, Repr

namespace Thread

/-- A new thread of an active process takes the flag of the process. -/
def start (enabled : Bool) : Thread where
  active := true
  enabled := enabled
  threadEnabled := enabled
  threadCount := 0

/-- `rocprofsys_user_start_thread_trace_dl`. -/
def startThreadTrace (t : Thread) : Thread := { t with threadEnabled := true }

/-- `rocprofsys_user_stop_thread_trace_dl`. -/
def stopThreadTrace (t : Thread) : Thread := { t with threadEnabled := false }

/-- `rocprofsys_user_start_trace_dl`. -/
def startTrace (t : Thread) : Thread := startThreadTrace { t with enabled := true }

/-- `rocprofsys_user_stop_trace_dl`. -/
def stopTrace (t : Thread) : Thread := stopThreadTrace { t with enabled := false }

/-- The entry points forward a call to the backend, or change the count. -/
def entry (t : Thread) (call : Call) (suppressed : Thread → Thread) : Thread × Option Call :=
  if t.active then
    if t.threadEnabled then (t, some call) else (suppressed t, none)
  else (t, none)

def incrementCount (t : Thread) : Thread := { t with threadCount := t.threadCount + 1 }

/-- A pop starts tracing again where the count was zero. -/
def decrementCount (t : Thread) : Thread :=
  let t' := { t with threadCount := t.threadCount - 1 }
  if t.threadCount = 0 then t'.startThreadTrace else t'

def pushTrace (t : Thread) (name : String) : Thread × Option Call :=
  t.entry (.pushTrace name) incrementCount

def popTrace (t : Thread) (name : String) : Thread × Option Call :=
  t.entry (.popTrace name) decrementCount

def pushRegion (t : Thread) (name : String) : Thread × Option Call :=
  t.entry (.pushRegion name) incrementCount

def popRegion (t : Thread) (name : String) : Thread × Option Call :=
  t.entry (.popRegion name) decrementCount

def pushCategoryRegion (t : Thread) (category : Nat) (name : String)
    (annotations : List Annotation) : Thread × Option Call :=
  t.entry (.pushCategoryRegion category name annotations) incrementCount

/-- The only pop that counts up. -/
def popCategoryRegion (t : Thread) (category : Nat) (name : String)
    (annotations : List Annotation) : Thread × Option Call :=
  t.entry (.popCategoryRegion category name annotations) incrementCount

/-- The thread after a call, and the call that the backend gets. -/
def call (t : Thread) : Call → Thread × Option Call
  | .pushTrace name => t.pushTrace name
  | .popTrace name => t.popTrace name
  | .pushRegion name => t.pushRegion name
  | .popRegion name => t.popRegion name
  | .pushCategoryRegion category name annotations => t.pushCategoryRegion category name annotations
  | .popCategoryRegion category name annotations => t.popCategoryRegion category name annotations
  | .startTrace => (t.startTrace, none)
  | .stopTrace => (t.stopTrace, none)
  | .startThreadTrace => (t.startThreadTrace, none)
  | .stopThreadTrace => (t.stopThreadTrace, none)

/-- The calls that reach the backend. -/
def forwarded (t : Thread) : List Call → List Call
  | [] => []
  | c :: calls => (t.call c).2.toList ++ forwarded (t.call c).1 calls

end Thread

/-! ## What a call does -/

/-- The setting that a call asks for, if it is a start or a stop. -/
def Call.setting : Call → Option Bool
  | .startTrace => some true
  | .stopTrace => some false
  | .startThreadTrace => some true
  | .stopThreadTrace => some false
  | _ => none

/-- The pop of a category region. -/
def Call.isCategoryPop : Call → Bool
  | .popCategoryRegion _ _ _ => true
  | _ => false

/-- A call is a push, a pop, or a start or stop. -/
theorem Call.cases (c : Call) :
    (∃ region, c.opens = some region ∧ c.closes = none ∧ c.setting = none) ∨
    (∃ region, c.opens = none ∧ c.closes = some region ∧ c.setting = none) ∨
    ∃ on, c.opens = none ∧ c.closes = none ∧ c.setting = some on := by
  cases c with
  | pushTrace name => exact .inl ⟨_, rfl, rfl, rfl⟩
  | pushRegion name => exact .inl ⟨_, rfl, rfl, rfl⟩
  | pushCategoryRegion category name annotations => exact .inl ⟨_, rfl, rfl, rfl⟩
  | popTrace name => exact .inr (.inl ⟨_, rfl, rfl, rfl⟩)
  | popRegion name => exact .inr (.inl ⟨_, rfl, rfl, rfl⟩)
  | popCategoryRegion category name annotations => exact .inr (.inl ⟨_, rfl, rfl, rfl⟩)
  | startTrace => exact .inr (.inr ⟨_, rfl, rfl, rfl⟩)
  | stopTrace => exact .inr (.inr ⟨_, rfl, rfl, rfl⟩)
  | startThreadTrace => exact .inr (.inr ⟨_, rfl, rfl, rfl⟩)
  | stopThreadTrace => exact .inr (.inr ⟨_, rfl, rfl, rfl⟩)

namespace Thread

variable {t : Thread} {c : Call}

theorem active_call (t : Thread) (c : Call) : (t.call c).1.active = t.active := by
  have hentry (call : Call) {suppressed : Thread → Thread}
      (h : (suppressed t).active = t.active) : (t.entry call suppressed).1.active = t.active := by
    rw [entry]
    split
    · split
      · rfl
      · exact h
    · rfl
  have hdecrement : t.decrementCount.active = t.active := by
    rw [decrementCount]
    split <;> rfl
  cases c with
  | popTrace name => exact hentry _ hdecrement
  | popRegion name => exact hentry _ hdecrement
  | pushTrace name => exact hentry _ rfl
  | pushRegion name => exact hentry _ rfl
  | pushCategoryRegion category name annotations => exact hentry _ rfl
  | popCategoryRegion category name annotations => exact hentry _ rfl
  | _ => rfl

/-- The backend gets a call unchanged or not at all. -/
theorem forwards_same (t : Thread) (c : Call) : (t.call c).2 = none ∨ (t.call c).2 = some c := by
  have hentry (call : Call) (suppressed : Thread → Thread) :
      (t.entry call suppressed).2 = none ∨ (t.entry call suppressed).2 = some call := by
    rw [entry]
    split
    · split
      · exact .inr rfl
      · exact .inl rfl
    · exact .inl rfl
  cases c with
  | startTrace => exact .inl rfl
  | stopTrace => exact .inl rfl
  | startThreadTrace => exact .inl rfl
  | stopThreadTrace => exact .inl rfl
  | _ => exact hentry _ _

/-- Only what is enabled forwards, and it forwards every push and pop unchanged. -/
theorem call_of_enabled (hactive : t.active = true) (henabled : t.threadEnabled = true)
    (hsetting : c.setting = none) : t.call c = (t, some c) := by
  have hentry (call : Call) (suppressed : Thread → Thread) :
      t.entry call suppressed = (t, some call) := by
    rw [entry, if_pos hactive, if_pos henabled]
  cases c with
  | startTrace => cases hsetting
  | stopTrace => cases hsetting
  | startThreadTrace => cases hsetting
  | stopThreadTrace => cases hsetting
  | _ => exact hentry _ _

theorem entry_of_disabled (hactive : t.active = true) (hdisabled : t.threadEnabled = false)
    (call : Call) (suppressed : Thread → Thread) :
    t.entry call suppressed = (suppressed t, none) := by
  rw [entry, if_pos hactive, if_neg (Bool.eq_false_iff.mp hdisabled)]

theorem push_of_disabled (hactive : t.active = true) (hdisabled : t.threadEnabled = false)
    {region : Region} (hopens : c.opens = some region) : t.call c = (t.incrementCount, none) := by
  cases c with
  | pushTrace name => exact entry_of_disabled hactive hdisabled _ _
  | pushRegion name => exact entry_of_disabled hactive hdisabled _ _
  | pushCategoryRegion category name annotations => exact entry_of_disabled hactive hdisabled _ _
  | _ => cases hopens

theorem pop_of_disabled (hactive : t.active = true) (hdisabled : t.threadEnabled = false)
    {region : Region} (hcloses : c.closes = some region) :
    t.call c = (if c.isCategoryPop then t.incrementCount else t.decrementCount, none) := by
  cases c with
  | popTrace name => exact entry_of_disabled hactive hdisabled _ _
  | popRegion name => exact entry_of_disabled hactive hdisabled _ _
  | popCategoryRegion category name annotations => exact entry_of_disabled hactive hdisabled _ _
  | _ => cases hcloses

/-- A start or a stop sets the flag, keeps the count and reaches no backend. -/
theorem call_of_setting {on : Bool} (hsetting : c.setting = some on) :
    (t.call c).2 = none ∧ (t.call c).1.threadEnabled = on ∧
      (t.call c).1.threadCount = t.threadCount := by
  cases c with
  | startTrace => cases hsetting; exact ⟨rfl, rfl, rfl⟩
  | stopTrace => cases hsetting; exact ⟨rfl, rfl, rfl⟩
  | startThreadTrace => cases hsetting; exact ⟨rfl, rfl, rfl⟩
  | stopThreadTrace => cases hsetting; exact ⟨rfl, rfl, rfl⟩
  | _ => cases hsetting

end Thread

end Dl
end Rocprofsys
