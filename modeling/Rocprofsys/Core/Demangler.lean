import Mathlib.Logic.Function.Basic
import Rocprofsys.Base.Run
import Rocprofsys.Base.StringView

namespace Rocprofsys
namespace Core

open Base

abbrev Bytes := List UInt8

/-! ## Views and the demangler -/

/-- A view into a buffer: the memory from its start on, and its length.  No NUL need follow. -/
structure View where
  memory : Bytes
  length : ℕ
  fits : length ≤ memory.length
  deriving DecidableEq

namespace View

/-- The characters of the view. -/
def text (v : View) : Bytes := v.memory.take v.length

/-- What is read from its start up to the first NUL, if there is one to stop at. -/
def cText (v : View) : Option CText :=
  if 0 ∈ v.memory then
    some ⟨v.memory.takeWhile (· ≠ 0), fun h => by
      have hne := List.mem_takeWhile_imp h
      exact absurd rfl (of_decide_eq_true hne)⟩
  else none

/-- The first NUL stands right behind the characters. -/
def Exact (v : View) : Prop := v.cText.map Subtype.val = some v.text

instance (v : View) : Decidable v.Exact :=
  inferInstanceAs (Decidable (v.cText.map Subtype.val = some v.text))

end View

/-- `DemanglerTp::demangle`, with nothing where it sets a status or returns null; the empty text is
no mangled name. -/
structure Demangler where
  demangle : CText → Option CText
  rejectsEmpty : demangle ⟨[], List.not_mem_nil⟩ = none

namespace Demangler

variable (D : Demangler) {κ : Type}

/-- `demangle_impl` of the pointer to a view; nothing where it reads past the memory. -/
def demangleImpl (v : View) : Option Bytes :=
  v.cText.map fun mangledName => ((D.demangle mangledName).getD mangledName).1

/-- The demangling of characters, or these themselves; one with a NUL in it is no C string. -/
def demangled (text : Bytes) : Bytes :=
  if h : 0 ∈ text then text else ((D.demangle ⟨text, h⟩).getD ⟨text, h⟩).1

/-! ## The cache and its threads -/

/-- The cache, and the names whose threads are between the two locks. -/
structure State (κ : Type) where
  cache : Bytes → Option Bytes
  waiting : κ → Option View

def start : State κ := ⟨fun _ => none, fun _ => none⟩

/-- What is done under one lock: a call up to its look into the cache, or the rest of it. -/
inductive Event (κ : Type) where
  | demangle (thread : κ) (name : View)
  | cache (thread : κ)

/-- The name of a call and what it returns. -/
abbrev Return := View × Option Bytes

/-- `demangle_and_cache`, under the write lock. -/
def demangleAndCache (s : State κ) (v : View) : State κ × Option Return :=
  match s.cache v.text with
  | some result => (s, some (v, some result))
  | none =>
    match D.demangleImpl v with
    | some result =>
      ({ s with cache := Function.update s.cache v.text (some result) }, some (v, some result))
    | none => (s, some (v, none))

/-- What happens to the cache, and what is returned.  A thread makes one call at a time. -/
def call [DecidableEq κ] (s : State κ) : Event κ → State κ × Option Return
  | .demangle thread name =>
    match s.waiting thread with
    | some _ => (s, none)
    | none =>
      if name.text = [] then (s, some (name, some []))
      else
        match s.cache name.text with
        | some result => (s, some (name, some result))
        | none => ({ s with waiting := Function.update s.waiting thread (some name) }, none)
  | .cache thread =>
    match s.waiting thread with
    | none => (s, none)
    | some name =>
      D.demangleAndCache { s with waiting := Function.update s.waiting thread none } name

def step [DecidableEq κ] (s : State κ) (e : Event κ) : State κ := (D.call s e).1

/-- What is returned, if anything, is the demangling of the characters. -/
def ReturnsRight [DecidableEq κ] (s : State κ) (e : Event κ) : Prop :=
  ∀ name result, (D.call s e).2 = some (name, result) → result = some (D.demangled name.text)

/-- All calls of a run return what they should. -/
def Right [DecidableEq κ] (events : List (Event κ)) : Prop := AtSteps D.step D.ReturnsRight start events

/-! ## The names that are in the cache -/

/-- Which names have an entry, whatever it is. -/
structure Names (κ : Type) where
  known : Bytes → Bool
  waiting : κ → Option View

namespace Names

def start : Names κ := ⟨fun _ => false, fun _ => none⟩

/-- The name for which the event makes an entry. -/
def filling (n : Names κ) : Event κ → Option View
  | .demangle _ _ => none
  | .cache thread => (n.waiting thread).filter fun name => !n.known name.text

def step [DecidableEq κ] (n : Names κ) : Event κ → Names κ
  | .demangle thread name =>
    if n.waiting thread ≠ none ∨ name.text = [] ∨ n.known name.text = true then n
    else { n with waiting := Function.update n.waiting thread (some name) }
  | .cache thread =>
    match n.waiting thread with
    | none => n
    | some name =>
      { known := if name.cText = none then n.known else Function.update n.known name.text true
        waiting := Function.update n.waiting thread none }

end Names

/-- Every call that makes an entry has a view that ends where the first NUL stands. -/
def FillsExactly [DecidableEq κ] (events : List (Event κ)) : Prop :=
  AtSteps Names.step (fun n e => ∀ name, Names.filling n e = some name → name.Exact) Names.start
    events

/-! ## Right entries -/

/-- What is read from the view is demangled as its characters are. -/
def ReadsRight (v : View) : Prop := D.demangleImpl v = some (D.demangled v.text)

/-- The entries of the cache are the demanglings of their names. -/
def CacheRight (s : State κ) : Prop :=
  ∀ text result, s.cache text = some result → result = D.demangled text

/-- The name for which an event makes an entry. -/
def filling (s : State κ) : Event κ → Option View
  | .demangle _ _ => none
  | .cache thread => (s.waiting thread).filter fun name => (s.cache name.text).isNone

variable {D} {s : State κ} {n : Names κ} {e : Event κ} {v : View}

theorem demangled_nil : D.demangled [] = [] := by
  rw [demangled, dif_neg List.not_mem_nil, D.rejectsEmpty]
  rfl

/-- The rest of a call returns what it should if the name is cached, or else if it is read right. -/
theorem demangleAndCache_right (hs : D.CacheRight s) :
    (∀ name result, (D.demangleAndCache s v).2 = some (name, result) →
        result = some (D.demangled name.text)) ↔
      (s.cache v.text = none → D.ReadsRight v) := by
  unfold demangleAndCache ReadsRight
  cases hcache : s.cache v.text with
  | some cached =>
    refine iff_of_true ?_ (fun h => absurd h (Option.some_ne_none _))
    rintro name result ⟨⟩
    rw [hs v.text cached hcache]
  | none =>
    cases D.demangleImpl v with
    | none =>
      constructor
      · exact fun h _ => h v none rfl
      · intro h
        cases h rfl
    | some read =>
      constructor
      · exact fun h _ => h v (some read) rfl
      · rintro h name result ⟨⟩
        exact h rfl

theorem cacheRight_demangleAndCache (hs : D.CacheRight s)
    (h : s.cache v.text = none → D.ReadsRight v) : D.CacheRight (D.demangleAndCache s v).1 := by
  unfold demangleAndCache
  cases hcache : s.cache v.text with
  | some cached => exact hs
  | none =>
    have hread := h hcache
    rw [ReadsRight] at hread
    rw [hread]
    intro text result hresult
    replace hresult : Function.update s.cache v.text (some (D.demangled v.text)) text =
        some result := hresult
    by_cases heq : text = v.text
    · rw [heq, Function.update_self] at hresult
      rw [heq, Option.some.inj hresult]
    · rw [Function.update_of_ne heq] at hresult
      exact hs text result hresult

theorem filling_eq_some_iff {thread : κ} {name : View} :
    filling s (.cache thread) = some name ↔
      s.waiting thread = some name ∧ s.cache name.text = none := by
  rw [filling, Option.filter_eq_some_iff, Option.isNone_iff_eq_none]

/-! ## Which names make an entry -/

/-- The names of a state. -/
structure Abstracts (s : State κ) (n : Names κ) : Prop where
  cache : ∀ text, s.cache text = none ↔ n.known text = false
  waiting : s.waiting = n.waiting

theorem abstracts_start : Abstracts (start : State κ) Names.start :=
  ⟨fun _ => iff_of_true rfl rfl, rfl⟩

theorem filling_of_abstracts (h : Abstracts s n) (e : Event κ) : filling s e = n.filling e := by
  cases e with
  | demangle thread name => rfl
  | cache thread =>
    rw [filling, Names.filling, h.waiting]
    congr 1
    funext name
    rw [Bool.eq_iff_iff, Option.isNone_iff_eq_none, h.cache, Bool.not_eq_true']

/-! ## Runs -/

variable [DecidableEq κ]

/-- A step returns what it should if what is read is read right. -/
theorem returnsRight_iff (hs : D.CacheRight s) :
    D.ReturnsRight s e ↔ ∀ name, filling s e = some name → D.ReadsRight name := by
  unfold ReturnsRight
  cases e with
  | demangle thread name =>
    refine iff_of_true ?_ (fun _ h => by cases h)
    intro name' result hreturn
    rw [call] at hreturn
    cases hwaiting : s.waiting thread with
    | some other =>
      rw [hwaiting] at hreturn
      cases hreturn
    | none =>
      rw [hwaiting] at hreturn
      dsimp only at hreturn
      by_cases hempty : name.text = []
      · rw [if_pos hempty] at hreturn
        cases hreturn
        rw [hempty, demangled_nil]
      · rw [if_neg hempty] at hreturn
        cases hcached : s.cache name.text with
        | none =>
          rw [hcached] at hreturn
          cases hreturn
        | some cached =>
          rw [hcached] at hreturn
          cases hreturn
          rw [hs name.text cached hcached]
  | cache thread =>
    cases hwaiting : s.waiting thread with
    | none =>
      refine iff_of_true ?_ (fun _ h => ?_)
      · intro name result hreturn
        rw [call, hwaiting] at hreturn
        cases hreturn
      · rw [filling_eq_some_iff, hwaiting] at h
        cases h.1
    | some name =>
      have hsame : D.CacheRight { s with waiting := Function.update s.waiting thread none } := hs
      have hright := demangleAndCache_right (v := name) hsame
      rw [call, hwaiting]
      refine hright.trans ⟨fun h name' hfilling => ?_, fun h hcache => ?_⟩
      · rw [filling_eq_some_iff, hwaiting] at hfilling
        cases hfilling.1
        exact h hfilling.2
      · exact h name (filling_eq_some_iff.mpr ⟨hwaiting, hcache⟩)

theorem cacheRight_step (hs : D.CacheRight s)
    (h : ∀ name, filling s e = some name → D.ReadsRight name) : D.CacheRight (D.step s e) := by
  unfold step
  cases e with
  | demangle thread name =>
    rw [call]
    split
    · exact hs
    · split_ifs
      · exact hs
      · split
        · exact hs
        · exact hs
  | cache thread =>
    cases hwaiting : s.waiting thread with
    | none =>
      rw [call, hwaiting]
      exact hs
    | some name =>
      have hsame : D.CacheRight { s with waiting := Function.update s.waiting thread none } := hs
      rw [call, hwaiting]
      exact cacheRight_demangleAndCache hsame fun hcache =>
        h name (filling_eq_some_iff.mpr ⟨hwaiting, hcache⟩)

/-- A run returns what it should exactly if all that makes an entry is read right. -/
theorem right_iff_atSteps (D : Demangler) (events : List (Event κ)) :
    D.Right events ↔ AtSteps D.step
      (fun s e => ∀ name, filling s e = some name → D.ReadsRight name) start events := by
  have hstart : D.CacheRight (start : State κ) := fun _ _ h => by cases h
  refine throughout_iff_atSteps_of_inv (fun _ _ => trivial) (fun s e hs => cacheRight_step hs) ?_
    hstart
  intro s e hs
  exact (and_iff_right trivial).trans (returnsRight_iff hs)

theorem abstracts_demangleAndCache (h : Abstracts s n) {thread : κ} {name : View}
    (hwaiting : s.waiting thread = some name) :
    Abstracts (D.step s (.cache thread)) (n.step (.cache thread)) := by
  have hwaiting' : n.waiting thread = some name := h.waiting ▸ hwaiting
  rw [step, call, hwaiting, Names.step, hwaiting']
  show Abstracts (D.demangleAndCache _ name).1 _
  unfold demangleAndCache
  dsimp only
  have hcleared : Function.update s.waiting thread none = Function.update n.waiting thread none := by
    rw [h.waiting]
  cases hcache : s.cache name.text with
  | some cached =>
    have hknown : n.known name.text = true := by
      rw [← Bool.not_eq_false, ← h.cache, hcache]
      exact Option.some_ne_none cached
    refine ⟨fun text => ?_, hcleared⟩
    split_ifs
    · exact h.cache text
    · rw [← hknown, Function.update_eq_self]
      exact h.cache text
  | none =>
    rw [demangleImpl]
    cases name.cText with
    | none =>
      rw [if_pos rfl]
      exact ⟨h.cache, hcleared⟩
    | some mangledName =>
      rw [if_neg (Option.some_ne_none mangledName)]
      refine ⟨fun text => ?_, hcleared⟩
      show Function.update s.cache name.text (some _) text = none ↔
        Function.update n.known name.text true text = false
      by_cases heq : text = name.text
      · rw [heq, Function.update_self, Function.update_self]
        exact iff_of_false (Option.some_ne_none _) Bool.noConfusion
      · rw [Function.update_of_ne heq, Function.update_of_ne heq]
        exact h.cache text

theorem abstracts_step (h : Abstracts s n) (e : Event κ) : Abstracts (D.step s e) (n.step e) := by
  cases e with
  | demangle thread name =>
    rw [step, call, Names.step, ← h.waiting]
    cases hwaiting : s.waiting thread with
    | some other =>
      rw [if_pos (Or.inl (Option.some_ne_none other))]
      exact h
    | none =>
      by_cases hempty : name.text = []
      · rw [if_pos (Or.inr (Or.inl hempty)), if_pos hempty]
        exact h
      · rw [if_neg hempty]
        cases hcached : s.cache name.text with
        | some cached =>
          have hknown : n.known name.text = true := by
            rw [← Bool.not_eq_false, ← h.cache, hcached]
            exact Option.some_ne_none cached
          rw [if_pos (Or.inr (Or.inr hknown))]
          exact h
        | none =>
          have hunknown : n.known name.text = false := (h.cache _).mp hcached
          rw [if_neg (by simp [hempty, hunknown])]
          exact ⟨h.cache, rfl⟩
  | cache thread =>
    cases hwaiting : s.waiting thread with
    | none =>
      have hwaiting' : n.waiting thread = none := h.waiting ▸ hwaiting
      rw [step, call, hwaiting, Names.step, hwaiting']
      exact h
    | some name => exact abstracts_demangleAndCache h hwaiting

/-- A run returns what it should exactly if the views of the calls that make the entries are read
right. -/
theorem right_iff_readsRight (D : Demangler) (events : List (Event κ)) :
    D.Right events ↔ AtSteps Names.step
      (fun n e => ∀ name, Names.filling n e = some name → D.ReadsRight name) Names.start events := by
  rw [right_iff_atSteps]
  refine throughout_iff_of_related Abstracts (fun s n e h => abstracts_step h e)
    (fun _ _ _ => Iff.rfl) ?_ abstracts_start
  intro s n e h
  rw [filling_of_abstracts h]

/-- As an exact view is read, so are its characters. -/
theorem readsRight_of_exact (D : Demangler) (h : v.Exact) : D.ReadsRight v := by
  obtain ⟨mangledName, hread, htext⟩ := Option.map_eq_some_iff.mp h
  rw [ReadsRight, demangleImpl, hread, Option.map_some, demangled, ← htext,
    dif_neg mangledName.property]

/-- A demangler that rejects all names. -/
def rejecting : Demangler := ⟨fun _ => none, rfl⟩

theorem readsRight_rejecting : rejecting.ReadsRight v ↔ v.Exact := by
  have hdemangled : rejecting.demangled v.text = v.text := by
    unfold demangled
    split_ifs <;> rfl
  rw [ReadsRight, hdemangled]
  rfl

/-- All calls of a run return what they should, whatever the demangler, exactly if the views of the
calls that make the entries end where the first NUL stands. -/
theorem right_iff_fillsExactly (events : List (Event κ)) :
    (∀ D : Demangler, D.Right events) ↔ FillsExactly events := by
  constructor
  · intro h
    have hrejecting := (right_iff_readsRight rejecting events).mp (h rejecting)
    refine ⟨fun _ _ => trivial, fun done e hdone name hname => ?_⟩
    exact readsRight_rejecting.mp (hrejecting.steps done e hdone name hname)
  · intro h D
    refine (right_iff_readsRight D events).mpr ⟨fun _ _ => trivial, fun done e hdone name hname => ?_⟩
    exact readsRight_of_exact D (h.steps done e hdone name hname)

/-- The first character of a longer name. -/
def part : View := ⟨[97, 98, 0], 1, by decide⟩

def whole : View := ⟨[97, 0], 1, by decide⟩

/-- The longer name is returned for its first character, also where that is all there is. -/
theorem not_right_part :
    ¬ rejecting.Right [.demangle 0 part, .cache 0] ∧
      (rejecting.call (([.demangle 0 part, .cache 0] : List (Event ℕ)).foldl rejecting.step start)
        (.demangle 1 whole)).2 = some (whole, some [97, 98]) := by
  constructor
  · intro h
    have hright := h.steps [.demangle 0 part] (.cache 0) (List.prefix_refl _) part (some [97, 98])
      (by decide)
    exact absurd hright (by decide)
  · decide

end Demangler

end Core
end Rocprofsys
