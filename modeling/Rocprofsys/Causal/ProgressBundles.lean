import Mathlib.Data.List.Nodup

namespace Rocprofsys
namespace Causal

/-! ## component_bundle_cache -/

/-- A bundle constructed in the pool. -/
structure Bundle where
  serial : Nat
  name : String
  deriving DecidableEq, Repr

/-- What happens to one bundle. -/
inductive Effect where
  | construct (b : Bundle)
  | push (b : Bundle)
  | start (b : Bundle)
  | mark (b : Bundle)
  | stop (b : Bundle)
  | pop (b : Bundle)
  | destroy (b : Bundle)
  deriving DecidableEq, Repr

structure BundleCache where
  bundles : List Bundle
  next : Nat
  deriving DecidableEq, Repr

namespace BundleCache

def empty : BundleCache := ⟨[], 0⟩

def construct (c : BundleCache) (name : String) : Bundle × BundleCache :=
  (⟨c.next, name⟩, ⟨c.bundles ++ [⟨c.next, name⟩], c.next + 1⟩)

def popBack (c : BundleCache) : BundleCache × List Effect :=
  match c.bundles.getLast? with
  | none => (c, [])
  | some b => (⟨c.bundles.dropLast, c.next⟩, [.destroy b])

/-- `destroy` of the reverse iterator `distance` behind `rbegin()`. -/
def destroy (c : BundleCache) (distance : Nat) : BundleCache × List Effect :=
  match c.bundles[distance]? with
  | none => (c, [])
  | some b => (⟨c.bundles.eraseIdx distance, c.next⟩, [.destroy b])

end BundleCache

/-! ## Progress points -/

inductive Call where
  | push (name : String)
  | pop (name : String)
  | mark (name : String) (force : Bool)
  deriving DecidableEq, Repr

section Calls

variable (hash : String → UInt64) (endToEnd : Bool)

def pushProgressPoint (c : BundleCache) (name : String) : BundleCache × List Effect :=
  if endToEnd then (c, [])
  else
    let (b, c) := c.construct name
    (c, [.construct b, .push b, .start b])

def popProgressPoint (c : BundleCache) (name : String) : BundleCache × List Effect :=
  if endToEnd then (c, [])
  else if name = "" then
    match c.bundles.getLast? with
    | none => (c, [])
    | some b =>
      let (c, effects) := c.popBack
      (c, .stop b :: .pop b :: effects)
  else
    match c.bundles.reverse.findIdx? fun b => hash b.name == hash name with
    | none => (c, [])
    | some i =>
      match c.bundles.reverse[i]? with
      | none => (c, [])
      | some b =>
        let (c, effects) := c.destroy i
        (c, .stop b :: .pop b :: effects)

def markProgressPoint (c : BundleCache) (name : String) (force : Bool) :
    BundleCache × List Effect :=
  if endToEnd && !force then (c, [])
  else
    let (b, c) := c.construct name
    let (c, effects) := c.popBack
    (c, .construct b :: .push b :: .mark b :: .pop b :: effects)

def call (c : BundleCache) : Call → BundleCache × List Effect
  | .push name => pushProgressPoint endToEnd c name
  | .pop name => popProgressPoint hash endToEnd c name
  | .mark name force => markProgressPoint endToEnd c name force

/-- The state after the calls, and what each of them did. -/
def calls (c : BundleCache) : List Call → BundleCache × List (List Effect)
  | [] => (c, [])
  | k :: ks =>
    let (c, effects) := call hash endToEnd c k
    let (c, rest) := calls c ks
    (c, effects :: rest)

end Calls

/-! ## Open entries, innermost first -/

structure OpenEntries where
  entries : List Bundle
  next : Nat
  deriving DecidableEq, Repr

namespace OpenEntries

def empty : OpenEntries := ⟨[], 0⟩

/-- Stop, accumulate and remove the entry at `i`. -/
def close (s : OpenEntries) (i : Nat) : OpenEntries × List Effect :=
  match s.entries[i]? with
  | none => (s, [])
  | some b => (⟨s.entries.eraseIdx i, s.next⟩, [.stop b, .pop b, .destroy b])

/-- A call on the innermost entry, or on the innermost of its name. -/
def call (endToEnd : Bool) (s : OpenEntries) : Call → OpenEntries × List Effect
  | .push name =>
    if endToEnd then (s, [])
    else
      let b : Bundle := ⟨s.next, name⟩
      (⟨b :: s.entries, s.next + 1⟩, [.construct b, .push b, .start b])
  | .pop name =>
    if endToEnd then (s, [])
    else if name = "" then s.close 0
    else
      match s.entries.findIdx? fun b => b.name == name with
      | none => (s, [])
      | some i => s.close i
  | .mark name force =>
    if endToEnd && !force then (s, [])
    else
      let b : Bundle := ⟨s.next, name⟩
      (⟨s.entries, s.next + 1⟩, [.construct b, .push b, .mark b, .pop b, .destroy b])

def calls (endToEnd : Bool) (s : OpenEntries) : List Call → OpenEntries × List (List Effect)
  | [] => (s, [])
  | k :: ks =>
    let (s, effects) := call endToEnd s k
    let (s, rest) := calls endToEnd s ks
    (s, effects :: rest)

end OpenEntries

/-- The entries of a cache that keeps the open ones in order. -/
def BundleCache.openEntries (c : BundleCache) : OpenEntries := ⟨c.bundles.reverse, c.next⟩

/-- A named pop finds nothing, or an entry of that name with as many entries outside as
inside. -/
def Allows (hash : String → UInt64) (endToEnd : Bool) (c : BundleCache) : Call → Prop
  | .pop name =>
    endToEnd = false → name ≠ "" → ∀ i,
      (c.bundles.reverse.findIdx? fun b => hash b.name == hash name) = some i →
      (c.bundles.reverse.findIdx? fun b => b.name == name) = some i ∧ 2 * i + 1 = c.bundles.length
  | _ => True

def AllowsAll (hash : String → UInt64) (endToEnd : Bool) (c : BundleCache) : List Call → Prop
  | [] => True
  | k :: ks => Allows hash endToEnd c k ∧ AllowsAll hash endToEnd (call hash endToEnd c k).1 ks

end Causal
end Rocprofsys
