import Rocprofsys.Base.Grouping
import Rocprofsys.Base.OrderedSet

namespace Rocprofsys
namespace Base

/-! ## Folding into a map, one key at a time -/

section KeyedFold

variable {κ ν ρ ε : Type} [LinearOrder κ] {step : Option ν → ρ → Except ε ν}
  {m m' : OrderedMap κ ν} {k : κ} {o o' : Option ν} {r : ρ} {rs : List ρ}

/-- A step for the value of one key. -/
def stepKeyed (step : Option ν → ρ → Except ε ν) (m : OrderedMap κ ν) (k : κ) (r : ρ) :
    Except ε (OrderedMap κ ν) :=
  match step (m.get? k) r with
  | .error e => .error e
  | .ok v => .ok (m.set k v)

/-- The steps of a list, each for its key, up to the first that fails. -/
def foldKeyed (step : Option ν → ρ → Except ε ν) (m : OrderedMap κ ν) :
    List (κ × ρ) → Except ε (OrderedMap κ ν)
  | [] => .ok m
  | (k, r) :: pairs =>
    match stepKeyed step m k r with
    | .error e => .error e
    | .ok m => foldKeyed step m pairs

/-- The steps of one key. -/
def foldValues (step : Option ν → ρ → Except ε ν) : Option ν → List ρ → Except ε (Option ν)
  | o, [] => .ok o
  | o, r :: rs =>
    match step o r with
    | .error e => .error e
    | .ok v => foldValues step (some v) rs

theorem foldKeyed_singleton (step : Option ν → ρ → Except ε ν) (m : OrderedMap κ ν) (k : κ) (r : ρ) :
    foldKeyed step m [(k, r)] = stepKeyed step m k r := by
  rw [foldKeyed]
  cases stepKeyed step m k r <;> rfl

theorem foldKeyed_append (step : Option ν → ρ → Except ε ν) (m : OrderedMap κ ν)
    (pairs pairs' : List (κ × ρ)) :
    foldKeyed step m (pairs ++ pairs') =
      match foldKeyed step m pairs with
      | .error e => .error e
      | .ok m => foldKeyed step m pairs' := by
  induction pairs generalizing m with
  | nil => rfl
  | cons pair pairs ih =>
    rw [List.cons_append, foldKeyed, foldKeyed]
    cases stepKeyed step m pair.1 pair.2 with
    | error e => rfl
    | ok m => exact ih m

theorem group_cons (k k' : κ) (r : ρ) (pairs : List (κ × ρ)) :
    group k ((k', r) :: pairs) = if k' = k then r :: group k pairs else group k pairs := by
  unfold group
  rw [List.filter_cons]
  by_cases h : k' = k
  · rw [if_pos (beq_iff_eq.mpr h), if_pos h, List.map_cons]
  · rw [if_neg (by rwa [beq_iff_eq]), if_neg h]

theorem mem_group {k : κ} {r : ρ} {pairs : List (κ × ρ)} : r ∈ group k pairs ↔ (k, r) ∈ pairs := by
  unfold group
  rw [List.mem_map]
  constructor
  · rintro ⟨pair, hpair, rfl⟩
    obtain ⟨hmem, hkey⟩ := List.mem_filter.mp hpair
    rw [← beq_iff_eq.mp hkey]
    exact hmem
  · intro h
    exact ⟨_, List.mem_filter.mpr ⟨h, beq_self_eq_true k⟩, rfl⟩

/-- Where no step fails, each key has what its own steps make of it. -/
theorem foldValues_of_foldKeyed {pairs : List (κ × ρ)} (h : foldKeyed step m pairs = .ok m') (k : κ) :
    foldValues step (m.get? k) (group k pairs) = .ok (m'.get? k) := by
  induction pairs generalizing m with
  | nil =>
    rw [← Except.ok.inj h]
    rfl
  | cons pair pairs ih =>
    obtain ⟨k', r⟩ := pair
    rw [foldKeyed, stepKeyed] at h
    cases hstep : step (m.get? k') r with
    | error e =>
      rw [hstep] at h
      cases h
    | ok v =>
      rw [hstep] at h
      have hrest := ih h
      rw [OrderedMap.get?_set] at hrest
      rw [group_cons]
      by_cases hk : k' = k
      · subst hk
        rw [if_pos rfl] at hrest ⊢
        rw [foldValues, hstep]
        exact hrest
      · rw [if_neg (Ne.symm hk)] at hrest
        rw [if_neg hk]
        exact hrest

/-- A step that fails is one of a key. -/
theorem exists_foldValues_error {pairs : List (κ × ρ)} {e : ε}
    (h : foldKeyed step m pairs = .error e) :
    ∃ k, foldValues step (m.get? k) (group k pairs) = .error e := by
  induction pairs generalizing m with
  | nil => cases h
  | cons pair pairs ih =>
    obtain ⟨k', r⟩ := pair
    rw [foldKeyed, stepKeyed] at h
    cases hstep : step (m.get? k') r with
    | error e' =>
      rw [hstep] at h
      refine ⟨k', ?_⟩
      rw [group_cons, if_pos rfl, foldValues, hstep]
      exact congrArg Except.error (Except.error.inj h)
    | ok v =>
      rw [hstep] at h
      obtain ⟨k, hk⟩ := ih h
      refine ⟨k, ?_⟩
      rw [OrderedMap.get?_set] at hk
      rw [group_cons]
      by_cases hkk : k' = k
      · subst hkk
        rw [if_pos rfl] at hk ⊢
        rw [foldValues, hstep]
        exact hk
      · rw [if_neg (Ne.symm hkk)] at hk
        rw [if_neg hkk]
        exact hk

end KeyedFold

end Base
end Rocprofsys
