import Rocprofsys.Base.Decoder

namespace Rocprofsys
namespace Base

/-- A reader of a byte vector that moves an offset, or fails with an `ε`. -/
def Cursor (ε α : Type) : Type := List UInt8 → Nat → Except ε (α × Nat)

namespace Cursor

variable {ε α β : Type}

def run (c : Cursor ε α) (data : List UInt8) (offset : Nat) : Except ε (α × Nat) := c data offset

instance : Monad (Cursor ε) where
  pure a := fun _ offset => .ok (a, offset)
  bind c f := fun data offset => (c data offset).bind fun x => f x.1 data x.2

/-- A value that needs no bytes. -/
def ofExcept (r : Except ε α) : Cursor ε α := fun _ offset => r.map fun a => (a, offset)

/-- `n` values in a row. -/
def times (c : Cursor ε α) : Nat → Cursor ε (List α)
  | 0 => pure []
  | n + 1 => do
    let a ← c
    let as ← times c n
    return a :: as

theorem run_bind (c : Cursor ε α) (f : α → Cursor ε β) (data : List UInt8) (offset : Nat) :
    (c >>= f).run data offset = (c.run data offset).bind fun x => (f x.1).run data x.2 := rfl

/-- The element at an index; `e` stands for a read outside of the vector. -/
def element (e : ε) (data : List UInt8) (i : Nat) : Except ε UInt8 :=
  match data[i]? with
  | some b => .ok b
  | none => .error e

theorem element_of_lt (e : ε) {data : List UInt8} {i : Nat} (h : i < data.length) :
    element e data i = .ok data[i] := by
  rw [element, List.getElem?_eq_getElem h]

/-! ## The bytes at the offset -/

/-- From every offset in the vector, the cursor reads what the decoder takes from the bytes
there, and it stays in the vector. -/
def Simulates (c : Cursor ε α) (d : Decoder ε α) : Prop :=
  ∀ data offset, offset ≤ data.length →
    (∃ a offset', offset' ≤ data.length ∧ c.run data offset = .ok (a, offset') ∧
      d.run (data.drop offset) = .ok (a, data.drop offset')) ∨
    ∃ e, c.run data offset = .error e ∧ d.run (data.drop offset) = .error e

theorem simulates_pure (a : α) : Simulates (pure a : Cursor ε α) (pure a) :=
  fun _ offset h => Or.inl ⟨a, offset, h, rfl, rfl⟩

theorem simulates_ofExcept (r : Except ε α) : Simulates (ofExcept r) (Decoder.ofExcept r) := by
  intro data offset h
  cases r with
  | ok a => exact Or.inl ⟨a, offset, h, rfl, rfl⟩
  | error e => exact Or.inr ⟨e, rfl, rfl⟩

theorem Simulates.bind {c : Cursor ε α} {d : Decoder ε α} {f : α → Cursor ε β}
    {g : α → Decoder ε β} (hc : Simulates c d) (hf : ∀ a, Simulates (f a) (g a)) :
    Simulates (c >>= f) (d >>= g) := by
  intro data offset h
  rw [run_bind, Decoder.run_bind]
  rcases hc data offset h with ⟨a, offset', hle, hrun, hdecode⟩ | ⟨e, hrun, hdecode⟩
  · rw [hrun, hdecode]
    exact hf a data offset' hle
  · rw [hrun, hdecode]
    exact Or.inr ⟨e, rfl, rfl⟩

theorem simulates_times {c : Cursor ε α} {d : Decoder ε α} (h : Simulates c d) (n : Nat) :
    Simulates (c.times n) (d.times n) := by
  induction n with
  | zero => exact simulates_pure []
  | succ n ih => exact h.bind fun a => ih.bind fun as => simulates_pure (a :: as)

/-- From the beginning of the vector both read the same. -/
theorem Simulates.run_eq {c : Cursor ε α} {d : Decoder ε α} (h : Simulates c d)
    (data : List UInt8) : (c.run data 0).map Prod.fst = (d.run data).map Prod.fst := by
  have hstart := h data 0 (Nat.zero_le _)
  rw [List.drop_zero] at hstart
  rcases hstart with ⟨a, offset', -, hrun, hdecode⟩ | ⟨e, hrun, hdecode⟩ <;>
    rw [hrun, hdecode] <;> rfl

end Cursor

namespace Decoder

variable {ε α β : Type}

/-! ## Values of a fixed width -/

/-- The decoder takes `n` bytes, and without as many it fails with `e`. -/
structure Takes (e : ε) (n : Nat) (d : Decoder ε α) : Prop where
  enough : ∀ bs : List UInt8, n ≤ bs.length → ∃ a, d.run bs = .ok (a, bs.drop n)
  short : ∀ bs : List UInt8, bs.length < n → d.run bs = .error e

theorem takes_pure (e : ε) (a : α) : Takes e 0 (pure a : Decoder ε α) where
  enough _ _ := ⟨a, rfl⟩
  short _ h := absurd h (Nat.not_lt_zero _)

theorem Takes.bind {e : ε} {n m : Nat} {d : Decoder ε α} {f : α → Decoder ε β}
    (hd : Takes e n d) (hf : ∀ a, Takes e m (f a)) : Takes e (n + m) (d >>= f) where
  enough bs h := by
    obtain ⟨a, ha⟩ := hd.enough bs (by omega)
    obtain ⟨b, hb⟩ := (hf a).enough (bs.drop n) (by rw [List.length_drop]; omega)
    rw [run_bind, ha, Except.bind, hb, List.drop_drop]
    exact ⟨b, rfl⟩
  short bs h := by
    rw [run_bind]
    by_cases hn : n ≤ bs.length
    · obtain ⟨a, ha⟩ := hd.enough bs hn
      rw [ha]
      exact (hf a).short (bs.drop n) (by rw [List.length_drop]; omega)
    · rw [hd.short bs (by omega)]
      rfl

theorem takes_times {e : ε} {n : Nat} {d : Decoder ε α} (h : Takes e n d) (k : Nat) :
    Takes e (k * n) (d.times k) := by
  induction k with
  | zero =>
    rw [Nat.zero_mul]
    exact takes_pure e []
  | succ k ih =>
    have hwidth : (k + 1) * n = n + (k * n + 0) := by
      rw [Nat.succ_mul]
      omega
    rw [hwidth]
    exact h.bind fun a => ih.bind fun as => takes_pure e (a :: as)

/-! ## Failures that cannot happen -/

def NeverFails (e : ε) (d : Decoder ε α) : Prop := ∀ bs, d.run bs ≠ .error e

theorem neverFails_pure (e : ε) (a : α) : NeverFails e (pure a : Decoder ε α) :=
  fun _ h => nomatch h

theorem NeverFails.bind {e : ε} {d : Decoder ε α} {f : α → Decoder ε β} (hd : NeverFails e d)
    (hf : ∀ a, NeverFails e (f a)) : NeverFails e (d >>= f) := by
  intro bs
  rw [run_bind]
  cases hrun : d.run bs with
  | ok x => exact hf x.1 x.2
  | error e' =>
    intro h
    cases h
    exact hd bs hrun

theorem Takes.neverFails {e e' : ε} {n : Nat} {d : Decoder ε α} (h : Takes e n d) (hne : e ≠ e') :
    NeverFails e' d := by
  intro bs
  by_cases hn : n ≤ bs.length
  · obtain ⟨a, ha⟩ := h.enough bs hn
    rw [ha]
    exact fun h => nomatch h
  · rw [h.short bs (by omega)]
    exact fun h => hne (Except.error.inj h)

theorem bind_error_iff {e : ε} {d : Decoder ε α} {f : α → Decoder ε β} {bs : List UInt8} :
    (d >>= f).run bs = .error e ↔
      d.run bs = .error e ∨ ∃ a rest, d.run bs = .ok (a, rest) ∧ (f a).run rest = .error e := by
  rw [run_bind]
  cases hrun : d.run bs with
  | error e' =>
    show Except.error e' = .error e ↔ _
    refine ⟨fun h => Or.inl (congrArg _ (Except.error.inj h)), fun h => ?_⟩
    rcases h with h | ⟨a, rest, h, -⟩
    · exact congrArg _ (Except.error.inj h)
    · cases h
  | ok x =>
    refine ⟨fun h => Or.inr ⟨x.1, x.2, rfl, h⟩, fun h => ?_⟩
    rcases h with h | ⟨a, rest, h, hf⟩
    · cases h
    · cases h
      exact hf

theorem bind_error_iff_of_neverFails {e : ε} {d : Decoder ε α} {f : α → Decoder ε β}
    {bs : List UInt8} (hf : ∀ a, NeverFails e (f a)) :
    (d >>= f).run bs = .error e ↔ d.run bs = .error e := by
  rw [bind_error_iff]
  exact or_iff_left fun ⟨a, rest, _, h⟩ => hf a rest h

/-- Behind a value of a fixed width, another failure is one of what follows. -/
theorem Takes.bind_error_iff {e e' : ε} {n : Nat} {d : Decoder ε α} {f : α → Decoder ε β}
    {bs : List UInt8} (hd : Takes e n d) (hne : e ≠ e') :
    (d >>= f).run bs = .error e' ↔
      n ≤ bs.length ∧ ∃ a, d.run bs = .ok (a, bs.drop n) ∧ (f a).run (bs.drop n) = .error e' := by
  rw [Decoder.bind_error_iff]
  by_cases hn : n ≤ bs.length
  · obtain ⟨a, ha⟩ := hd.enough bs hn
    rw [ha]
    constructor
    · intro h
      rcases h with h | ⟨a', rest, h, hf⟩
      · cases h
      · cases h
        exact ⟨hn, a, rfl, hf⟩
    · intro h
      obtain ⟨-, a', h, hf⟩ := h
      exact Or.inr ⟨a', _, h, hf⟩
  · constructor
    · intro h
      rcases h with h | ⟨a, rest, h, -⟩
      · exact absurd h (hd.neverFails hne bs)
      · rw [hd.short bs (by omega)] at h
        cases h
    · intro h
      obtain ⟨hle, -⟩ := h
      exact absurd hle hn

end Decoder

end Base
end Rocprofsys
