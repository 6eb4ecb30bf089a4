import Rocprofsys.Base.LittleEndian

namespace Rocprofsys
namespace Base

/-- A decoder takes a value from the front of its bytes, or fails with an `ε`. -/
def Decoder (ε α : Type) : Type := List UInt8 → Except ε (α × List UInt8)

namespace Decoder

variable {ε α β : Type}

def run (d : Decoder ε α) (bs : List UInt8) : Except ε (α × List UInt8) := d bs

instance : Monad (Decoder ε) where
  pure a := fun bs => .ok (a, bs)
  bind d f := fun bs => (d bs).bind fun x => f x.1 x.2

def fail (e : ε) : Decoder ε α := fun _ => .error e

/-- A value that needs no bytes. -/
def ofExcept (r : Except ε α) : Decoder ε α := fun bs => r.map fun a => (a, bs)

/-- `n` values in a row. -/
def times (d : Decoder ε α) : Nat → Decoder ε (List α)
  | 0 => pure []
  | n + 1 => do
    let a ← d
    let as ← times d n
    return a :: as

theorem run_pure (a : α) (bs : List UInt8) :
    (pure a : Decoder ε α).run bs = .ok (a, bs) := rfl

theorem run_bind (d : Decoder ε α) (f : α → Decoder ε β) (bs : List UInt8) :
    (d >>= f).run bs = (d.run bs).bind fun x => (f x.1).run x.2 := rfl

/-! ## Reading what was written -/

/-- The decoder takes exactly `bs`, as `a`, whatever follows. -/
def Reads (d : Decoder ε α) (bs : List UInt8) (a : α) : Prop :=
  ∀ rest, d.run (bs ++ rest) = .ok (a, rest)

theorem reads_pure (a : α) : Reads (pure a : Decoder ε α) [] a := fun _ => rfl

theorem reads_ofExcept {r : Except ε α} {a : α} (h : r = .ok a) : Reads (ofExcept r) [] a := by
  intro rest
  rw [h]
  rfl

theorem Reads.bind {d : Decoder ε α} {f : α → Decoder ε β} {bs bs' : List UInt8} {a : α} {b : β}
    (hd : Reads d bs a) (hf : Reads (f a) bs' b) : Reads (d >>= f) (bs ++ bs') b := by
  intro rest
  rw [run_bind, List.append_assoc, hd, Except.bind, hf]

/-- A decoder that takes no bytes in front of another. -/
theorem Reads.bind_nil {d : Decoder ε α} {f : α → Decoder ε β} {bs : List UInt8} {a : α} {b : β}
    (hd : Reads d [] a) (hf : Reads (f a) bs b) : Reads (d >>= f) bs b :=
  hd.bind hf

/-- A decoder with one behind it that takes no bytes. -/
theorem Reads.bind_of_nil {d : Decoder ε α} {f : α → Decoder ε β} {bs : List UInt8} {a : α}
    {b : β} (hd : Reads d bs a) (hf : Reads (f a) [] b) : Reads (d >>= f) bs b := by
  have hbind := hd.bind hf
  rwa [List.append_nil] at hbind

theorem Reads.map {d : Decoder ε α} {bs : List UInt8} {a : α} (h : Reads d bs a) (f : α → β) :
    Reads (do let x ← d; return f x) bs (f a) :=
  h.bind_of_nil (reads_pure (f a))

theorem reads_times {d : Decoder ε α} {encode : α → List UInt8} (h : ∀ a, Reads d (encode a) a)
    (as : List α) : Reads (d.times as.length) (as.flatMap encode) as := by
  induction as with
  | nil => exact reads_pure []
  | cons a as ih => exact (h a).bind (ih.map (a :: ·))

theorem Reads.run_bind {d : Decoder ε α} {bs : List UInt8} {a : α} (h : Reads d bs a)
    (f : α → Decoder ε β) (rest : List UInt8) :
    (d >>= f).run (bs ++ rest) = (f a).run rest := by
  rw [Decoder.run_bind, h, Except.bind]

/-! ## Reading with a known outcome -/

/-- On `bs` the decoder ends as `r`: it takes them, or it fails. -/
def Ends (d : Decoder ε α) (bs : List UInt8) (r : Except ε α) : Prop :=
  ∀ rest, d.run (bs ++ rest) = r.map fun a => (a, rest)

theorem Reads.ends {d : Decoder ε α} {bs : List UInt8} {a : α} (h : Reads d bs a) :
    Ends d bs (.ok a) := h

theorem ends_ofExcept (r : Except ε α) : Ends (ofExcept r) [] r := fun _ => rfl

theorem Ends.bind {d : Decoder ε α} {f : α → Decoder ε β} {bs bs' : List UInt8} {r : Except ε α}
    {g : α → Except ε β} (hd : Ends d bs r) (hf : ∀ a, r = .ok a → Ends (f a) bs' (g a)) :
    Ends (d >>= f) (bs ++ bs') (r.bind g) := by
  intro rest
  rw [Decoder.run_bind, List.append_assoc, hd]
  cases r with
  | error e => rfl
  | ok a => exact hf a rfl rest

theorem Reads.bind_ends {d : Decoder ε α} {f : α → Decoder ε β} {bs bs' : List UInt8} {a : α}
    {r : Except ε β} (hd : Reads d bs a) (hf : Ends (f a) bs' r) : Ends (d >>= f) (bs ++ bs') r := by
  intro rest
  rw [List.append_assoc, hd.run_bind]
  exact hf rest

theorem Ends.bind_of_nil {d : Decoder ε α} {f : α → Decoder ε β} {bs : List UInt8}
    {r : Except ε α} {g : α → Except ε β} (hd : Ends d bs r)
    (hf : ∀ a, r = .ok a → Ends (f a) [] (g a)) : Ends (d >>= f) bs (r.bind g) := by
  have h := hd.bind hf
  rwa [List.append_nil] at h

/-! ## Bounds on what is read -/

/-- Whatever the decoder reads satisfies `P`. -/
def Yields (d : Decoder ε α) (P : α → Prop) : Prop :=
  ∀ bs a rest, d.run bs = .ok (a, rest) → P a

theorem yields_pure {a : α} {P : α → Prop} (h : P a) : Yields (pure a : Decoder ε α) P := by
  intro bs b rest hrun
  cases hrun
  exact h

theorem yields_ofExcept {r : Except ε α} {P : α → Prop} (h : ∀ a, r = .ok a → P a) :
    Yields (ofExcept r) P := by
  intro bs a rest hrun
  cases r with
  | error e => cases hrun
  | ok b =>
    cases hrun
    exact h a rfl

theorem yields_true (d : Decoder ε α) : Yields d fun _ => True := fun _ _ _ _ => trivial

theorem Yields.mono {d : Decoder ε α} {P Q : α → Prop} (hd : Yields d P) (h : ∀ a, P a → Q a) :
    Yields d Q :=
  fun bs a rest hrun => h a (hd bs a rest hrun)

theorem Yields.bind {d : Decoder ε α} {f : α → Decoder ε β} {P : α → Prop} {Q : β → Prop}
    (hd : Yields d P) (hf : ∀ a, P a → Yields (f a) Q) : Yields (d >>= f) Q := by
  intro bs b rest hrun
  rw [Decoder.run_bind] at hrun
  cases hx : d.run bs with
  | error e =>
    rw [hx] at hrun
    cases hrun
  | ok x =>
    rw [hx] at hrun
    exact hf x.1 (hd bs x.1 x.2 hx) x.2 b rest hrun

theorem yields_times (d : Decoder ε α) (n : Nat) : Yields (d.times n) (·.length = n) := by
  induction n with
  | zero => exact yields_pure rfl
  | succ n ih =>
    refine (yields_true d).bind fun a _ => ih.bind fun as has => yields_pure ?_
    show (a :: as).length = n + 1
    rw [List.length_cons, has]

/-- Whatever the decoder reads from bytes that begin with `bs` satisfies `P`. -/
def YieldsOn (d : Decoder ε α) (bs : List UInt8) (P : α → Prop) : Prop :=
  ∀ tail a rest, d.run (bs ++ tail) = .ok (a, rest) → P a

theorem Yields.yieldsOn {d : Decoder ε α} {P : α → Prop} (h : Yields d P) (bs : List UInt8) :
    YieldsOn d bs P := fun tail => h (bs ++ tail)

theorem YieldsOn.bind {d : Decoder ε α} {f : α → Decoder ε β} {bs : List UInt8} {P : α → Prop}
    {Q : β → Prop} (hd : YieldsOn d bs P) (hf : ∀ a, P a → Yields (f a) Q) :
    YieldsOn (d >>= f) bs Q := by
  intro tail b rest hrun
  rw [Decoder.run_bind] at hrun
  cases hx : d.run (bs ++ tail) with
  | error e =>
    rw [hx] at hrun
    cases hrun
  | ok x =>
    rw [hx] at hrun
    exact hf x.1 (hd tail x.1 x.2 hx) x.2 b rest hrun

theorem Ends.yieldsOn_bind {d : Decoder ε α} {f : α → Decoder ε β} {bs bs' : List UInt8}
    {r : Except ε α} {P : β → Prop} (hd : Ends d bs r)
    (hf : ∀ a, r = .ok a → YieldsOn (f a) bs' P) : YieldsOn (d >>= f) (bs ++ bs') P := by
  intro tail b rest hrun
  rw [Decoder.run_bind, List.append_assoc, hd] at hrun
  cases r with
  | error e => cases hrun
  | ok a => exact hf a rfl tail b rest hrun

end Decoder

end Base
end Rocprofsys
