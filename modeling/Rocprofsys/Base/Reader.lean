import Rocprofsys.Base.LittleEndian

namespace Rocprofsys
namespace Base

/-- Why a reader ends without a value: its bytes run out, or an allocation of
`size` elements is refused with `left` bytes behind the cursor. -/
inductive Stop where
  | exhausted
  | refused (size left : Nat)
  deriving DecidableEq, Repr

/-- A reader at a cursor, under a limit on its allocations.  It yields a value
and the bytes behind the cursor's new position. -/
def Reader (α : Type) : Type := Nat → List UInt8 → Except Stop (α × List UInt8)

namespace Reader

variable {α β : Type}

def run (p : Reader α) (limit : Nat) (bs : List UInt8) : Except Stop (α × List UInt8) :=
  p limit bs

instance : Monad Reader where
  pure a := fun _ bs => .ok (a, bs)
  bind p f := fun limit bs =>
    match p limit bs with
    | .ok (a, rest) => f a limit rest
    | .error stop => .error stop

/-- The next `n` bytes. -/
def bytes (n : Nat) : Reader (List UInt8) := fun _ bs =>
  if n ≤ bs.length then .ok (bs.take n, bs.drop n) else .error .exhausted

/-- Ask for memory for `n` elements. -/
def reserve (n : Nat) : Reader Unit := fun limit bs =>
  if n ≤ limit then .ok ((), bs) else .error (.refused n bs.length)

/-- A `w`-byte little-endian word. -/
def word (w : Nat) : Reader Nat := do
  let bs ← bytes w
  return leNat bs

/-- A byte string preceded by its length in a `w`-byte word. -/
def counted (w : Nat) : Reader (List UInt8) := do
  let n ← word w
  bytes n

/-- As `counted`, with memory reserved for the bytes. -/
def collected (w : Nat) : Reader (List UInt8) := do
  let n ← word w
  reserve n
  bytes n

theorem run_pure (a : α) (limit : Nat) (bs : List UInt8) :
    (pure a : Reader α).run limit bs = .ok (a, bs) := rfl

theorem run_bind (p : Reader α) (f : α → Reader β) (limit : Nat) (bs : List UInt8) :
    (p >>= f).run limit bs =
      match p.run limit bs with
      | .ok (a, rest) => (f a).run limit rest
      | .error stop => .error stop := rfl

theorem run_bind_ok {p : Reader α} {limit : Nat} {bs rest : List UInt8} {a : α}
    (h : p.run limit bs = .ok (a, rest)) (f : α → Reader β) :
    (p >>= f).run limit bs = (f a).run limit rest := by
  rw [run_bind, h]

theorem run_map (f : α → β) (p : Reader α) (limit : Nat) (bs : List UInt8) :
    (f <$> p).run limit bs = (p.run limit bs).map fun x => (f x.1, x.2) := by
  show (p >>= fun a => pure (f a)).run limit bs = _
  rw [run_bind]
  cases p.run limit bs <;> rfl

theorem run_bytes (n limit : Nat) (bs : List UInt8) :
    (bytes n).run limit bs =
      if n ≤ bs.length then .ok (bs.take n, bs.drop n) else .error .exhausted := rfl

theorem run_bytes_append {n : Nat} {bs : List UInt8} (h : bs.length = n) (limit : Nat)
    (rest : List UInt8) : (bytes n).run limit (bs ++ rest) = .ok (bs, rest) := by
  subst h
  simp [run_bytes]

theorem run_reserve {n limit : Nat} (h : n ≤ limit) (bs : List UInt8) :
    (reserve n).run limit bs = .ok ((), bs) :=
  if_pos h

theorem run_word_append {w n : Nat} (h : n < 256 ^ w) (limit : Nat) (rest : List UInt8) :
    (word w).run limit (leBytes w n ++ rest) = .ok (n, rest) := by
  rw [word, run_bind_ok (run_bytes_append (length_leBytes w n) limit rest), run_pure,
    leNat_leBytes h]

theorem run_counted_append {w : Nat} {bs : List UInt8} (h : bs.length < 256 ^ w) (limit : Nat)
    (rest : List UInt8) :
    (counted w).run limit (leBytes w bs.length ++ (bs ++ rest)) = .ok (bs, rest) := by
  rw [counted, run_bind_ok (run_word_append h limit _), run_bytes_append rfl]

theorem run_collected_append {w limit : Nat} {bs : List UInt8} (h : bs.length < 256 ^ w)
    (hlimit : bs.length ≤ limit) (rest : List UInt8) :
    (collected w).run limit (leBytes w bs.length ++ (bs ++ rest)) = .ok (bs, rest) := by
  rw [collected, run_bind_ok (run_word_append h limit _), run_bind_ok (run_reserve hlimit _),
    run_bytes_append rfl]

end Reader

/-! ## Layouts

A layout lists the fields a reader consumes without saying what they mean.  It
fixes how far the cursor moves on every input, so bounds are proved once for
layouts and carried to readers by `Reader.Follows`. -/

/-- One field of a layout. -/
inductive Field where
  | fixed (width : Nat)
  | counted (width : Nat)
  | collected (width : Nat)
  deriving DecidableEq, Repr

/-- The bytes behind `n` bytes. -/
def skipBytes (n : Nat) (bs : List UInt8) : Except Stop (List UInt8) :=
  if n ≤ bs.length then .ok (bs.drop n) else .error .exhausted

/-- The bytes behind one field. -/
def Field.skip (limit : Nat) : Field → List UInt8 → Except Stop (List UInt8)
  | .fixed w, bs => skipBytes w bs
  | .counted w, bs => (skipBytes w bs).bind (skipBytes (leNat (bs.take w)))
  | .collected w, bs =>
    (skipBytes w bs).bind fun rest =>
      let n := leNat (bs.take w)
      if n ≤ limit then skipBytes n rest else .error (.refused n rest.length)

/-- The bytes behind a list of fields. -/
def skipFields (limit : Nat) : List Field → List UInt8 → Except Stop (List UInt8)
  | [], bs => .ok bs
  | k :: ks, bs => (k.skip limit bs).bind (skipFields limit ks)

/-- The cursor stayed in front of the last `n` bytes. -/
def StaysBefore (n : Nat) : Except Stop (List UInt8) → Prop
  | .ok rest => n ≤ rest.length
  | .error (.refused _ left) => n ≤ left
  | .error .exhausted => False

/-- What bytes behind the input change in a result.  A reader that is done or
refused before their start does not see them, and one that is not goes into
them. -/
def Extends (ext : List UInt8) : Except Stop (List UInt8) → Except Stop (List UInt8) → Prop
  | .ok rest, r => r = .ok (rest ++ ext)
  | .error (.refused n left), r => r = .error (.refused n (left + ext.length))
  | .error .exhausted, r => ¬ StaysBefore ext.length r

theorem Extends.staysBefore_iff {ext : List UInt8} {r r' : Except Stop (List UInt8)}
    (h : Extends ext r r') : StaysBefore ext.length r' ↔ r ≠ .error .exhausted := by
  match r, h with
  | .ok rest, h =>
    rw [h]
    simp [StaysBefore]
  | .error (.refused n left), h =>
    rw [h]
    simp [StaysBefore]
  | .error .exhausted, h => exact ⟨fun hstays => absurd hstays h, fun hne => absurd rfl hne⟩

/-- A result that does not move the cursor back. -/
def Forward (bs : List UInt8) (r : Except Stop (List UInt8)) : Prop :=
  ∀ n, StaysBefore n r → n ≤ bs.length

theorem forward_skipBytes (n : Nat) (bs : List UInt8) : Forward bs (skipBytes n bs) := by
  intro m hm
  unfold skipBytes at hm
  split at hm
  · simp only [StaysBefore, List.length_drop] at hm
    omega
  · exact hm.elim

theorem Forward.bind {bs : List UInt8} {r : Except Stop (List UInt8)}
    {f : List UInt8 → Except Stop (List UInt8)} (hr : Forward bs r)
    (hf : ∀ rest, Forward rest (f rest)) : Forward bs (r.bind f) := by
  intro n hn
  cases r with
  | error stop => exact hr n hn
  | ok rest => exact hr n (hf rest n hn)

theorem Field.forward_skip (limit : Nat) (k : Field) (bs : List UInt8) :
    Forward bs (k.skip limit bs) := by
  cases k with
  | fixed w => exact forward_skipBytes w bs
  | counted w => exact (forward_skipBytes w bs).bind fun rest => forward_skipBytes _ rest
  | collected w =>
    refine (forward_skipBytes w bs).bind fun rest => ?_
    simp only
    split
    · exact forward_skipBytes _ rest
    · exact fun _ hn => hn

theorem forward_skipFields (limit : Nat) (ks : List Field) (bs : List UInt8) :
    Forward bs (skipFields limit ks bs) := by
  induction ks generalizing bs with
  | nil => exact fun _ hn => hn
  | cons k ks ih => exact (k.forward_skip limit bs).bind ih

theorem extends_skipBytes (n : Nat) (bs ext : List UInt8) :
    Extends ext (skipBytes n bs) (skipBytes n (bs ++ ext)) := by
  unfold skipBytes
  by_cases hn : n ≤ bs.length
  · rw [if_pos hn, if_pos (by simp; omega), List.drop_append_of_le_length hn]
    rfl
  · rw [if_neg hn]
    intro hstays
    split at hstays
    · rename_i hle
      simp only [StaysBefore, List.length_drop, List.length_append] at hle hstays
      omega
    · exact hstays

/-- Results that extend each other keep doing so under steps that do. -/
theorem Extends.bind {ext : List UInt8} {r r' : Except Stop (List UInt8)}
    {f g : List UInt8 → Except Stop (List UInt8)} (h : Extends ext r r')
    (hf : ∀ rest, r = .ok rest → Extends ext (f rest) (g (rest ++ ext)))
    (hg : ∀ rest, Forward rest (g rest)) : Extends ext (r.bind f) (r'.bind g) := by
  match r, h with
  | .ok rest, h =>
    rw [h]
    exact hf rest rfl
  | .error (.refused n left), h =>
    rw [h]
    rfl
  | .error .exhausted, h =>
    intro hstays
    cases r' with
    | error stop => exact h hstays
    | ok rest => exact h (hg rest _ hstays)

theorem skipBytes_ok {n : Nat} {bs rest : List UInt8} (h : skipBytes n bs = .ok rest) :
    n ≤ bs.length := by
  unfold skipBytes at h
  split at h
  · assumption
  · exact absurd h (by simp)

theorem Field.extends_skip (limit : Nat) (k : Field) (bs ext : List UInt8) :
    Extends ext (k.skip limit bs) (k.skip limit (bs ++ ext)) := by
  cases k with
  | fixed w => exact extends_skipBytes w bs ext
  | counted w =>
    refine (extends_skipBytes w bs ext).bind (fun rest hrest => ?_)
      fun rest => forward_skipBytes _ rest
    rw [List.take_append_of_le_length (skipBytes_ok hrest)]
    exact extends_skipBytes _ rest ext
  | collected w =>
    refine (extends_skipBytes w bs ext).bind (fun rest hrest => ?_) fun rest => ?_
    · simp only [List.take_append_of_le_length (skipBytes_ok hrest)]
      split
      · exact extends_skipBytes _ rest ext
      · simp [Extends]
    · simp only
      split
      · exact forward_skipBytes _ rest
      · exact fun _ hn => hn

theorem extends_skipFields (limit : Nat) (ks : List Field) (bs ext : List UInt8) :
    Extends ext (skipFields limit ks bs) (skipFields limit ks (bs ++ ext)) := by
  induction ks generalizing bs with
  | nil => rfl
  | cons k ks ih =>
    exact (k.extends_skip limit bs ext).bind (fun rest _ => ih rest)
      fun rest => forward_skipFields limit ks rest

theorem skipFields_append (limit : Nat) (ks ks' : List Field) (bs : List UInt8) :
    skipFields limit (ks ++ ks') bs =
      (skipFields limit ks bs).bind (skipFields limit ks') := by
  induction ks generalizing bs with
  | nil => rfl
  | cons k ks ih =>
    rw [List.cons_append, skipFields, skipFields]
    cases k.skip limit bs with
    | error stop => rfl
    | ok rest => exact ih rest

theorem skipFields_singleton (limit : Nat) (k : Field) (bs : List UInt8) :
    skipFields limit [k] bs = k.skip limit bs := by
  rw [skipFields]
  cases k.skip limit bs <;> rfl

namespace Reader

variable {α β : Type}

/-- The reader moves its cursor as the layout says, on every input. -/
def Follows (p : Reader α) (ks : List Field) : Prop :=
  ∀ limit bs, (p.run limit bs).map Prod.snd = skipFields limit ks bs

theorem follows_pure (a : α) : Follows (pure a : Reader α) [] := fun _ _ => rfl

theorem Follows.bind {p : Reader α} {f : α → Reader β} {ks ks' : List Field}
    (hp : Follows p ks) (hf : ∀ a, Follows (f a) ks') : Follows (p >>= f) (ks ++ ks') := by
  intro limit bs
  rw [skipFields_append, ← hp limit bs, run_bind]
  cases p.run limit bs with
  | error stop => rfl
  | ok x => exact hf x.1 limit x.2

theorem Follows.bind_cons {p : Reader α} {f : α → Reader β} {k : Field}
    {ks : List Field} (hp : Follows p [k]) (hf : ∀ a, Follows (f a) ks) :
    Follows (p >>= f) (k :: ks) :=
  hp.bind hf

theorem Follows.map {p : Reader α} {ks : List Field} (hp : Follows p ks) (f : α → β) :
    Follows (f <$> p) ks := by
  intro limit bs
  rw [← hp limit bs, run_map]
  cases p.run limit bs <;> rfl

theorem follows_bytes (n : Nat) : Follows (bytes n) [.fixed n] := by
  intro limit bs
  rw [run_bytes, skipFields_singleton, Field.skip, skipBytes]
  split <;> rfl

theorem follows_word (w : Nat) : Follows (word w) [.fixed w] :=
  (follows_bytes w).bind fun _ => follows_pure _

theorem run_word (w limit : Nat) (bs : List UInt8) :
    (word w).run limit bs = (skipBytes w bs).map fun rest => (leNat (bs.take w), rest) := by
  rw [word, run_bind, run_bytes, skipBytes]
  by_cases h : w ≤ bs.length
  · simp only [if_pos h]
    rfl
  · simp only [if_neg h]
    rfl

theorem follows_counted (w : Nat) : Follows (counted w) [.counted w] := by
  intro limit bs
  rw [counted, run_bind, run_word, skipFields_singleton, Field.skip]
  cases skipBytes w bs with
  | error stop => rfl
  | ok rest => exact (follows_bytes _ limit rest).trans (skipFields_singleton ..)

theorem follows_collected (w : Nat) : Follows (collected w) [.collected w] := by
  intro limit bs
  rw [collected, run_bind, run_word, skipFields_singleton, Field.skip]
  cases skipBytes w bs with
  | error stop => rfl
  | ok rest =>
    show ((reserve _ >>= fun _ => bytes _).run limit rest).map Prod.snd = if _ then _ else _
    by_cases h : leNat (bs.take w) ≤ limit
    · rw [run_bind_ok (run_reserve h rest), if_pos h]
      exact (follows_bytes _ limit rest).trans (skipFields_singleton ..)
    · rw [if_neg h, run_bind]
      simp only [run, reserve, if_neg h]
      rfl

end Reader
end Base
end Rocprofsys
