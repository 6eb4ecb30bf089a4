import Mathlib.Order.CompletePartialOrder
import Mathlib.Order.Interval.Finset.Nat
import Mathlib.Tactic.Ring

namespace Rocprofsys
namespace Base

/-- Bytes by address. -/
abbrev Memory := Nat → UInt8

namespace Memory

/-- Store `bs` at `a` and the addresses behind it. -/
def write (m : Memory) (a : Nat) (bs : List UInt8) : Memory := fun x =>
  if a ≤ x then bs[x - a]?.getD (m x) else m x

/-- The `n` bytes from `a` on. -/
def read (m : Memory) (a n : Nat) : List UInt8 := (List.range n).map fun i => m (a + i)

theorem write_inside (m : Memory) (a : Nat) {bs : List UInt8} {i : Nat} {b : UInt8}
    (h : bs[i]? = some b) : m.write a bs (a + i) = b := by
  rw [write, if_pos (Nat.le_add_right a i), Nat.add_sub_cancel_left, h, Option.getD_some]

/-- A write changes nothing outside the bytes it stores. -/
theorem write_outside (m : Memory) {a x : Nat} {bs : List UInt8}
    (h : x < a ∨ a + bs.length ≤ x) : m.write a bs x = m x := by
  unfold write
  split
  · rw [List.getElem?_eq_none (by omega), Option.getD_none]
  · rfl

theorem write_append (m : Memory) (a : Nat) (bs cs : List UInt8) :
    m.write a (bs ++ cs) = (m.write a bs).write (a + bs.length) cs := by
  funext x
  rcases Nat.lt_or_ge x (a + bs.length) with hx | hx
  · rw [write_outside _ (Or.inl hx)]
    rcases Nat.lt_or_ge x a with ha | ha
    · rw [write_outside _ (Or.inl ha), write_outside _ (Or.inl ha)]
    · simp only [write, ha, if_true]
      rw [List.getElem?_append_left (by omega)]
  · have ha : a ≤ x := by omega
    simp only [write, ha, hx, if_true]
    rw [List.getElem?_append_right (by omega), List.getElem?_eq_none (by omega : bs.length ≤ x - a),
      Option.getD_none, Nat.sub_sub]

/-- A write over the first bytes of an earlier one. -/
theorem write_write (m : Memory) (a : Nat) (bs cs : List UInt8) :
    (m.write a bs).write a cs = m.write a (cs ++ bs.drop cs.length) := by
  funext x
  rcases Nat.lt_or_ge x a with ha | ha
  · rw [write_outside _ (Or.inl ha), write_outside _ (Or.inl ha), write_outside _ (Or.inl ha)]
  · simp only [write, ha, if_true]
    rcases Nat.lt_or_ge (x - a) cs.length with hx | hx
    · rw [List.getElem?_append_left hx, List.getElem?_eq_getElem hx]
      rfl
    · rw [List.getElem?_append_right hx, List.getElem?_drop, List.getElem?_eq_none hx,
        Option.getD_none, Nat.add_sub_cancel' hx]

@[simp] theorem length_read (m : Memory) (a n : Nat) : (m.read a n).length = n := by
  simp [read]

theorem getElem?_read (m : Memory) {a n i : Nat} (h : i < n) :
    (m.read a n)[i]? = some (m (a + i)) := by
  simp [read, h]

theorem read_write (m : Memory) (a : Nat) (bs : List UInt8) :
    (m.write a bs).read a bs.length = bs := by
  apply List.ext_getElem?
  intro i
  rcases Nat.lt_or_ge i bs.length with hi | hi
  · rw [getElem?_read _ hi, write_inside m a (List.getElem?_eq_getElem hi),
      List.getElem?_eq_getElem hi]
  · rw [List.getElem?_eq_none (by simpa using hi), List.getElem?_eq_none hi]

/-- A write changes nothing that is read away from it. -/
theorem read_write_outside (m : Memory) {a x n : Nat} {bs : List UInt8}
    (h : x + n ≤ a ∨ a + bs.length ≤ x) : (m.write a bs).read x n = m.read x n := by
  unfold read
  apply List.map_congr_left
  intro i hi
  have hin := List.mem_range.mp hi
  exact write_outside m (by omega)

/-- A part of a write is read back from where it stands. -/
theorem read_write_append (m : Memory) (a : Nat) (front bs back : List UInt8) :
    (m.write a (front ++ bs ++ back)).read (a + front.length) bs.length = bs := by
  rw [write_append, write_append, read_write_outside _ (by rw [List.length_append]; omega),
    read_write]

end Memory

/-! ## Rings

A ring of `cap` bytes holds the newest part of a log that only grows.  Position
`v` of the log lives at address `v % cap`.  Head and tail are kept reduced, and
the log positions they stand for are less than `cap` apart. -/

/-- Two positions less than one revolution apart have different addresses. -/
theorem eq_of_mod_eq {cap lo u v : Nat} (hu : lo ≤ u) (hu' : u < lo + cap) (hv : lo ≤ v)
    (hv' : v < lo + cap) (h : u % cap = v % cap) : u = v :=
  Nat.mod_injOn_Ico lo cap (by simp [hu, hu']) (by simp [hv, hv']) h

theorem add_mod_of_fits {cap u i : Nat} (h : u % cap + i < cap) :
    (u + i) % cap = u % cap + i := by
  rw [Nat.add_mod, Nat.mod_eq_of_lt (by omega : i < cap), Nat.mod_eq_of_lt h]

/-- Filling the ring up to its end reaches a multiple of the capacity. -/
theorem add_rest_mod {cap : Nat} (hcap : 0 < cap) (u : Nat) :
    (u + (cap - u % cap)) % cap = 0 := by
  have hlt := Nat.mod_lt u hcap
  have hdiv := Nat.div_add_mod u cap
  have hsum : u + (cap - u % cap) = cap * (u / cap + 1) := by
    rw [Nat.mul_add, Nat.mul_one]
    omega
  rw [hsum, Nat.mul_mod_right]

/-- The number of bytes from `tail` forward to `head`. -/
def cyclicDistance (cap tail head : Nat) : Nat :=
  if tail ≤ head then head - tail else cap - tail + head

/-- The bytes from `tail` forward to `head`, in two pieces when they wrap. -/
def readCyclic (cap : Nat) (m : Memory) (tail head : Nat) : List UInt8 :=
  if tail ≤ head then m.read tail (head - tail)
  else m.read tail (cap - tail) ++ m.read 0 head

/-- The addresses from `tail` forward to `head`. -/
def cyclicRange (cap tail head : Nat) : Set Nat :=
  {a | if tail ≤ head then tail ≤ a ∧ a < head else (tail ≤ a ∧ a < cap) ∨ a < head}

/-- Either the positions stand in the same revolution or the later one has
started the next. -/
theorem revolution_cases {cap lo hi : Nat} (hcap : 0 < cap) (hle : lo ≤ hi)
    (hlt : hi < lo + cap) :
    (lo % cap ≤ hi % cap ∧ hi - lo = hi % cap - lo % cap) ∨
      (hi % cap < lo % cap ∧ hi - lo = cap - lo % cap + hi % cap) := by
  have hl := Nat.div_add_mod lo cap
  have hh := Nat.div_add_mod hi cap
  have hlm := Nat.mod_lt lo hcap
  have hhm := Nat.mod_lt hi hcap
  have hge : lo / cap ≤ hi / cap := Nat.div_le_div_right hle
  have hle' : hi / cap ≤ lo / cap + 1 := by
    rw [← Nat.add_div_right lo hcap]
    exact Nat.div_le_div_right (Nat.le_of_lt hlt)
  rcases (by omega : hi / cap = lo / cap ∨ hi / cap = lo / cap + 1) with h | h
  · rw [h] at hh
    omega
  · rw [h, Nat.mul_add, Nat.mul_one] at hh
    omega

theorem cyclicDistance_mod {cap lo hi : Nat} (hcap : 0 < cap) (hle : lo ≤ hi)
    (hlt : hi < lo + cap) : cyclicDistance cap (lo % cap) (hi % cap) = hi - lo := by
  unfold cyclicDistance
  rcases revolution_cases hcap hle hlt with ⟨h, h'⟩ | ⟨h, h'⟩
  · rw [if_pos h, h']
  · rw [if_neg (by omega), h']

/-- The space in front of the head is free as far as the tail's next turn. -/
theorem disjoint_cyclicRange {cap tail head n : Nat}
    (h : cyclicDistance cap tail head + n ≤ cap) :
    Disjoint {a | head ≤ a ∧ a < head + n} (cyclicRange cap tail head) := by
  rw [Set.disjoint_left]
  rintro a ⟨hle, hlt⟩ ha
  unfold cyclicDistance at h
  simp only [cyclicRange, Set.mem_ofPred_eq] at ha
  split at h
  · rw [if_pos (by assumption)] at ha
    omega
  · rw [if_neg (by assumption)] at ha
    omega

/-- After a turn the space from address zero on is free up to the tail. -/
theorem disjoint_cyclicRange_turn {cap tail head n : Nat} (hhead : head ≤ cap)
    (h : cyclicDistance cap tail head + (cap - head) + n ≤ cap) :
    Disjoint {a | 0 ≤ a ∧ a < 0 + n} (cyclicRange cap tail head) := by
  rw [Set.disjoint_left]
  rintro a ⟨-, hlt⟩ ha
  unfold cyclicDistance at h
  simp only [cyclicRange, Set.mem_ofPred_eq] at ha
  split at h
  · rw [if_pos (by assumption)] at ha
    omega
  · rw [if_neg (by assumption)] at ha
    omega

/-- Memory agrees with the log at the positions in `S`. -/
def Holds (cap : Nat) (m : Memory) (log : List UInt8) (S : Nat → Prop) : Prop :=
  ∀ v b, S v → log[v]? = some b → m (v % cap) = b

namespace Holds

variable {cap : Nat} {m : Memory} {log : List UInt8} {S : Nat → Prop}

theorem mono {S' : Nat → Prop} (h : Holds cap m log S) (hS : ∀ v, S' v → S v) :
    Holds cap m log S' :=
  fun v b hv => h v b (hS v hv)

/-- Growing the log asks nothing of memory while the new positions are outside
`S`. -/
theorem grow (h : Holds cap m log S) (hS : ∀ v, S v → v < log.length) (bs : List UInt8) :
    Holds cap m (log ++ bs) S := by
  intro v b hv hb
  rw [List.getElem?_append_left (hS v hv)] at hb
  exact h v b hv hb

/-- Writing the log's own bytes at positions `u` to `u + bs.length` keeps every
position of the window and adds the ones written. -/
theorem write {lo u : Nat} {bs : List UInt8} (h : Holds cap m log S)
    (hS : ∀ v, S v → lo ≤ v) (hwindow : log.length ≤ lo + cap) (hlo : lo ≤ u)
    (hend : u + bs.length ≤ log.length) (hfits : u % cap + bs.length ≤ cap)
    (hbs : ∀ i b, bs[i]? = some b → log[u + i]? = some b) :
    Holds cap (m.write (u % cap) bs) log (fun v => S v ∨ (u ≤ v ∧ v < u + bs.length)) := by
  intro v b hv hb
  have hvlen : v < log.length := by
    by_contra hge
    rw [List.getElem?_eq_none (by omega)] at hb
    exact absurd hb (by simp)
  by_cases hin : u ≤ v ∧ v < u + bs.length
  · obtain ⟨i, rfl⟩ := Nat.exists_eq_add_of_le hin.1
    have hi : i < bs.length := by omega
    rw [add_mod_of_fits (by omega)]
    have hbi := hbs i _ (List.getElem?_eq_getElem hi)
    rw [hb] at hbi
    obtain rfl := Option.some.inj hbi
    exact Memory.write_inside m _ (List.getElem?_eq_getElem hi)
  · have hSv : S v := by
      rcases hv with hv | hv
      · exact hv
      · exact absurd hv hin
    have hvlo := hS v hSv
    rw [Memory.write_outside]
    · exact h v b hSv hb
    -- A clash of addresses would put `v` among the written positions.
    · by_contra hclash
      push Not at hclash
      obtain ⟨i, hi⟩ := Nat.exists_eq_add_of_le hclash.1
      have hilt : i < bs.length := by omega
      have haddr : v % cap = (u + i) % cap := by rw [add_mod_of_fits (by omega), hi]
      have hvu : v = u + i := eq_of_mod_eq hvlo (by omega) (by omega) (by omega) haddr
      exact hin ⟨by omega, by omega⟩

theorem read {u n : Nat} (h : Holds cap m log S) (hS : ∀ v, u ≤ v → v < u + n → S v)
    (hend : u + n ≤ log.length) (hfits : u % cap + n ≤ cap) :
    m.read (u % cap) n = (log.drop u).take n := by
  apply List.ext_getElem?
  intro i
  rcases Nat.lt_or_ge i n with hi | hi
  · have hlog : log[u + i]? = some log[u + i] := List.getElem?_eq_getElem (by omega)
    rw [Memory.getElem?_read m hi, List.getElem?_take_of_lt hi, List.getElem?_drop, hlog,
      ← add_mod_of_fits (by omega)]
    exact congrArg some (h _ _ (hS _ (by omega) (by omega)) hlog)
  · rw [List.getElem?_eq_none (by simpa using hi), List.getElem?_eq_none (by simp; omega)]

/-- Reading from tail to head gives the part of the log between their
positions, whether or not it wraps. -/
theorem readCyclic {lo hi : Nat} (h : Holds cap m log S) (hcap : 0 < cap)
    (hS : ∀ v, lo ≤ v → v < hi → S v) (hle : lo ≤ hi) (hlt : hi < lo + cap)
    (hend : hi ≤ log.length) :
    Base.readCyclic cap m (lo % cap) (hi % cap) = (log.drop lo).take (hi - lo) := by
  have hlm := Nat.mod_lt lo hcap
  have hhm := Nat.mod_lt hi hcap
  unfold Base.readCyclic
  rcases revolution_cases hcap hle hlt with ⟨hmod, hdist⟩ | ⟨hmod, hdist⟩
  · rw [if_pos hmod, ← hdist]
    exact h.read (fun v hv hv' => hS v hv (by omega)) (by omega) (by omega)
  · rw [if_neg (by omega)]
    have hturn := add_rest_mod hcap lo
    have hfirst : m.read (lo % cap) (cap - lo % cap) = (log.drop lo).take (cap - lo % cap) :=
      h.read (fun v hv hv' => hS v hv (by omega)) (by omega) (by omega)
    have hsecond : m.read 0 (hi % cap)
        = (log.drop (lo + (cap - lo % cap))).take (hi % cap) := by
      rw [← hturn]
      exact h.read (fun v hv hv' => hS v (by omega) (by omega)) (by omega) (by omega)
    rw [hfirst, hsecond, hdist, List.take_add, List.drop_drop]

end Holds

/-! ## Stretches of a ring -/

/-- The `n` bytes from position `pos` on. -/
def stretch (cap : Nat) (m : Memory) (pos n : Nat) : List UInt8 :=
  (List.range n).map fun i => m ((pos + i) % cap)

section Stretch

variable {cap pos n k : Nat} {m : Memory} {xs ys : List UInt8}

@[simp] theorem length_stretch : (stretch cap m pos n).length = n := by
  simp [stretch]

theorem stretch_add :
    stretch cap m pos (n + k) = stretch cap m pos n ++ stretch cap m (pos + n) k := by
  simp only [stretch, List.range_add, List.map_append, List.map_map]
  congr 1
  refine List.map_congr_left fun i _ => ?_
  show m ((pos + (n + i)) % cap) = m ((pos + n + i) % cap)
  rw [Nat.add_assoc]

theorem take_stretch (h : k ≤ n) : (stretch cap m pos n).take k = stretch cap m pos k := by
  obtain ⟨j, rfl⟩ := Nat.exists_eq_add_of_le h
  rw [stretch_add, List.take_left' length_stretch]

/-- Up to the end of the ring the bytes stand side by side. -/
theorem stretch_of_fits (h : pos % cap + n ≤ cap) :
    stretch cap m pos n = m.read (pos % cap) n := by
  refine List.map_congr_left fun i hi => ?_
  have hlt := List.mem_range.mp hi
  rw [add_mod_of_fits (by omega)]

/-- Beyond the end of the ring they go on at its beginning. -/
theorem stretch_of_wraps (hcap : 0 < cap) (h : cap ≤ pos % cap + n) (hn : n ≤ cap) :
    stretch cap m pos n =
      m.read (pos % cap) (cap - pos % cap) ++ m.read 0 (pos % cap + n - cap) := by
  have hlt := Nat.mod_lt pos hcap
  have hrest := add_rest_mod hcap pos
  have hsplit : n = cap - pos % cap + (pos % cap + n - cap) := by omega
  have hfront := @stretch_of_fits cap pos (cap - pos % cap) m (by omega)
  have hback := @stretch_of_fits cap (pos + (cap - pos % cap)) (pos % cap + n - cap) m
    (by omega)
  rw [hrest] at hback
  rw [← hfront, ← hback, ← stretch_add, ← hsplit]

/-- A stretch taken apart. -/
theorem stretch_of_append (h : stretch cap m pos n = xs ++ ys) :
    n = xs.length + ys.length ∧ stretch cap m pos xs.length = xs ∧
      stretch cap m (pos + xs.length) ys.length = ys := by
  have hlength : n = xs.length + ys.length := by
    rw [← List.length_append, ← h, length_stretch]
  rw [hlength, stretch_add] at h
  exact ⟨hlength, List.append_inj h length_stretch⟩

end Stretch
end Base
end Rocprofsys
