import Mathlib.Data.List.GetD
import Rocprofsys.Common.Md5Transform

namespace Rocprofsys
namespace Common

open Base

namespace Md5sum

variable {m : Md5sum} {data : List UInt8} {input : Input}

/-! ## The buffer -/

theorem copyInto_spec (buffer : Vector UInt8 64) {index : ℕ} {src : List UInt8} {n : ℕ}
    (hindex : index + n ≤ 64) (hsrc : n ≤ src.length) :
    ∃ copied, copyInto buffer index src n = some copied ∧
      copied.toList.take (index + n) = buffer.toList.take index ++ src.take n := by
  refine ⟨_, if_pos ⟨hindex, hsrc⟩, ?_⟩
  apply List.ext_getElem
  · simp only [List.length_take, Vector.length_toList, List.length_append]
    omega
  · intro i hi hj
    have hlt : i < index + n := by
      rw [List.length_take] at hi
      omega
    rw [List.getElem_take, Vector.getElem_toList, Vector.getElem_ofFn, List.getElem_append]
    by_cases hbefore : i < index
    · have hfront : i < (buffer.toList.take index).length := by
        rw [List.length_take, Vector.length_toList]
        omega
      rw [if_neg (fun h => absurd h.1 (Nat.not_le.mpr hbefore)), dif_pos hfront, List.getElem_take,
        Vector.getElem_toList]
      rfl
    · have hlength : (buffer.toList.take index).length = index := by
        rw [List.length_take, Vector.length_toList]
        omega
      have hback : i - index < src.length := by omega
      rw [if_pos ⟨Nat.not_lt.mp hbefore, hlt⟩, dif_neg (by omega), List.getElem_take,
        List.getD_eq_getElem _ _ hback]
      congr 1
      omega

/-! ## The loop over the blocks -/

/-- Where the loop over the blocks ends, for a start at `i`. -/
def blocksEnd (input : Input) (i : ℕ) : ℕ :=
  input.bytes.length - (input.bytes.length - i) % 64

theorem toNat_length (input : Input) : input.length.toNat = input.bytes.length :=
  UInt32.toNat_ofNat_of_lt' input.short

theorem toNat_blocksEnd (input : Input) (i : ℕ) :
    (UInt32.ofNat (blocksEnd input i)).toNat = blocksEnd input i :=
  UInt32.toNat_ofNat_of_lt' ((Nat.sub_le _ _).trans_lt input.short)

/-- What is left of the input behind the blocks. -/
theorem toNat_length_sub_blocksEnd {i : ℕ} (hi : i ≤ input.bytes.length) :
    (input.length - UInt32.ofNat (blocksEnd input i)).toNat = (input.bytes.length - i) % 64 := by
  have hle : UInt32.ofNat (blocksEnd input i) ≤ input.length := by
    rw [UInt32.le_iff_toNat_le, toNat_blocksEnd, toNat_length]
    exact Nat.sub_le _ _
  rw [UInt32.toNat_sub_of_le _ _ hle, toNat_blocksEnd, toNat_length, blocksEnd]
  omega

/-- At the last index the sum may wrap around to one in front of the end. -/
theorem transformFrom_of_last {i : UInt32} (state : Md5.Words) (hi : i.toNat ≤ input.bytes.length)
    (hlast : input.bytes.length < i.toNat + 64) :
    transformFrom input i state = if i.toNat + 64 < 2 ^ 32 then some (i, state) else none := by
  have hshort := input.short
  have hblock : (64 : UInt32).toNat = 64 := rfl
  have hadd := UInt32.toNat_add i 64
  rw [transformFrom]
  by_cases hfits : i.toNat + 64 < 2 ^ 32
  · have hgt : ¬ i + 64 ≤ input.length := by
      rw [UInt32.le_iff_toNat_le, toNat_length]
      omega
    rw [if_neg hgt, if_pos hfits]
  · have hle : i + 64 ≤ input.length := by
      rw [UInt32.le_iff_toNat_le, toNat_length]
      omega
    rw [if_pos hle, dif_neg (Nat.not_le.mpr hlast), if_neg hfits]

/-- The loop compresses the blocks if it can count past the last of them. -/
theorem transformFrom_eq {i : UInt32} (state : Md5.Words) (hi : i.toNat ≤ input.bytes.length) :
    transformFrom input i state =
      if blocksEnd input i.toNat + 64 < 2 ^ 32 then
        some (UInt32.ofNat (blocksEnd input i.toNat),
          (absorb Md5.compress 64 state (input.bytes.drop i.toNat)).1)
      else none := by
  have hshort := input.short
  have hblock : (64 : UInt32).toNat = 64 := rfl
  induction hrest : input.bytes.length - i.toNat using Nat.strongRecOn generalizing i state with
  | ind rest ih =>
    have hlength : (input.bytes.drop i.toNat).length = rest := by
      rw [List.length_drop, hrest]
    by_cases hmore : i.toNat + 64 ≤ input.bytes.length
    · have hadd := UInt32.toNat_add i 64
      have hnext : (i + 64).toNat = i.toNat + 64 := by omega
      have hle : i + 64 ≤ input.length := by
        rw [UInt32.le_iff_toNat_le, hnext, toNat_length]
        exact hmore
      have hend : blocksEnd input (i.toNat + 64) = blocksEnd input i.toNat := by
        rw [blocksEnd, blocksEnd]
        omega
      have htake : ((input.bytes.drop i.toNat).take 64).length = 64 :=
        List.length_take_of_le (by omega)
      rw [transformFrom, if_pos hle, dif_pos hmore, ih (rest - 64) (by omega) _ (by omega)
        (by omega), hnext, hend, transform_eq state htake,
        absorb_of_le (by decide) (show 64 ≤ (input.bytes.drop i.toNat).length by omega),
        List.drop_drop]
    · have hend : blocksEnd input i.toNat = i.toNat := by
        rw [blocksEnd]
        omega
      rw [transformFrom_of_last state hi (Nat.lt_of_not_le hmore), hend, absorb_of_lt (by omega),
        UInt32.ofNat_toNat]

/-! ## The state after some data -/

/-- The blocks of the data are compressed, the rest is in the buffer, and the two words count the
bits modulo `2 ^ 64`. -/
structure Streams (m : Md5sum) (data : List UInt8) : Prop where
  running : m.finalized = false
  count : m.count.1.toNat + 2 ^ 32 * m.count.2.toNat = 8 * data.length % 2 ^ 64
  state : m.state = (absorb Md5.compress 64 Md5.initial data).1
  buffer : m.buffer.toList.take (data.length % 64) = (absorb Md5.compress 64 Md5.initial data).2

theorem streams_empty : Streams {} [] where
  running := rfl
  count := rfl
  state := by
    rw [absorb_of_lt (show ([] : List UInt8).length < 64 by decide)]
    rfl
  buffer := by
    rw [absorb_of_lt (show ([] : List UInt8).length < 64 by decide)]
    rfl

/-- The carry between the two words. -/
theorem countBits_spec {count : UInt32 × UInt32} {length : UInt32} {n : ℕ}
    (h : count.1.toNat + 2 ^ 32 * count.2.toNat = 8 * n % 2 ^ 64) :
    (countBits count length).1.toNat + 2 ^ 32 * (countBits count length).2.toNat =
      8 * (n + length.toNat) % 2 ^ 64 := by
  have hlow := count.1.toNat_lt
  have hhigh := count.2.toNat_lt
  have hlength := length.toNat_lt
  have hone : (1 : UInt32).toNat = 1 := rfl
  have hleft : (length <<< (3 : UInt32)).toNat = length.toNat * 8 % 2 ^ 32 := by
    rw [UInt32.toNat_shiftLeft, Nat.shiftLeft_eq]
    rfl
  have hright : (length >>> (29 : UInt32)).toNat = length.toNat / 2 ^ 29 := by
    rw [UInt32.toNat_shiftRight, Nat.shiftRight_eq_div_pow]
    rfl
  have hsum := UInt32.toNat_add count.1 (length <<< 3)
  have hcarry : count.1 + length <<< 3 < length <<< 3 ↔
      (count.1 + length <<< (3 : UInt32)).toNat < (length <<< (3 : UInt32)).toNat := UInt32.lt_iff_toNat_lt
  rw [countBits]
  by_cases hwrap : count.1 + length <<< 3 < length <<< 3
  · have hup := UInt32.toNat_add count.2 1
    have htop := UInt32.toNat_add (count.2 + 1) (length >>> 29)
    rw [if_pos hwrap]
    rw [hcarry] at hwrap
    show (count.1 + length <<< (3 : UInt32)).toNat + 2 ^ 32 * (count.2 + 1 + length >>> (29 : UInt32)).toNat = _
    omega
  · have htop := UInt32.toNat_add count.2 (length >>> 29)
    rw [if_neg hwrap]
    rw [hcarry] at hwrap
    show (count.1 + length <<< (3 : UInt32)).toNat + 2 ^ 32 * (count.2 + length >>> (29 : UInt32)).toNat = _
    omega

/-- The bytes in the buffer, from the number of bits. -/
theorem Streams.index_eq (h : Streams m data) :
    (m.count.1 / 8 % 64).toNat = data.length % 64 := by
  have hcount := h.count
  have hlow := m.count.1.toNat_lt
  have height : (8 : UInt32).toNat = 8 := rfl
  have hblock : (64 : UInt32).toNat = 64 := rfl
  rw [UInt32.toNat_mod, UInt32.toNat_div, height, hblock]
  omega

theorem Streams.firstpart_eq (h : Streams m data) :
    (64 - m.count.1 / 8 % 64).toNat = 64 - data.length % 64 := by
  have hindex := h.index_eq
  have hblock : (64 : UInt32).toNat = 64 := rfl
  have hsub := UInt32.toNat_sub 64 (m.count.1 / 8 % 64)
  omega

theorem length_pending (data : List UInt8) :
    (absorb Md5.compress 64 Md5.initial data).2.length = data.length % 64 :=
  length_absorb (by decide)

/-- How far the index of the loop runs ahead of the bytes in the last block. -/
def lead (n : ℕ) : ℕ := if n % 64 = 0 then 64 else n % 64

/-- An index of 32 bits can be counted past the last block of the input that comes after `n`
bytes. -/
def FitsAfter (n : ℕ) (input : Input) : Prop := input.bytes.length + lead n < 2 ^ 32

instance (n : ℕ) (input : Input) : Decidable (FitsAfter n input) :=
  inferInstanceAs (Decidable (_ < _))

theorem fitsAfter_iff (n : ℕ) (input : Input)
    (hfull : 64 ≤ n % 64 + input.bytes.length) :
    FitsAfter n input ↔ blocksEnd input (64 - n % 64) + 64 < 2 ^ 32 := by
  have hshort := input.short
  rw [FitsAfter, lead, blocksEnd]
  split_ifs <;> omega

/-- Less than a block. -/
theorem update_of_lt (h : Streams m data) (hlt : data.length % 64 + input.bytes.length < 64) :
    ∃ m', m.update input = some m' ∧ Streams m' (data ++ input.bytes) := by
  have hindex := h.index_eq
  have hnot : ¬ input.length ≥ 64 - m.count.1 / 8 % 64 := by
    rw [ge_iff_le, UInt32.le_iff_toNat_le, toNat_length, h.firstpart_eq]
    omega
  obtain ⟨copied, hcopied, htake⟩ := copyInto_spec m.buffer
    (show data.length % 64 + input.bytes.length ≤ 64 by omega) (le_refl input.bytes.length)
  rw [List.take_length, h.buffer] at htake
  have hshort : ((absorb Md5.compress 64 Md5.initial data).2 ++ input.bytes).length < 64 := by
    rw [List.length_append, length_pending]
    exact hlt
  have habsorb : absorb Md5.compress 64 Md5.initial (data ++ input.bytes) =
      ((absorb Md5.compress 64 Md5.initial data).1,
        (absorb Md5.compress 64 Md5.initial data).2 ++ input.bytes) := by
    rw [absorb_append (by decide), absorb_of_lt hshort]
  refine ⟨{ m with count := countBits m.count input.length, buffer := copied }, ?_, ?_⟩
  · unfold update
    simp only [if_neg hnot, hindex, toNat_length, hcopied]
    rfl
  · constructor
    · exact h.running
    · rw [List.length_append, ← toNat_length]
      exact countBits_spec h.count
    · rw [habsorb]
      exact h.state
    · have hlength : (data ++ input.bytes).length % 64 =
          data.length % 64 + input.bytes.length := by
        rw [List.length_append]
        omega
      rw [hlength, htake, habsorb]

/-- The block that is filled up, and those behind it. -/
theorem absorb_filled (data : List UInt8) {bytes : List UInt8}
    (hfull : 64 ≤ data.length % 64 + bytes.length) :
    absorb Md5.compress 64 Md5.initial (data ++ bytes) =
      absorb Md5.compress 64
        (Md5.compress (absorb Md5.compress 64 Md5.initial data).1
          ((absorb Md5.compress 64 Md5.initial data).2 ++ bytes.take (64 - data.length % 64)))
        (bytes.drop (64 - data.length % 64)) := by
  have hlength : ((absorb Md5.compress 64 Md5.initial data).2 ++
      bytes.take (64 - data.length % 64)).length = 64 := by
    rw [List.length_append, length_pending, List.length_take]
    omega
  rw [absorb_append (by decide), ← absorb_block (by decide) hlength, List.append_assoc,
    List.take_append_drop]

/-- One block at least. -/
theorem update_of_le (h : Streams m data) (hfull : 64 ≤ data.length % 64 + input.bytes.length) :
    ∃ copied : Vector UInt8 64, m.update input =
      if FitsAfter data.length input then
        (copyInto copied 0 (input.bytes.drop (blocksEnd input (64 - data.length % 64)))
          ((input.bytes.length - (64 - data.length % 64)) % 64)).bind fun buffer =>
            some { m with
              count := countBits m.count input.length
              buffer
              state := (absorb Md5.compress 64 Md5.initial (data ++ input.bytes)).1 }
      else none := by
  have hindex := h.index_eq
  have hfirst := h.firstpart_eq
  have hle : 64 - data.length % 64 ≤ input.bytes.length := by omega
  have hge : input.length ≥ 64 - m.count.1 / 8 % 64 := by
    rwa [ge_iff_le, UInt32.le_iff_toNat_le, toNat_length, hfirst]
  have hroom : data.length % 64 + (64 - data.length % 64) = 64 := by omega
  obtain ⟨copied, hcopied, htake⟩ := copyInto_spec m.buffer hroom.le hle
  have hfilled : copied.toList = (absorb Md5.compress 64 Md5.initial data).2 ++
      input.bytes.take (64 - data.length % 64) := by
    rw [hroom, h.buffer] at htake
    rw [← htake, List.take_of_length_le (Vector.length_toList).le]
  have hloop : transformFrom input (64 - m.count.1 / 8 % 64) (transform m.state copied.toList) =
      if FitsAfter data.length input then
        some (UInt32.ofNat (blocksEnd input (64 - data.length % 64)),
          (absorb Md5.compress 64 Md5.initial (data ++ input.bytes)).1)
      else none := by
    rw [transformFrom_eq _ (hfirst ▸ hle), hfirst, transform_eq m.state Vector.length_toList, hfilled,
      h.state, ← absorb_filled data hfull]
    exact if_congr (fitsAfter_iff data.length input hfull).symm rfl rfl
  refine ⟨copied, ?_⟩
  unfold update
  simp only [if_pos hge, hindex, hfirst, hcopied, Option.bind_eq_bind, Option.bind_some]
  rw [hloop]
  by_cases hfits : FitsAfter data.length input
  · rw [if_pos hfits, if_pos hfits, Option.bind_some, toNat_blocksEnd,
      toNat_length_sub_blocksEnd hle]
  · rw [if_neg hfits, if_neg hfits, Option.bind_none]

/-- An input after which the index fits is added to the data, and of another one more is read than
is there. -/
theorem update_spec (h : Streams m data) (input : Input) :
    (FitsAfter data.length input →
        ∃ m', m.update input = some m' ∧ Streams m' (data ++ input.bytes)) ∧
      (¬ FitsAfter data.length input → m.update input = none) := by
  by_cases hlt : data.length % 64 + input.bytes.length < 64
  · refine ⟨fun _ => update_of_lt h hlt, fun hnot => absurd ?_ hnot⟩
    rw [FitsAfter, lead]
    split_ifs <;> omega
  · have hfull : 64 ≤ data.length % 64 + input.bytes.length := Nat.not_lt.mp hlt
    obtain ⟨copied, hupdate⟩ := update_of_le h hfull
    constructor
    · intro hfits
      have hlength : (data ++ input.bytes).length % 64 =
          (input.bytes.length - (64 - data.length % 64)) % 64 := by
        rw [List.length_append]
        omega
      have hrest : (input.bytes.drop (blocksEnd input (64 - data.length % 64))).length =
          (input.bytes.length - (64 - data.length % 64)) % 64 := by
        rw [List.length_drop, blocksEnd]
        omega
      obtain ⟨buffer, hbuffer, htake⟩ := copyInto_spec copied
        (show 0 + (input.bytes.length - (64 - data.length % 64)) % 64 ≤ 64 by omega) hrest.ge
      rw [if_pos hfits, hbuffer, Option.bind_some] at hupdate
      refine ⟨_, hupdate, ⟨h.running, ?_, rfl, ?_⟩⟩
      · rw [List.length_append, ← toNat_length]
        exact countBits_spec h.count
      · rw [Nat.zero_add, List.take_zero, List.nil_append, ← hrest, List.take_length, hrest] at htake
        rw [hlength, htake, absorb_filled data hfull, absorb_snd (by decide), List.drop_drop,
          List.length_drop, blocksEnd]
        congr 1
        omega
    · intro hnot
      rw [hupdate, if_neg hnot]

/-! ## finalize -/

theorem fitsAfter_of_le {n : ℕ} (h : input.bytes.length ≤ 64) : FitsAfter n input := by
  rw [FitsAfter, lead]
  split_ifs <;> omega

/-- The two words of the number of bits, byte by byte. -/
theorem Streams.bytes_bits (h : Streams m data) : m.bits.bytes = leBytes 8 (8 * data.length) := by
  have hlow := m.count.1.toNat_lt
  have hcount := h.count
  have hbytes : m.bits.bytes = leBytes 4 m.count.1.toNat ++ leBytes 4 m.count.2.toNat := by
    show encode [m.count.1, m.count.2] = _
    rw [encode_eq, List.flatMap_cons, List.flatMap_singleton]
  have hfirst : (m.count.1.toNat + 2 ^ 32 * m.count.2.toNat) % 256 ^ 4 = m.count.1.toNat := by
    omega
  have hsecond : (m.count.1.toNat + 2 ^ 32 * m.count.2.toNat) / 256 ^ 4 = m.count.2.toNat := by
    omega
  have hmod : 8 * data.length % 256 ^ 8 = m.count.1.toNat + 2 ^ 32 * m.count.2.toNat := by
    omega
  rw [hbytes, ← leBytes_mod 8, hmod, leBytes_append 4 4, hsecond, ← leBytes_mod 4 (_ + _), hfirst]

/-- The padding up to 56 bytes modulo 64. -/
theorem take_padding {n k : ℕ} (hk : k = if n % 64 < 56 then 56 - n % 64 else 120 - n % 64) :
    padding.take k = 0x80 :: List.replicate ((119 - n % 64) % 64) 0 := by
  have hsucc : k = (119 - n % 64) % 64 + 1 := by
    rw [hk]
    split_ifs <;> omega
  have hle : (119 - n % 64) % 64 ≤ 63 := by omega
  rw [hsucc, padding, List.take_succ_cons, List.take_replicate, Nat.min_eq_left hle]

theorem encode_words (w : Md5.Words) : encode [w.a, w.b, w.c, w.d] = w.bytes := by
  rw [encode_eq, Md5.Words.bytes, List.flatMap_cons, List.flatMap_cons, List.flatMap_cons,
    List.flatMap_singleton, List.append_assoc, List.append_assoc]

theorem toNat_padLen {index : UInt32} {n : ℕ} (h : index.toNat = n % 64) :
    (padLen index).toNat = if n % 64 < 56 then 56 - n % 64 else 120 - n % 64 := by
  have hlow : (56 : UInt32).toNat = 56 := rfl
  have hhigh : (120 : UInt32).toNat = 120 := rfl
  have hlt : index < 56 ↔ n % 64 < 56 := by
    rw [UInt32.lt_iff_toNat_lt, h, hlow]
  rw [padLen]
  by_cases hindex : index < 56
  · have hsub := UInt32.toNat_sub 56 index
    have hsmall : n % 64 < 56 := hlt.mp hindex
    rw [if_pos hindex, if_pos hsmall]
    omega
  · have hsub := UInt32.toNat_sub 120 index
    rw [if_neg hindex, if_neg (mt hlt.mpr hindex)]
    omega

/-- The digest of the data. -/
theorem finalize_spec (h : Streams m data) :
    ∃ m', m.finalize = some m' ∧ m'.digest = Md5.digest data := by
  let length := (padLen (m.count.1 / 8 % 64)).toNat
  have htake : padding.take length = 0x80 :: List.replicate ((119 - data.length % 64) % 64) 0 :=
    take_padding (toNat_padLen h.index_eq)
  obtain ⟨padded, hpadded, hstreams⟩ :=
    (update_spec h ⟨padding.take length, length_take_padding_lt _⟩).1
      (fitsAfter_of_le (List.length_take_le' _ padding))
  have hbits : m.bits.bytes.length = 8 := by
    rw [h.bytes_bits, length_leBytes]
  obtain ⟨counted, hcounted, hall⟩ := (update_spec hstreams m.bits).1
    (fitsAfter_of_le (by rw [hbits]; decide))
  have hfinalize : m.finalize = some { counted with
      digest := encode [counted.state.a, counted.state.b, counted.state.c, counted.state.d]
      buffer := Vector.replicate 64 0
      count := (0, 0)
      finalized := true } := by
    have hrunning : ¬ m.finalized = true := by
      rw [h.running]
      exact Bool.false_ne_true
    rw [finalize, if_neg hrunning]
    show (m.update ⟨padding.take length, length_take_padding_lt _⟩).bind _ = _
    rw [hpadded, Option.bind_some]
    show (padded.update m.bits).bind _ = _
    rw [hcounted, Option.bind_some]
  refine ⟨_, hfinalize, ?_⟩
  have hmessage : data ++ padding.take length ++ m.bits.bytes =
      data ++ Md5.padding data.length := by
    rw [htake, h.bytes_bits, List.append_assoc, Md5.padding, List.cons_append]
  show encode [counted.state.a, counted.state.b, counted.state.c, counted.state.d] = _
  rw [encode_words, hall.state, hmessage, Md5.digest]

end Md5sum

/-! ## Any number of inputs -/

/-- Each input fits after the bytes in front of it. -/
def AllFit (n : ℕ) : List Input → Prop
  | [] => True
  | input :: inputs => Md5sum.FitsAfter n input ∧ AllFit (n + input.bytes.length) inputs

variable {m : Md5sum} {data : List UInt8} {inputs : List Input}

theorem foldlM_update_of_allFit (h : m.Streams data) (hfit : AllFit data.length inputs) :
    ∃ m', inputs.foldlM Md5sum.update m = some m' ∧
      m'.Streams (data ++ inputs.flatMap Input.bytes) := by
  induction inputs generalizing m data with
  | nil =>
    refine ⟨m, rfl, ?_⟩
    rwa [List.flatMap_nil, List.append_nil]
  | cons input inputs ih =>
    obtain ⟨m', hm', hstreams⟩ := (Md5sum.update_spec h input).1 hfit.1
    have hrest := hfit.2
    rw [← List.length_append] at hrest
    obtain ⟨last, hlast, hall⟩ := ih hstreams hrest
    refine ⟨last, ?_, ?_⟩
    · rw [List.foldlM_cons, hm']
      exact hlast
    · rwa [List.flatMap_cons, ← List.append_assoc]

theorem foldlM_update_of_not_allFit (h : m.Streams data) (hfit : ¬ AllFit data.length inputs) :
    inputs.foldlM Md5sum.update m = none := by
  induction inputs generalizing m data with
  | nil => exact absurd trivial hfit
  | cons input inputs ih =>
    rw [List.foldlM_cons]
    by_cases hfirst : Md5sum.FitsAfter data.length input
    · obtain ⟨m', hm', hstreams⟩ := (Md5sum.update_spec h input).1 hfirst
      rw [hm']
      refine ih hstreams ?_
      rw [List.length_append]
      exact fun hrest => hfit ⟨hfirst, hrest⟩
    · rw [(Md5sum.update_spec h input).2 hfirst]
      rfl

theorem md5sum_of_not_allFit (hfit : ¬ AllFit 0 inputs) : md5sum inputs = none := by
  have hnone := foldlM_update_of_not_allFit Md5sum.streams_empty hfit
  rw [md5sum, hnone]
  rfl

/-- The digest is that of all the bytes exactly if each input fits after those in front of it. -/
theorem md5sum_eq_digest_iff (inputs : List Input) :
    md5sum inputs = some (Md5.digest (inputs.flatMap Input.bytes)) ↔ AllFit 0 inputs := by
  by_cases hfit : AllFit 0 inputs
  · refine iff_of_true ?_ hfit
    obtain ⟨m, hm, hstreams⟩ := foldlM_update_of_allFit Md5sum.streams_empty hfit
    obtain ⟨m', hm', hdigest⟩ := Md5sum.finalize_spec hstreams
    rw [md5sum, hm, Option.bind_some, hm', Option.map_some, hdigest]
    rfl
  · refine iff_of_false ?_ hfit
    rw [md5sum_of_not_allFit hfit]
    exact fun h => by cases h

/-- An input of zeros. -/
def zeros (n : ℕ) (h : n < 2 ^ 32) : Input := ⟨List.replicate n 0, by rwa [List.length_replicate]⟩

/-- One input that leaves no room for the index of one more block. -/
theorem md5sum_zeros_ne_digest : md5sum [zeros (2 ^ 32 - 64) (by omega)] ≠
    some (Md5.digest ([zeros (2 ^ 32 - 64) (by omega)].flatMap Input.bytes)) := by
  have hfit : ¬ AllFit 0 [zeros (2 ^ 32 - 64) (by omega)] := by
    intro h
    have hfirst : (zeros (2 ^ 32 - 64) (by omega)).bytes.length + Md5sum.lead 0 < 2 ^ 32 := h.1
    have hlength : (zeros (2 ^ 32 - 64) (by omega)).bytes.length = 2 ^ 32 - 64 :=
      List.length_replicate
    have hlead : Md5sum.lead 0 = 64 := rfl
    rw [hlength, hlead] at hfirst
    omega
  rw [md5sum_of_not_allFit hfit]
  exact fun h => by cases h

end Common
end Rocprofsys
