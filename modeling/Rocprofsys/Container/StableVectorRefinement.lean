import Rocprofsys.Container.StableVector

namespace Rocprofsys
namespace Container
namespace StableVector

open Base

variable {α : Type} {chunkSize : Nat}

/-! ## The list of a vector -/

def toList (v : StableVector α chunkSize) : List α := (v.chunks.map Chunk.data).flatten

/-- All chunks but the last are full. -/
def IsPacked (v : StableVector α chunkSize) : Prop := Packed chunkSize (v.chunks.map Chunk.data)

theorem length_le_of_mem_map {v : StableVector α chunkSize} {c : List α}
    (h : c ∈ v.chunks.map Chunk.data) : c.length ≤ chunkSize := by
  obtain ⟨chunk, -, rfl⟩ := List.mem_map.mp h
  exact chunk.fits

/-- A vector without chunks, or with a last one. -/
theorem chunks_cases (v : StableVector α chunkSize) :
    v.chunks = [] ∨ ∃ front back, v.chunks = front ++ [back] := by
  rcases List.eq_nil_or_concat v.chunks with hnil | ⟨front, back, hconcat⟩
  · exact Or.inl hnil
  · exact Or.inr ⟨front, back, by rw [hconcat, List.concat_eq_append]⟩

theorem getLast?_of_chunks {v : StableVector α chunkSize} {front : List (Chunk α chunkSize)}
    {back : Chunk α chunkSize} (h : v.chunks = front ++ [back]) :
    v.chunks.getLast? = some back := by
  rw [h, List.getLast?_append, List.getLast?_singleton, Option.some_or]

theorem size_of_chunks {v : StableVector α chunkSize} {front : List (Chunk α chunkSize)}
    {back : Chunk α chunkSize} (h : v.chunks = front ++ [back]) :
    v.size = front.length * chunkSize + back.size := by
  unfold size
  rw [getLast?_of_chunks h, h]
  simp only [List.length_append, List.length_singleton, Nat.add_sub_cancel]

/-- The size counts the elements. -/
theorem size_eq_length {v : StableVector α chunkSize} (h : v.IsPacked) :
    v.size = v.toList.length := by
  rcases v.chunks_cases with hnil | ⟨front, back, hchunks⟩
  · unfold size toList
    rw [hnil]
    rfl
  · rw [size_of_chunks hchunks, toList, hchunks, List.map_append]
    rw [IsPacked, hchunks, List.map_append] at h
    have hlength := Packed.length_flatten h
    rw [List.length_map] at hlength
    exact hlength.symm

theorem size_le_capacity (v : StableVector α chunkSize) : v.size ≤ v.capacity := by
  rcases v.chunks_cases with hnil | ⟨front, back, hchunks⟩
  · unfold size
    rw [hnil]
    exact Nat.zero_le _
  · have hfits : back.size ≤ chunkSize := back.fits
    rw [size_of_chunks hchunks, capacity, hchunks, List.length_append, List.length_singleton,
      Nat.add_mul, Nat.one_mul]
    omega

/-- A vector filled up to its capacity has full chunks only. -/
theorem full_of_size_eq_capacity {v : StableVector α chunkSize} (h : v.IsPacked)
    (hfull : v.size = v.capacity) : ∀ c ∈ v.chunks.map Chunk.data, c.length = chunkSize := by
  rcases v.chunks_cases with hnil | ⟨front, back, hchunks⟩
  · rw [hnil]
    intro c hc
    cases hc
  · have hback : back.size = chunkSize := by
      rw [size_of_chunks hchunks, capacity, hchunks, List.length_append, List.length_singleton,
        Nat.add_mul, Nat.one_mul] at hfull
      omega
    rw [IsPacked, hchunks, List.map_append] at h
    have hfront := packed_append_singleton.mp h
    rw [hchunks, List.map_append]
    intro c hc
    rcases List.mem_append.mp hc with hc | hc
    · exact hfront c hc
    · rw [List.mem_singleton.mp hc]
      exact hback

/-! ## Adding elements -/

theorem isPacked_empty : (empty : StableVector α chunkSize).IsPacked := by
  intro c hc
  cases hc

theorem emplaceBack_of_room {v : StableVector α chunkSize} {front : List (Chunk α chunkSize)}
    {back : Chunk α chunkSize} (hlast : v.lastChunk = (front, back))
    (hroom : back.data.length < chunkSize) (a : α) :
    v.emplaceBack a = .ok ⟨front ++ [⟨back.data ++ [a], Chunk.length_append_le hroom a⟩]⟩ := by
  rw [emplaceBack, hlast, Chunk.emplaceBack_of_lt hroom]
  rfl

theorem emplaceBack_spec (hpos : 0 < chunkSize) {v : StableVector α chunkSize} (h : v.IsPacked)
    (a : α) : ∃ v', v.emplaceBack a = .ok v' ∧ v'.IsPacked ∧ v'.toList = v.toList ++ [a] := by
  rcases v.chunks_cases with hnil | ⟨front, back, hchunks⟩
  · have hlast : v.lastChunk = ([], Chunk.empty) := by
      unfold lastChunk
      rw [hnil]
      rfl
    refine ⟨_, emplaceBack_of_room hlast hpos a, ?_, ?_⟩
    · intro c hc
      cases hc
    · rw [toList, toList, hnil]
      rfl
  · by_cases hfull : back.size = chunkSize
    · have hlast : v.lastChunk = (v.chunks, Chunk.empty) := by
        unfold lastChunk
        rw [getLast?_of_chunks hchunks]
        exact if_pos hfull
      have hcapacity : v.size = v.capacity := by
        rw [size_of_chunks hchunks, capacity, hchunks, List.length_append, List.length_singleton,
          Nat.add_mul, Nat.one_mul, hfull]
      refine ⟨_, emplaceBack_of_room hlast hpos a, ?_, ?_⟩
      · rw [IsPacked, List.map_append]
        exact packed_append_singleton.mpr (full_of_size_eq_capacity h hcapacity)
      · rw [toList, List.map_append, List.flatten_append]
        rfl
    · have hlast : v.lastChunk = (front, back) := by
        unfold lastChunk
        rw [getLast?_of_chunks hchunks]
        show (if back.size = chunkSize then _ else _) = _
        rw [if_neg hfull, hchunks, List.dropLast_concat]
      have hroom : back.data.length < chunkSize := Nat.lt_of_le_of_ne back.fits hfull
      refine ⟨_, emplaceBack_of_room hlast hroom a, ?_, ?_⟩
      · rw [IsPacked, hchunks, List.map_append] at h
        rw [IsPacked, List.map_append]
        exact packed_append_singleton.mpr (packed_append_singleton.mp h)
      · rw [toList, toList, hchunks, List.map_append, List.map_append, List.flatten_append,
          List.flatten_append, List.append_assoc]
        show _ ++ (back.data ++ [a] ++ []) = _ ++ (back.data ++ [] ++ [a])
        rw [List.append_nil, List.append_nil]

/-- A new chunk behind full ones changes neither the elements nor the size. -/
theorem addChunk_spec {v : StableVector α chunkSize} (h : v.IsPacked)
    (hfull : v.size = v.capacity) : v.addChunk.IsPacked ∧ v.addChunk.toList = v.toList := by
  constructor
  · rw [IsPacked, addChunk, List.map_append]
    exact packed_append_singleton.mpr (full_of_size_eq_capacity h hfull)
  · rw [toList, addChunk, List.map_append, List.flatten_append]
    exact List.append_nil _

theorem fill_spec (hpos : 0 < chunkSize) {v : StableVector α chunkSize} (h : v.IsPacked) (a : α)
    {n fuel : Nat} (hfuel : n ≤ v.size + fuel) :
    ∃ v', fill a n fuel v = .ok v' ∧ v'.IsPacked ∧
      v'.toList = v.toList ++ List.replicate (n - v.size) a := by
  induction fuel generalizing v with
  | zero =>
    refine ⟨v, rfl, h, ?_⟩
    have hnone : n - v.size = 0 := Nat.sub_eq_zero_of_le hfuel
    rw [hnone]
    exact (List.append_nil _).symm
  | succ fuel ih =>
    rw [fill]
    by_cases hlt : v.size < n
    · obtain ⟨v', hemplace, hpacked, hlist⟩ := emplaceBack_spec hpos h a
      have hsize : v'.size = v.size + 1 := by
        rw [size_eq_length hpacked, hlist, List.length_append, ← size_eq_length h]
        rfl
      obtain ⟨v'', hfill, hpacked', hlist'⟩ := ih hpacked (by omega)
      refine ⟨v'', ?_, hpacked', ?_⟩
      · rw [if_pos hlt, hemplace]
        exact hfill
      · have hcount : n - v.size = (n - v'.size) + 1 := by omega
        rw [hlist', hlist, hcount, List.replicate_succ, List.append_assoc]
        rfl
    · refine ⟨v, if_neg hlt, h, ?_⟩
      rw [Nat.sub_eq_zero_of_le (Nat.le_of_not_lt hlt)]
      exact (List.append_nil _).symm

/-! ## Capacity -/

theorem capacity_of_chunks {v : StableVector α chunkSize} {front : List (Chunk α chunkSize)}
    {back : Chunk α chunkSize} (h : v.chunks = front ++ [back]) :
    v.capacity = front.length * chunkSize + chunkSize := by
  rw [capacity, h, List.length_append, List.length_singleton, Nat.add_mul, Nat.one_mul]

theorem capacity_addChunk (v : StableVector α chunkSize) :
    v.addChunk.capacity = v.capacity + chunkSize := capacity_of_chunks rfl

theorem size_addChunk (v : StableVector α chunkSize) : v.addChunk.size = v.capacity := by
  have hsize : v.addChunk.size = v.chunks.length * chunkSize + 0 := size_of_chunks rfl
  exact hsize

/-- Within the capacity the last chunk has room. -/
theorem capacity_emplaceBack {v v' : StableVector α chunkSize} {a : α}
    (hroom : v.size < v.capacity) (h : v.emplaceBack a = .ok v') : v'.capacity = v.capacity := by
  rcases v.chunks_cases with hnil | ⟨front, back, hchunks⟩
  · rw [capacity, hnil, List.length_nil, Nat.zero_mul] at hroom
    exact absurd hroom (Nat.not_lt_zero _)
  · rw [size_of_chunks hchunks, capacity_of_chunks hchunks] at hroom
    have hback : back.data.length < chunkSize := Nat.lt_of_add_lt_add_left hroom
    have hlast : v.lastChunk = (front, back) := by
      unfold lastChunk
      rw [getLast?_of_chunks hchunks]
      show (if back.size = chunkSize then _ else _) = _
      rw [if_neg (show back.size ≠ chunkSize from hback.ne), hchunks, List.dropLast_concat]
    rw [emplaceBack_of_room hlast hback] at h
    cases h
    rw [capacity_of_chunks rfl, capacity_of_chunks hchunks]

theorem capacity_fill {a : α} {n fuel : Nat} {v v' : StableVector α chunkSize}
    (hn : n ≤ v.capacity) (h : fill a n fuel v = .ok v') : v'.capacity = v.capacity := by
  induction fuel generalizing v with
  | zero =>
    cases h
    rfl
  | succ fuel ih =>
    rw [fill] at h
    by_cases hlt : v.size < n
    · rw [if_pos hlt] at h
      cases hemplace : v.emplaceBack a with
      | error e =>
        rw [hemplace] at h
        cases h
      | ok v'' =>
        rw [hemplace] at h
        have hcapacity := capacity_emplaceBack (Nat.lt_of_lt_of_le hlt hn) hemplace
        rw [← hcapacity]
        exact ih (hcapacity.symm ▸ hn) h
    · rw [if_neg hlt] at h
      cases h
      rfl

/-! ## Writing -/

theorem map_data_modify (chunks : List (Chunk α chunkSize)) (i j : Nat) (a : α) :
    (chunks.modify i fun c => c.set j a).map Chunk.data =
      (chunks.map Chunk.data).modify i fun c => c.set j a := by
  induction chunks generalizing i with
  | nil => rw [List.modify_nil, List.map_nil, List.modify_nil]
  | cons c chunks ih =>
    cases i with
    | zero => rfl
    | succ i =>
      rw [List.modify_succ_cons, List.map_cons, List.map_cons, List.modify_succ_cons, ih]

/-! ## Reserving -/

section Reserve

variable [NeZero chunkSize]

theorem addChunks_zero (v : StableVector α chunkSize) : v.addChunks 0 = v := by
  rw [addChunks, dif_pos rfl]

theorem addChunks_pos (v : StableVector α chunkSize) {missing : Nat} (h : 0 < missing) :
    v.addChunks missing = v.addChunk.addChunks (missing - chunkSize) := by
  rw [addChunks, dif_neg h.ne']

theorem reserve_spec {v : StableVector α chunkSize} (h : v.IsPacked) {n : UInt64}
    (hreserves : v.Reserves n) : (v.reserve n).IsPacked ∧ (v.reserve n).toList = v.toList := by
  rw [reserve]
  by_cases hnone : v.missing n ≤ 0
  · rw [Int.toNat_eq_zero.mpr hnone, addChunks_zero]
    exact ⟨h, rfl⟩
  · obtain ⟨hfull, hone⟩ := hreserves.resolve_left hnone
    have hless : (v.missing n).toNat - chunkSize = 0 := by omega
    rw [addChunks_pos v (by omega), hless, addChunks_zero]
    exact addChunk_spec h hfull

theorem size_le_size_addChunks (v : StableVector α chunkSize) (missing : Nat) :
    v.size ≤ (v.addChunks missing).size := by
  induction missing using Nat.strongRecOn generalizing v with
  | ind missing ih =>
    rcases Nat.eq_zero_or_pos missing with rfl | hpos
    · rw [addChunks_zero]
    · rw [addChunks_pos v hpos]
      have hrest := ih (missing - chunkSize) (Nat.sub_lt hpos (NeZero.pos chunkSize)) v.addChunk
      rw [size_addChunk] at hrest
      exact Nat.le_trans v.size_le_capacity hrest

/-- A reservation keeps the size in no other case. -/
theorem size_reserve_eq_iff (v : StableVector α chunkSize) (n : UInt64) :
    (v.reserve n).size = v.size ↔ v.Reserves n := by
  have hpos := NeZero.pos chunkSize
  rw [reserve, Reserves]
  by_cases hnone : v.missing n ≤ 0
  · rw [Int.toNat_eq_zero.mpr hnone, addChunks_zero]
    exact ⟨fun _ => Or.inl hnone, fun _ => rfl⟩
  · have hcapacity := v.size_le_capacity
    rw [addChunks_pos v (by omega)]
    by_cases hone : v.missing n ≤ chunkSize
    · have hless : (v.missing n).toNat - chunkSize = 0 := by omega
      rw [hless, addChunks_zero, size_addChunk]
      exact ⟨fun h => Or.inr ⟨h.symm, hone⟩, fun h => (h.resolve_left hnone).1.symm⟩
    · -- a second chunk puts the size past the old capacity
      have hmore := size_le_size_addChunks v.addChunk.addChunk
        ((v.missing n).toNat - chunkSize - chunkSize)
      rw [size_addChunk, capacity_addChunk, ← addChunks_pos v.addChunk (by omega)] at hmore
      constructor
      · intro h
        omega
      · intro h
        exact absurd (h.resolve_left hnone).2 hone

theorem resize_spec {v : StableVector α chunkSize} (h : v.IsPacked) {n : UInt64} {a : α}
    (hallows : v.Allows (.resize n a)) : ∃ v', v.resize n a = .ok v' ∧ v'.IsPacked ∧
      v'.toList = v.toList ++ List.replicate (n.toNat - v.toList.length) a := by
  rw [resize]
  by_cases hlarge : v.capacity < n.toNat
  · obtain ⟨hpacked, hlist⟩ := reserve_spec h (hallows hlarge)
    have hfill := fill_spec (NeZero.pos chunkSize) hpacked a (Nat.le_add_left n.toNat _)
    rw [size_eq_length hpacked, hlist] at hfill
    rwa [if_pos hlarge]
  · have hfill := fill_spec (NeZero.pos chunkSize) h a (Nat.le_add_left n.toNat _)
    rw [size_eq_length h] at hfill
    rwa [if_neg hlarge]

/-! ## Access -/

theorem get_eq [Inhabited α] {v : StableVector α chunkSize} (h : v.IsPacked) {i : Nat}
    (hi : i < v.toList.length) : v.get i = v.toList[i]? := by
  have hpos := NeZero.pos chunkSize
  have hread := Packed.getElem?_flatten hpos h (fun c hc => length_le_of_mem_map hc) i
  rw [toList] at hi ⊢
  rw [← hread, List.getElem?_map, get]
  rw [List.getElem?_eq_getElem hi, List.getElem?_map] at hread
  cases hchunk : v.chunks[i / chunkSize]? with
  | none =>
    rw [hchunk] at hread
    cases hread
  | some c =>
    rw [hchunk] at hread
    have hsome : c.data[i % chunkSize]? = some (v.chunks.map Chunk.data).flatten[i] := hread
    show c.get (i % chunkSize) = c.data[i % chunkSize]?
    rw [Chunk.get, if_pos (Nat.mod_lt i hpos), List.getD_eq_getElem?_getD, hsome]
    rfl

theorem assign_spec {v v' : StableVector α chunkSize} (h : v.IsPacked) {i : Nat} {a : α}
    (hassign : v.assign i a = .ok v') : v'.IsPacked ∧ v'.toList = v.toList.set i a := by
  rw [assign] at hassign
  split at hassign
  · cases hassign
  · cases hassign
    constructor
    · rw [IsPacked, map_data_modify]
      exact h.modify _ fun c => List.length_set
    · rw [toList, map_data_modify]
      exact Packed.flatten_set (NeZero.pos chunkSize) h (fun c hc => length_le_of_mem_map hc) i a

/-! ## Runs -/

theorem step_spec {v : StableVector α chunkSize} (h : v.IsPacked) {op : Operation α}
    (hallows : v.Allows op) : (v.step op).IsPacked ∧ (v.step op).toList = applyList v.toList op := by
  have hpos := NeZero.pos chunkSize
  cases op with
  | emplaceBack a =>
    obtain ⟨v', hemplace, hspec⟩ := emplaceBack_spec hpos h a
    rw [step, apply, hemplace]
    exact hspec
  | pushBack a =>
    obtain ⟨v', hpush, hspec⟩ := emplaceBack_spec hpos h a
    have hstep : v.apply (.pushBack a) = .ok v' := hpush
    rw [step, hstep]
    exact hspec
  | reserve n => exact reserve_spec h hallows
  | resize n a =>
    obtain ⟨v', hresize, hspec⟩ := resize_spec h hallows
    rw [step, apply, hresize]
    exact hspec
  | assign i a =>
    cases hassign : v.assign i a with
    | ok v' =>
      rw [step, apply, hassign]
      exact assign_spec h hassign
    | error e =>
      have hlarge : v.toList.length ≤ i := by
        rw [← size_eq_length h]
        by_contra hlt
        rw [assign, if_neg hlt] at hassign
        cases hassign
      rw [step, apply, hassign]
      exact ⟨h, (List.set_eq_of_length_le hlarge).symm⟩

theorem run_spec {v : StableVector α chunkSize} (h : v.IsPacked) {ops : List (Operation α)}
    (hallows : v.AllowsAll ops) :
    (v.run ops).IsPacked ∧ (v.run ops).toList = runList v.toList ops := by
  induction ops generalizing v with
  | nil => exact ⟨h, rfl⟩
  | cons op ops ih =>
    obtain ⟨hpacked, hlist⟩ := step_spec h hallows.1
    have hrun := ih hpacked hallows.2
    rw [hlist] at hrun
    exact hrun

end Reserve

/-- One chunk filled, written to, and a second reserved behind it. -/
def filledChunk : List (Operation Nat) :=
  [.pushBack 7, .resize 2 5, .assign 0 9, .reserve 4]

end StableVector
end Container
end Rocprofsys
