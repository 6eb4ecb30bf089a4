import Rocprofsys.TraceCache.BufferStorage
import Rocprofsys.TraceCache.StorageParser

namespace Rocprofsys
namespace TraceCache

open Base

/-! ## One record

Whether a record's fields stay inside its payload is settled by the layout of
its type, before any field is read. -/

/-- The layout of a registered type. -/
def layoutOf (typeIdentifier : Nat) : Option (List Field) :=
  match TypeIdentifier.ofValue typeIdentifier with
  | none => none
  | some .fragmentedSpace => none
  | some t => some (layout t)

/-- The reader of a type moves as the type's layout says. -/
theorem getType_follows {n : Nat} {ks : List Field} (h : layoutOf n = some ks) :
    n ≠ TypeIdentifier.fragmentedSpace.value ∧ ∃ p, getType n = some p ∧ p.Follows ks := by
  unfold layoutOf at h
  unfold getType
  refine ⟨?_, ?_⟩
  · intro heq
    subst heq
    rw [TypeIdentifier.ofValue_value] at h
    cases h
  · cases ht : TypeIdentifier.ofValue n with
    | none =>
      rw [ht] at h
      cases h
    | some t =>
      rw [ht] at h
      rw [Option.bind_some]
      obtain ⟨p, hp⟩ : ∃ p, deserialize t = some p := by
        cases t with
        | fragmentedSpace => cases h
        | _ => exact ⟨_, rfl⟩
      refine ⟨p, hp, ?_⟩
      have hks : layout t = ks := by
        cases t with
        | fragmentedSpace => cases h
        | _ => exact Option.some.inj h
      rw [← hks]
      exact deserialize_follows hp

theorem handle_unregistered {n : Nat} (h : layoutOf n = none) (env : Environment)
    (payload : Bytes) (left : Nat) : handle env n payload left = .skipped := by
  unfold handle getType
  unfold layoutOf at h
  split
  · rfl
  · cases ht : TypeIdentifier.ofValue n with
    | none => rfl
    | some t =>
      rw [ht] at h
      cases t with
      | fragmentedSpace => rfl
      | _ => cases h

/-- The cursor is within the record exactly when it stays in front of what is
behind the payload. -/
theorem consumed_within_iff (n size beyond : Nat) (result : Except Stop (Sample × Bytes)) :
    Parsed.Within ⟨n, size, consumedBytes (size + beyond) result⟩ ↔
      StaysBefore beyond (result.map Prod.snd) := by
  unfold Parsed.Within
  match result with
  | .ok (v, rest) =>
    simp only [consumedBytes, Option.some.injEq, exists_eq_left', Except.map, StaysBefore]
    omega
  | .error (.refused m left) =>
    simp only [consumedBytes, Option.some.injEq, exists_eq_left', Except.map, StaysBefore]
    omega
  | .error .exhausted => simp [consumedBytes, Except.map, StaysBefore]

/-- What becomes of a complete record, by the fit of its layout. -/
theorem handle_registered {n : Nat} {ks : List Field} (h : layoutOf n = some ks)
    (env : Environment) (payload : Bytes) (left : Nat) :
    match skipFields env.limit ks payload with
    | .ok _ => ∃ parsed v, handle env n payload left = .delivered parsed v ∧ parsed.Within
    | .error (.refused size _) => ∃ parsed,
      handle env n payload left = .stopped parsed (.threw (Environment.refusal size)) ∧
        parsed.Within
    | .error .exhausted => ∃ parsed,
      handle env n payload left = .stopped parsed .overrun ∧ ¬ parsed.Within := by
  obtain ⟨hne, p, hp, hfollows⟩ := getType_follows h
  have hextends := extends_skipFields env.limit ks payload (env.beyond left)
  rw [← hfollows env.limit (payload ++ env.beyond left)] at hextends
  have hwithin := consumed_within_iff n payload.length (env.beyond left).length
    (p.run env.limit (payload ++ env.beyond left))
  rw [hextends.staysBefore_iff] at hwithin
  unfold handle
  simp only [if_neg hne, hp, List.length_append]
  cases hskip : skipFields env.limit ks payload with
  | ok rest =>
    rw [hskip] at hextends hwithin
    rw [if_pos (hwithin.mpr (by simp))]
    cases hrun : p.run env.limit (payload ++ env.beyond left) with
    | error stop =>
      rw [hrun] at hextends
      cases hextends
    | ok x => exact ⟨_, x.1, rfl, hrun ▸ hwithin.mpr (by simp)⟩
  | error stop =>
    cases stop with
    | refused size m =>
      rw [hskip] at hextends hwithin
      rw [if_pos (hwithin.mpr (by simp))]
      cases hrun : p.run env.limit (payload ++ env.beyond left) with
      | ok x =>
        rw [hrun] at hextends
        cases hextends
      | error stop =>
        rw [hrun] at hextends
        obtain rfl := Except.error.inj hextends
        exact ⟨_, rfl, hrun ▸ hwithin.mpr (by simp)⟩
    | exhausted =>
      rw [hskip] at hwithin
      have hover := mt hwithin.mp (by simp)
      rw [if_neg hover]
      exact ⟨_, rfl, hover⟩

/-! ## Frames of written bytes -/

theorem frames_short {file : Bytes} (h : file.length < headerSize) : frames file = [] := by
  rw [frames, if_pos h]

/-- A header that is in the file splits off a frame. -/
theorem frames_header {t n : Nat} (ht : t < 256 ^ typeSize) (hn : n < 256 ^ 8) (rest : Bytes) :
    frames (headerBytes t n ++ rest) =
      ⟨t, n, rest.take n, (rest.drop n).length⟩ :: frames (rest.drop n) := by
  have hlong : ¬ (headerBytes t n ++ rest).length < headerSize := by
    rw [List.length_append, length_headerBytes]
    omega
  have htype : (headerBytes t n ++ rest).take typeSize = leBytes typeSize t := by
    rw [headerBytes, List.append_assoc, List.take_left' (length_leBytes _ _)]
  have hsize : ((headerBytes t n ++ rest).drop typeSize).take 8 = leBytes 8 n := by
    rw [headerBytes, List.append_assoc, List.drop_left' (length_leBytes _ _),
      List.take_left' (length_leBytes _ _)]
  have hrest : (headerBytes t n ++ rest).drop headerSize = rest :=
    List.drop_left' (length_headerBytes _ _)
  rw [frames, if_neg hlong, htype, hsize, hrest, leNat_leBytes ht, leNat_leBytes hn]

/-! ## Frame by frame -/

namespace Frame

/-- The frame's payload is read into the sample vector. -/
structure Read (env : Environment) (f : Frame) : Prop where
  nonzero : f.sampleSize ≠ 0
  granted : f.sampleSize ≤ env.limit
  complete : f.sampleSize ≤ f.payload.length

/-- Stepping over the fields that the frame's type asks for. -/
def fields (env : Environment) (f : Frame) : Except Stop Bytes :=
  match layoutOf f.typeIdentifier with
  | none => .ok []
  | some ks => skipFields env.limit ks f.payload

/-- `load` goes on behind the frame. -/
def Passed (env : Environment) (f : Frame) : Prop :=
  f.sampleSize = 0 ∨ f.Read env ∧ ∃ rest, f.fields env = .ok rest

end Frame

variable {env : Environment} {filename : String} {f : Frame} {fs : List Frame}

theorem loadFrames_zero (h : f.sampleSize = 0) :
    loadFrames env filename (f :: fs) = loadFrames env filename fs := by
  rw [loadFrames, if_pos h]

theorem loadFrames_refused (h : env.limit < f.sampleSize) :
    loadFrames env filename (f :: fs) =
      .finish (.threw (Environment.refusal f.sampleSize)) := by
  rw [loadFrames, if_neg (by omega), if_pos h]

theorem loadFrames_short (hgranted : f.sampleSize ≤ env.limit)
    (h : f.payload.length < f.sampleSize) :
    loadFrames env filename (f :: fs) =
      .finish (.threw (.runtimeError (badRead filename))) := by
  rw [loadFrames, if_neg (by omega), if_neg (by omega), if_pos h]

theorem loadFrames_handle (h : f.Read env) :
    loadFrames env filename (f :: fs) =
      (handle env f.typeIdentifier f.payload f.left).resume (loadFrames env filename fs) := by
  have hgranted := h.granted
  have hcomplete := h.complete
  rw [loadFrames, if_neg h.nonzero, if_neg (by omega), if_neg (by omega)]

/-- A frame that is read ends the loop unless its fields fit the payload. -/
theorem loadFrames_read (h : f.Read env) (filename : String) (fs : List Frame) :
    match f.fields env with
    | .ok _ => ∃ parsed delivered, (∀ p ∈ parsed, Parsed.Within p) ∧
      loadFrames env filename (f :: fs) =
        ⟨parsed ++ (loadFrames env filename fs).parsed,
          delivered ++ (loadFrames env filename fs).delivered,
          (loadFrames env filename fs).outcome⟩
    | .error (.refused size _) => ∃ parsed, Parsed.Within parsed ∧
      loadFrames env filename (f :: fs) = ⟨[parsed], [], .threw (Environment.refusal size)⟩
    | .error .exhausted => ∃ parsed, ¬ Parsed.Within parsed ∧
      loadFrames env filename (f :: fs) = ⟨[parsed], [], .overrun⟩ := by
  rw [loadFrames_handle h]
  unfold Frame.fields
  cases hlayout : layoutOf f.typeIdentifier with
  | none =>
    rw [handle_unregistered hlayout]
    exact ⟨[], [], by simp, rfl⟩
  | some ks =>
    have hhandle := handle_registered hlayout env f.payload f.left
    simp only
    cases hskip : skipFields env.limit ks f.payload with
    | ok rest =>
      rw [hskip] at hhandle
      obtain ⟨parsed, v, heq, hwithin⟩ := hhandle
      rw [heq]
      exact ⟨[parsed], [v], by simpa using hwithin, rfl⟩
    | error stop =>
      rw [hskip] at hhandle
      cases stop with
      | refused size m =>
        obtain ⟨parsed, heq, hwithin⟩ := hhandle
        rw [heq]
        exact ⟨parsed, hwithin, rfl⟩
      | exhausted =>
        obtain ⟨parsed, heq, hover⟩ := hhandle
        rw [heq]
        exact ⟨parsed, hover, rfl⟩

/-- The four ways a frame is dealt with. -/
theorem Frame.cases (env : Environment) (f : Frame) :
    f.sampleSize = 0 ∨ env.limit < f.sampleSize ∨
      (f.sampleSize ≠ 0 ∧ f.sampleSize ≤ env.limit ∧ f.payload.length < f.sampleSize) ∨
      f.Read env := by
  by_cases hzero : f.sampleSize = 0
  · exact Or.inl hzero
  · by_cases hlimit : env.limit < f.sampleSize
    · exact Or.inr (Or.inl hlimit)
    · by_cases hshort : f.payload.length < f.sampleSize
      · exact Or.inr (Or.inr (Or.inl ⟨hzero, by omega, hshort⟩))
      · exact Or.inr (Or.inr (Or.inr ⟨hzero, by omega, by omega⟩))

/-- Every record that `load` gets to has its fields inside its payload. -/
def FieldsWithin (env : Environment) : List Frame → Prop
  | [] => True
  | f :: fs =>
    (f.Read env → f.fields env ≠ .error .exhausted) ∧ (f.Passed env → FieldsWithin env fs)

theorem parsed_within_iff (env : Environment) (filename : String) (fs : List Frame) :
    (∀ parsed ∈ (loadFrames env filename fs).parsed, parsed.Within) ↔ FieldsWithin env fs := by
  induction fs with
  | nil => simp [loadFrames, Loaded.finish, FieldsWithin]
  | cons f fs ih =>
    rw [FieldsWithin]
    rcases f.cases env with hzero | hlimit | ⟨hzero, hgranted, hshort⟩ | hread
    · rw [loadFrames_zero hzero, ih]
      exact ⟨fun h => ⟨fun hread => absurd hzero hread.nonzero, fun _ => h⟩,
        fun h => h.2 (Or.inl hzero)⟩
    · rw [loadFrames_refused hlimit]
      refine ⟨fun _ => ⟨fun hread => ?_, fun hpassed => ?_⟩, fun _ => by simp [Loaded.finish]⟩
      · exact absurd hread.granted (by omega)
      · rcases hpassed with hzero | ⟨hread, -⟩
        · omega
        · exact absurd hread.granted (by omega)
    · rw [loadFrames_short hgranted hshort]
      refine ⟨fun _ => ⟨fun hread => ?_, fun hpassed => ?_⟩, fun _ => by simp [Loaded.finish]⟩
      · exact absurd hread.complete (by omega)
      · rcases hpassed with hzero' | ⟨hread, -⟩
        · exact absurd hzero' hzero
        · exact absurd hread.complete (by omega)
    · have hcase := loadFrames_read hread filename fs
      cases hfields : f.fields env with
      | ok rest =>
        rw [hfields] at hcase
        obtain ⟨parsed, delivered, hwithin, heq⟩ := hcase
        rw [heq, List.forall_mem_append, ih]
        exact ⟨fun h => ⟨fun _ => by simp, fun _ => h.2⟩,
          fun h => ⟨hwithin, h.2 (Or.inr ⟨hread, rest, hfields⟩)⟩⟩
      | error stop =>
        rw [hfields] at hcase
        have hstuck : ¬ f.Passed env := by
          intro h
          rcases h with hzero | ⟨-, rest, hrest⟩
          · exact hread.nonzero hzero
          · rw [hfields] at hrest
            cases hrest
        cases stop with
        | refused size m =>
          obtain ⟨parsed, hwithin, heq⟩ := hcase
          rw [heq]
          exact ⟨fun _ => ⟨fun _ => by simp, fun hpassed => absurd hpassed hstuck⟩,
            fun _ => by simpa using hwithin⟩
        | exhausted =>
          obtain ⟨parsed, hover, heq⟩ := hcase
          rw [heq]
          exact ⟨fun h => absurd (h parsed (by simp)) hover, fun h => absurd rfl (h.1 hread)⟩

/-- A process with little memory and some of it mapped behind the sample. -/
def smallEnvironment : Environment where
  limit := initialCapacity
  beyond := fun _ => List.replicate 200 0
  initialCapacity_le := Nat.le_refl _
  limit_le := by decide

/-- A kernel dispatch of a single byte. -/
def shortDispatchFile : Bytes := headerBytes TypeIdentifier.kernelDispatch.value 1 ++ [0]

end TraceCache
end Rocprofsys
