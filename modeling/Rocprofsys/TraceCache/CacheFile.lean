import Rocprofsys.TraceCache.ParserSafety

namespace Rocprofsys
namespace TraceCache

open Base

/-! ## Written files -/

/-- A sample with lengths that its process can hold. -/
structure StoredSample where
  value : Sample
  bounded : value.Bounded
  length_lt : value.serialize.length < sizeLimit

/-- One piece of a well-formed file. -/
inductive Piece where
  | sample (v : StoredSample)
  | filler (remaining : Nat) (h : remaining < sizeLimit)

theorem Sample.typeIdentifier_ne (v : Sample) : v.typeIdentifier ≠ .fragmentedSpace := by
  intro h
  cases v <;> cases h

/-- The record that `store` makes of a sample. -/
def Sample.record (v : Sample) : Record where
  typeIdentifier := v.typeIdentifier.value
  payload := v.serialize
  typeIdentifier_lt := v.typeIdentifier.value_lt
  ne_fragmented h := v.typeIdentifier_ne (TypeIdentifier.value_injective h)

namespace Piece

def chunk : Piece → Chunk
  | sample v => .record v.value.record
  | filler remaining _ => .filler remaining

def sample? : Piece → Option Sample
  | sample v => some v.value
  | filler _ _ => none

def bytes (piece : Piece) : Bytes := piece.chunk.bytes

theorem typeIdentifier_lt (piece : Piece) : piece.chunk.typeIdentifier < 256 ^ typeSize := by
  cases piece with
  | sample v => exact v.value.record.typeIdentifier_lt
  | filler remaining h =>
    show TypeIdentifier.fragmentedSpace.value < 256 ^ typeSize
    decide

theorem length_lt (piece : Piece) : piece.chunk.payload.length < 256 ^ 8 := by
  cases piece with
  | sample v => exact v.length_lt
  | filler remaining h =>
    rw [chunk, Chunk.payload, List.length_replicate]
    exact h

/-- The frame of a piece whose payload is cut to `n` bytes. -/
def frame (piece : Piece) (n left : Nat) : Frame :=
  ⟨piece.chunk.typeIdentifier, piece.chunk.payload.length, piece.chunk.payload.take n, left⟩

/-- A whole piece in front of more bytes. -/
theorem frames_bytes_append (piece : Piece) (rest : Bytes) :
    frames (piece.bytes ++ rest) =
      piece.frame piece.chunk.payload.length rest.length :: frames rest := by
  rw [bytes, Chunk.bytes, List.append_assoc, frames_header piece.typeIdentifier_lt piece.length_lt,
    List.take_left, List.drop_left, frame, List.take_length]

/-- A piece that ends early leaves at most an incomplete frame. -/
theorem frames_take_bytes (piece : Piece) {k : Nat} (h : k < piece.bytes.length) :
    frames (piece.bytes.take k) = [] ∨ ∃ n, n < piece.chunk.payload.length ∧
      frames (piece.bytes.take k) = [piece.frame n 0] := by
  rw [bytes, Chunk.length_bytes] at h
  rw [bytes, Chunk.bytes]
  rcases Nat.lt_or_ge k headerSize with hk | hk
  · refine Or.inl (frames_short ?_)
    rw [List.length_take]
    omega
  · refine Or.inr ⟨k - headerSize, by omega, ?_⟩
    have hsplit : (headerBytes piece.chunk.typeIdentifier piece.chunk.payload.length ++
        piece.chunk.payload).take k =
        headerBytes piece.chunk.typeIdentifier piece.chunk.payload.length ++
          piece.chunk.payload.take (k - headerSize) := by
      rw [List.take_append, length_headerBytes, List.take_of_length_le (by simpa using hk)]
    have hdone : (piece.chunk.payload.take (k - headerSize)).drop piece.chunk.payload.length
        = [] := by
      rw [List.drop_eq_nil_of_le]
      rw [List.length_take]
      omega
    rw [hsplit, frames_header piece.typeIdentifier_lt piece.length_lt, hdone,
      frames_short (by simp only [List.length_nil]; decide), frame, List.take_take]
    rw [Nat.min_eq_right (by omega)]
    rfl

end Piece

/-! ## Loading what was written -/

theorem skipFields_layout_nil (limit : Nat) {t : TypeIdentifier} (h : t ≠ .fragmentedSpace) :
    skipFields limit (layout t) [] = .error .exhausted := by
  cases t with
  | fragmentedSpace => exact absurd rfl h
  | _ => rfl

theorem length_le_storeVector {value : ByteVector} (h : value.elements.length < sizeLimit) :
    value.elements.length ≤ (storeValue value).length := by
  show _ ≤ (storeContainer value.elements).length
  rw [storeContainer_eq h, List.length_append]
  omega

/-- Memory for the payload is memory for the vector inside it. -/
theorem Sample.Granted.of_length {v : Sample} (hbounded : v.Bounded) {limit : Nat}
    (h : v.serialize.length ≤ limit) : v.Granted limit := by
  cases v with
  | amdSmi item =>
    have hvector := length_le_storeVector (hbounded _ (List.mem_singleton.mpr rfl))
    simp only [Sample.serialize, AmdSmiSample.serialize, storeValues_cons, storeValues_nil,
      List.length_append] at h
    exact (by omega : item.gpuActivity.elements.length ≤ limit)
  | cpuFreq item =>
    have hvector := length_le_storeVector (hbounded _ (List.mem_singleton.mpr rfl))
    simp only [Sample.serialize, CpuFreqSample.serialize, storeValues_cons, storeValues_nil,
      List.length_append] at h
    exact (by omega : item.freqs.elements.length ≤ limit)
  | _ => trivial

namespace StoredSample

variable (v : StoredSample)

/-- The fields of a stored sample fill its payload. -/
theorem fields_eq {limit : Nat} (h : v.value.serialize.length ≤ limit) :
    skipFields limit (layout v.value.typeIdentifier) v.value.serialize = .ok [] := by
  obtain ⟨p, hp, hrun⟩ := v.value.deserialize_serialize v.bounded
  have hparse := hrun limit (.of_length v.bounded h) []
  rw [List.append_nil] at hparse
  rw [← deserialize_follows hp limit, hparse]
  rfl

theorem serialize_ne_nil : v.value.serialize ≠ [] := by
  intro hnil
  have hfields := v.fields_eq (Nat.le_refl _)
  rw [hnil, skipFields_layout_nil _ v.value.typeIdentifier_ne] at hfields
  cases hfields

theorem layoutOf_eq :
    layoutOf v.value.typeIdentifier.value = some (layout v.value.typeIdentifier) := by
  have hne := v.value.typeIdentifier_ne
  rw [layoutOf, TypeIdentifier.ofValue_value]
  cases ht : v.value.typeIdentifier with
  | fragmentedSpace => exact absurd ht hne
  | _ => rfl

/-- A complete record of a stored sample is delivered. -/
theorem handle_eq {env : Environment} (h : v.value.serialize.length ≤ env.limit) (left : Nat) :
    ∃ parsed, handle env v.value.typeIdentifier.value v.value.serialize left
      = .delivered parsed v.value := by
  obtain ⟨p, hp, hrun⟩ := v.value.deserialize_serialize v.bounded
  have hparse := hrun env.limit (.of_length v.bounded h) (env.beyond left)
  have hne : v.value.typeIdentifier.value ≠ TypeIdentifier.fragmentedSpace.value :=
    v.value.record.ne_fragmented
  have hget : getType v.value.typeIdentifier.value = some p := by
    rw [getType, TypeIdentifier.ofValue_value, Option.bind_some, hp]
  have hwithin := consumed_within_iff v.value.typeIdentifier.value v.value.serialize.length
    (env.beyond left).length (.ok (v.value, env.beyond left))
  unfold handle
  simp only [if_neg hne, hget, hparse, List.length_append]
  rw [if_pos (hwithin.mpr (Nat.le_refl _))]
  exact ⟨_, rfl⟩

end StoredSample

namespace Piece

variable {env : Environment}

/-- A whole piece delivers its sample and lets the loop go on. -/
theorem loadFrames_frame (piece : Piece) (h : piece.chunk.payload.length ≤ env.limit)
    (filename : String) (left : Nat) (fs : List Frame) :
    (piece.frame piece.chunk.payload.length left).Passed env ∧
    (loadFrames env filename (piece.frame piece.chunk.payload.length left :: fs)).delivered =
      piece.sample?.toList ++ (loadFrames env filename fs).delivered ∧
    (loadFrames env filename (piece.frame piece.chunk.payload.length left :: fs)).outcome =
      (loadFrames env filename fs).outcome := by
  by_cases hzero : piece.chunk.payload.length = 0
  · refine ⟨Or.inl hzero, ?_⟩
    rw [loadFrames_zero (by exact hzero)]
    cases piece with
    | sample v => exact absurd (List.eq_nil_of_length_eq_zero hzero) v.serialize_ne_nil
    | filler remaining _ => exact ⟨rfl, rfl⟩
  · have hread : (piece.frame piece.chunk.payload.length left).Read env :=
      ⟨hzero, h, by simp [frame]⟩
    rw [loadFrames_handle hread]
    simp only [frame, List.take_length] at hread ⊢
    cases piece with
    | sample v =>
      obtain ⟨parsed, hhandle⟩ := v.handle_eq h left
      refine ⟨Or.inr ⟨hread, [], ?_⟩, ?_⟩
      · simp only [Frame.fields, chunk, Chunk.typeIdentifier, Chunk.payload, Sample.record,
          v.layoutOf_eq, v.fields_eq h]
      · simp only [chunk, Chunk.typeIdentifier, Chunk.payload, Sample.record, hhandle]
        exact ⟨rfl, rfl⟩
    | filler remaining _ =>
      have hlayout : layoutOf (Chunk.filler remaining).typeIdentifier = none := rfl
      refine ⟨Or.inr ⟨hread, [], ?_⟩, ?_⟩
      · simp only [Frame.fields, chunk, hlayout]
      · simp only [chunk, handle_unregistered hlayout, Handled.resume, sample?,
          Option.toList_none, List.nil_append, and_self]

end Piece

/-- A file of pieces. -/
def piecesBytes (pieces : List Piece) : Bytes := pieces.flatMap Piece.bytes

/-- The samples of the pieces that lie whole in the first `k` bytes. -/
def completeSamples : List Piece → Nat → List Sample
  | [], _ => []
  | piece :: pieces, k =>
    if piece.bytes.length ≤ k then
      piece.sample?.toList ++ completeSamples pieces (k - piece.bytes.length)
    else []

variable {env : Environment} {filename : String}

/-- A file of pieces that fit the parser's memory is delivered in full. -/
theorem loadFrames_pieces {pieces : List Piece}
    (h : ∀ piece ∈ pieces, piece.chunk.payload.length ≤ env.limit) (filename : String) :
    (loadFrames env filename (frames (piecesBytes pieces))).delivered
        = pieces.filterMap Piece.sample? ∧
      (loadFrames env filename (frames (piecesBytes pieces))).outcome = .returned := by
  induction pieces with
  | nil =>
    rw [piecesBytes, List.flatMap_nil, frames_short (by simp only [List.length_nil]; decide)]
    exact ⟨rfl, rfl⟩
  | cons piece pieces ih =>
    obtain ⟨hdelivered, houtcome⟩ := ih fun p hp => h p (List.mem_cons_of_mem _ hp)
    have hframes : frames (piecesBytes (piece :: pieces)) =
        piece.frame piece.chunk.payload.length (piecesBytes pieces).length ::
          frames (piecesBytes pieces) :=
      piece.frames_bytes_append (piecesBytes pieces)
    obtain ⟨-, hdelivered', houtcome'⟩ := piece.loadFrames_frame
      (h piece List.mem_cons_self) filename (piecesBytes pieces).length (frames (piecesBytes pieces))
    rw [hframes, hdelivered', houtcome', hdelivered, houtcome]
    refine ⟨?_, rfl⟩
    cases hsample : piece.sample? <;> simp [hsample]

/-! ## Files of any content -/

/-- Every record that `load` gets to is granted its memory and fits its
payload. -/
def Regular (env : Environment) : List Frame → Prop
  | [] => True
  | f :: fs =>
    f.sampleSize ≤ env.limit ∧ (f.Read env → ∃ rest, f.fields env = .ok rest) ∧
      (f.Passed env → Regular env fs)

/-- The ends that the caller of `load` deals with. -/
def Outcome.Handled (outcome : Outcome) : Prop :=
  outcome = .returned ∨ ∃ what, outcome = .threw (.runtimeError what)

theorem not_handled_refusal (n : Nat) : ¬ (Outcome.threw (Environment.refusal n)).Handled := by
  intro h
  rcases h with h | ⟨what, h⟩
  · cases h
  · unfold Environment.refusal at h
    split at h <;> cases h

theorem outcome_handled_iff (env : Environment) (filename : String) (fs : List Frame) :
    (loadFrames env filename fs).outcome.Handled ↔ Regular env fs := by
  induction fs with
  | nil => exact ⟨fun _ => trivial, fun _ => Or.inl rfl⟩
  | cons f fs ih =>
    rw [Regular]
    rcases f.cases env with hzero | hlimit | ⟨hzero, hgranted, hshort⟩ | hread
    · rw [loadFrames_zero hzero, ih]
      exact ⟨fun h => ⟨by omega, fun hread => absurd hzero hread.nonzero, fun _ => h⟩,
        fun h => h.2.2 (Or.inl hzero)⟩
    · rw [loadFrames_refused hlimit]
      exact ⟨fun h => absurd h (not_handled_refusal _), fun h => absurd h.1 (by omega)⟩
    · rw [loadFrames_short hgranted hshort]
      refine ⟨fun _ => ⟨hgranted, fun hread => ?_, fun hpassed => ?_⟩, fun _ => Or.inr ⟨_, rfl⟩⟩
      · exact absurd hread.complete (by omega)
      · rcases hpassed with hzero' | ⟨hread, -⟩
        · exact absurd hzero' hzero
        · exact absurd hread.complete (by omega)
    · have hcase := loadFrames_read hread filename fs
      cases hfields : f.fields env with
      | ok rest =>
        rw [hfields] at hcase
        obtain ⟨parsed, delivered, -, heq⟩ := hcase
        rw [heq, ih]
        exact ⟨fun h => ⟨hread.granted, fun _ => ⟨rest, rfl⟩, fun _ => h⟩,
          fun h => h.2.2 (Or.inr ⟨hread, rest, hfields⟩)⟩
      | error stop =>
        rw [hfields] at hcase
        have hirregular : ¬ ∃ rest, (Except.error stop : Except Stop Bytes) = .ok rest := by
          intro h
          obtain ⟨rest, hrest⟩ := h
          cases hrest
        cases stop with
        | refused size m =>
          obtain ⟨parsed, -, heq⟩ := hcase
          rw [heq]
          exact ⟨fun h => absurd h (not_handled_refusal _),
            fun h => absurd (h.2.1 hread) hirregular⟩
        | exhausted =>
          obtain ⟨parsed, -, heq⟩ := hcase
          rw [heq]
          refine ⟨fun h => ?_, fun h => absurd (h.2.1 hread) hirregular⟩
          rcases h with h | ⟨what, h⟩ <;> cases h

/-- A cut file delivers its whole pieces. -/
theorem delivered_take {pieces : List Piece} {k : Nat}
    (h : Regular env (frames ((piecesBytes pieces).take k))) :
    (loadFrames env filename (frames ((piecesBytes pieces).take k))).delivered
      = completeSamples pieces k := by
  induction pieces generalizing k with
  | nil =>
    rw [piecesBytes, List.flatMap_nil, List.take_nil,
      frames_short (by simp only [List.length_nil]; decide)]
    rfl
  | cons piece pieces ih =>
    have hbytes : piecesBytes (piece :: pieces) = piece.bytes ++ piecesBytes pieces := rfl
    rw [hbytes] at h ⊢
    rw [completeSamples]
    by_cases hk : piece.bytes.length ≤ k
    · rw [List.take_append, List.take_of_length_le hk, piece.frames_bytes_append] at h ⊢
      obtain ⟨hpassed, hdelivered, -⟩ := piece.loadFrames_frame h.1 filename
        ((piecesBytes pieces).take (k - piece.bytes.length)).length
        (frames ((piecesBytes pieces).take (k - piece.bytes.length)))
      rw [hdelivered, if_pos hk, ih (h.2.2 hpassed)]
    · rw [if_neg hk]
      rw [List.take_append_of_le_length (by omega)] at h ⊢
      rcases piece.frames_take_bytes (by omega : k < piece.bytes.length) with hnil | ⟨n, hn, hcut⟩
      · rw [hnil]
        rfl
      · rw [hcut] at h ⊢
        rw [loadFrames_short h.1]
        · rfl
        · simp only [Piece.frame, List.length_take]
          omega

/-- `load` ends in a way its caller handles, and of a cut file it delivers the
complete records only. -/
structure LoadsCleanly (env : Environment) (filename : String) (file : Bytes) : Prop where
  ends : (load env true filename (some file)).outcome.Handled
  delivers : ∀ pieces k, file = (piecesBytes pieces).take k →
    (load env true filename (some file)).delivered = completeSamples pieces k

/-- `load` is clean on exactly the files whose records are regular. -/
theorem loadsCleanly_iff (env : Environment) (filename : String) (file : Bytes) :
    LoadsCleanly env filename file ↔ Regular env (frames file) := by
  constructor
  · intro h
    have hends := h.ends
    rwa [load_eq, outcome_handled_iff] at hends
  · intro h
    refine ⟨?_, fun pieces k hfile => ?_⟩
    · rwa [load_eq, outcome_handled_iff]
    · subst hfile
      rw [load_eq]
      exact delivered_take h

/-- A header whose size is the largest `size_t`, and nothing behind it. -/
def absurdSizeFile : Bytes := headerBytes 0 (sizeLimit - 1)

/-- The size goes to `reserve` unchecked, and what that throws is not a
`std::runtime_error`. -/
theorem not_loadsCleanly_absurdSizeFile :
    ¬ LoadsCleanly smallEnvironment "buffered_storage.bin" absurdSizeFile := by
  intro h
  have hends := h.ends
  rw [load_eq, outcome_handled_iff, absurdSizeFile, ← List.append_nil (headerBytes _ _),
    frames_header (by decide) (by decide)] at hends
  exact absurd hends.1 (by decide)

end TraceCache
end Rocprofsys
