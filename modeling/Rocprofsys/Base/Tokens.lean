import Mathlib.Data.List.TakeWhile

namespace Rocprofsys
namespace Base

variable {α : Type} {isDelimiter : α → Bool} {t xs ys : List α} {ts : List (List α)} {d x : α}

/-! ## Tokens between delimiters -/

/-- The stretches between delimiters that are not empty. -/
def tokens (isDelimiter : α → Bool) (xs : List α) : List (List α) :=
  (xs.splitOnP isDelimiter).filter (! ·.isEmpty)

/-- What `tokens` yields. -/
structure IsToken (isDelimiter : α → Bool) (t : List α) : Prop where
  ne_nil : t ≠ []
  clean : ∀ x ∈ t, isDelimiter x = false

theorem IsToken.append_cons {isDelimiter : α → Bool} {s t : List α} {x : α}
    (hs : IsToken isDelimiter s) (hx : isDelimiter x = false) (ht : IsToken isDelimiter t) :
    IsToken isDelimiter (s ++ x :: t) := by
  refine ⟨List.append_ne_nil_of_left_ne_nil hs.ne_nil _, fun y hy => ?_⟩
  simp only [List.mem_append, List.mem_cons] at hy
  rcases hy with hy | rfl | hy
  · exact hs.clean y hy
  · exact hx
  · exact ht.clean y hy

/-- A text of these tokens, with any number of delimiters around them and at least one
between two. -/
inductive Separated (isDelimiter : α → Bool) : List (List α) → List α → Prop where
  | nil : Separated isDelimiter [] []
  | delimiter {ts : List (List α)} {d : α} {xs : List α} (hd : isDelimiter d = true)
      (h : Separated isDelimiter ts xs) : Separated isDelimiter ts (d :: xs)
  | last {t : List α} (ht : IsToken isDelimiter t) : Separated isDelimiter [t] t
  | token {ts : List (List α)} {t : List α} {d : α} {xs : List α} (ht : IsToken isDelimiter t)
      (hd : isDelimiter d = true) (h : Separated isDelimiter ts xs) :
      Separated isDelimiter (t :: ts) (t ++ d :: xs)

@[simp] theorem tokens_nil : tokens isDelimiter [] = [] := by
  rw [tokens, List.splitOnP_nil]
  rfl

theorem tokens_congr {isDelimiter' : α → Bool} (h : ∀ x ∈ xs, isDelimiter x = isDelimiter' x) :
    tokens isDelimiter xs = tokens isDelimiter' xs := by
  have hsplit : xs.splitOnP isDelimiter = xs.splitOnP isDelimiter' := by
    induction xs with
    | nil => rw [List.splitOnP_nil, List.splitOnP_nil]
    | cons x xs ih =>
      rw [List.splitOnP_cons_eq_if_modifyHead, List.splitOnP_cons_eq_if_modifyHead,
        h x List.mem_cons_self, ih fun y hy => h y (List.mem_cons_of_mem x hy)]
  rw [tokens, tokens, hsplit]

theorem tokens_append_delimiter (hd : isDelimiter d = true) :
    tokens isDelimiter (xs ++ d :: ys) = tokens isDelimiter xs ++ tokens isDelimiter ys := by
  rw [tokens, List.splitOnP_append_cons xs ys hd, List.filter_append, tokens, tokens]

theorem tokens_cons_delimiter (hd : isDelimiter d = true) :
    tokens isDelimiter (d :: xs) = tokens isDelimiter xs := by
  have h := @tokens_append_delimiter α isDelimiter [] xs d hd
  rwa [tokens_nil, List.nil_append, List.nil_append] at h

theorem tokens_token (ht : IsToken isDelimiter t) : tokens isDelimiter t = [t] := by
  rw [tokens, List.splitOnP_eq_singleton ht.clean]
  cases t with
  | nil => exact absurd rfl ht.ne_nil
  | cons x t => rfl

theorem tokens_append_token (ht : IsToken isDelimiter t) (hd : isDelimiter d = true) :
    tokens isDelimiter (t ++ d :: xs) = t :: tokens isDelimiter xs := by
  rw [tokens_append_delimiter hd, tokens_token ht, List.singleton_append]

theorem tokens_of_separated (h : Separated isDelimiter ts xs) : tokens isDelimiter xs = ts := by
  induction h with
  | nil => exact tokens_nil
  | delimiter hd h ih => rw [tokens_cons_delimiter hd, ih]
  | last ht => exact tokens_token ht
  | token ht hd h ih => rw [tokens_append_token ht hd, ih]

theorem mem_of_separated (h : Separated isDelimiter ts xs) (hx : x ∈ xs) :
    isDelimiter x = true ∨ ∃ t ∈ ts, x ∈ t := by
  induction h with
  | nil => exact absurd hx List.not_mem_nil
  | delimiter hd _ ih =>
    rcases List.mem_cons.mp hx with rfl | hx
    · exact Or.inl hd
    · exact ih hx
  | @last t _ => exact Or.inr ⟨t, List.mem_singleton_self t, hx⟩
  | @token ts t d xs _ hd _ ih =>
    rcases List.mem_append.mp hx with hx | hx
    · exact Or.inr ⟨t, List.mem_cons_self, hx⟩
    · rcases List.mem_cons.mp hx with rfl | hx
      · exact Or.inl hd
      · rcases ih hx with hx | ⟨t', ht', hx⟩
        · exact Or.inl hx
        · exact Or.inr ⟨t', List.mem_cons_of_mem t ht', hx⟩

/-- A symbol in front lengthens the first token or is one. -/
theorem exists_separated_cons (hx : isDelimiter x = false) (h : Separated isDelimiter ts xs) :
    ∃ ts', Separated isDelimiter ts' (x :: xs) := by
  have htoken {t : List α} (ht : ∀ y ∈ t, isDelimiter y = false) :
      IsToken isDelimiter (x :: t) := by
    refine ⟨List.cons_ne_nil x t, fun y hy => ?_⟩
    rcases List.mem_cons.mp hy with rfl | hy
    · exact hx
    · exact ht y hy
  have hsingle : IsToken isDelimiter [x] := htoken fun y hy => absurd hy List.not_mem_nil
  cases h with
  | nil => exact ⟨[[x]], .last hsingle⟩
  | delimiter hd h => exact ⟨_, .token hsingle hd h⟩
  | last ht => exact ⟨_, .last (htoken ht.clean)⟩
  | token ht hd h => exact ⟨_, .token (htoken ht.clean) hd h⟩

/-- Every text is one of its tokens. -/
theorem separated_tokens (xs : List α) : Separated isDelimiter (tokens isDelimiter xs) xs := by
  have hexists : ∃ ts, Separated isDelimiter ts xs := by
    induction xs with
    | nil => exact ⟨[], .nil⟩
    | cons x xs ih =>
      obtain ⟨ts, h⟩ := ih
      cases hx : isDelimiter x with
      | true => exact ⟨ts, .delimiter hx h⟩
      | false => exact exists_separated_cons hx h
  obtain ⟨ts, h⟩ := hexists
  rwa [tokens_of_separated h]

theorem isToken_of_separated (h : Separated isDelimiter ts xs) (ht : t ∈ ts) :
    IsToken isDelimiter t := by
  induction h with
  | nil => exact absurd ht List.not_mem_nil
  | delimiter _ _ ih => exact ih ht
  | last ht' =>
    rw [List.mem_singleton.mp ht]
    exact ht'
  | token ht' _ _ ih =>
    rcases List.mem_cons.mp ht with rfl | htail
    · exact ht'
    · exact ih htail

theorem isToken_of_mem_tokens (h : t ∈ tokens isDelimiter xs) : IsToken isDelimiter t :=
  isToken_of_separated (separated_tokens xs) h

/-- Every symbol that is no delimiter is in a token. -/
theorem exists_mem_tokens (h : x ∈ xs) (hx : isDelimiter x = false) :
    ∃ t ∈ tokens isDelimiter xs, x ∈ t := by
  have hseparated := @separated_tokens α isDelimiter xs
  generalize tokens isDelimiter xs = ts at hseparated
  induction hseparated with
  | nil => exact absurd h List.not_mem_nil
  | delimiter hd _ ih =>
    rcases List.mem_cons.mp h with rfl | h
    · rw [hd] at hx
      cases hx
    · exact ih h
  | @last t ht => exact ⟨t, List.mem_singleton_self t, h⟩
  | @token ts t d xs ht hd _ ih =>
    rcases List.mem_append.mp h with h | h
    · exact ⟨t, List.mem_cons_self, h⟩
    · rcases List.mem_cons.mp h with rfl | h
      · rw [hd] at hx
        cases hx
      · obtain ⟨t', ht', hmem⟩ := ih h
        exact ⟨t', List.mem_cons_of_mem t ht', hmem⟩

theorem tokens_eq_nil (h : ∀ x ∈ xs, isDelimiter x = true) : tokens isDelimiter xs = [] := by
  induction xs with
  | nil => exact tokens_nil
  | cons x xs ih =>
    rw [tokens_cons_delimiter (h x List.mem_cons_self)]
    exact ih fun y hy => h y (List.mem_cons_of_mem x hy)

theorem tokens_dropWhile (xs : List α) :
    tokens isDelimiter (xs.dropWhile isDelimiter) = tokens isDelimiter xs := by
  induction xs with
  | nil => rfl
  | cons x xs ih =>
    cases hx : isDelimiter x with
    | true => rw [List.dropWhile_cons_of_pos hx, ih, tokens_cons_delimiter hx]
    | false => rw [List.dropWhile_cons_of_neg (Bool.not_eq_true _ ▸ hx)]

/-- What ends a token may be dropped. -/
theorem tokens_drop_one (xs : List α) :
    tokens isDelimiter ((xs.dropWhile (! isDelimiter ·)).drop 1) =
      tokens isDelimiter (xs.dropWhile (! isDelimiter ·)) := by
  cases hrest : xs.dropWhile (! isDelimiter ·) with
  | nil => rfl
  | cons d rest =>
    have hd := List.head_dropWhile_not (! isDelimiter ·) (hrest ▸ List.cons_ne_nil d rest)
    simp only [hrest, List.head_cons, Bool.not_eq_false'] at hd
    rw [tokens_cons_delimiter hd, List.drop_succ_cons, List.drop_zero]

/-- The first token ends in front of the next delimiter. -/
theorem tokens_cons (hx : isDelimiter x = false) :
    tokens isDelimiter (x :: xs) =
      (x :: xs).takeWhile (! isDelimiter ·) ::
        tokens isDelimiter ((x :: xs).dropWhile (! isDelimiter ·)) := by
  have ht : IsToken isDelimiter ((x :: xs).takeWhile (! isDelimiter ·)) := by
    refine ⟨?_, fun y hy => ?_⟩
    · rw [List.takeWhile_cons_of_pos (by rw [hx]; rfl)]
      exact List.cons_ne_nil _ _
    · have hy' := List.mem_takeWhile_imp hy
      rwa [Bool.not_eq_true'] at hy'
  have hsplit := @List.takeWhile_append_dropWhile α (! isDelimiter ·) (x :: xs)
  cases hrest : (x :: xs).dropWhile (! isDelimiter ·) with
  | nil =>
    rw [hrest, List.append_nil] at hsplit
    rw [tokens_nil, hsplit]
    rw [hsplit] at ht
    exact tokens_token ht
  | cons d rest =>
    have hd : isDelimiter d = true := by
      have hne : (x :: xs).dropWhile (! isDelimiter ·) ≠ [] := by
        rw [hrest]
        exact List.cons_ne_nil d rest
      have h := List.head_dropWhile_not (! isDelimiter ·) hne
      simpa only [hrest, List.head_cons, Bool.not_eq_false'] using h
    rw [hrest] at hsplit
    rw [tokens_cons_delimiter hd, ← tokens_append_token ht hd, hsplit]

end Base
end Rocprofsys
