import Rocprofsys.Base.Sql

namespace Rocprofsys
namespace Base
namespace Sql

open Decoder (run_bind run_pure)

/-! ## Tokens in front of a text -/

theorem run_nextToken {b : UInt8} (hb : isSpace b = false) (rest : List UInt8) :
    nextToken.run (b :: rest) = tokenOf b rest := by
  have hdrop : (b :: rest).dropWhile isSpace = b :: rest := by
    rw [List.dropWhile_cons_of_neg]
    rw [hb]
    decide
  dsimp only [nextToken, Decoder.run]
  rw [hdrop]

theorem isWord_cons {b : UInt8} {rest : List UInt8} (hb : isNameStart b = true)
    (hrest : rest.all isNameChar = true) : IsWord (b :: rest) :=
  ⟨hb, List.all_eq_true.mp hrest⟩

theorem isNameStart_toNat {b : UInt8} (h : isNameStart b = true) :
    58 ≤ b.toNat ∧ (b.toNat = 95 ∨ b.toNat ≤ 90 ∨ 97 ≤ b.toNat) := by
  simp only [isNameStart, Bool.or_eq_true, decide_eq_true_eq, beq_iff_eq] at h
  rcases h with h | rfl
  · omega
  · decide

theorem isSpace_of_le {b : UInt8} (h : 33 ≤ b.toNat) : isSpace b = false := by
  rw [← Bool.not_eq_true]
  intro hspace
  simp only [isSpace, Bool.or_eq_true, beq_iff_eq] at hspace
  rcases hspace with (((rfl | rfl) | rfl) | rfl) | rfl <;> exact absurd h (by decide)

theorem isDigit_of_isNameStart {b : UInt8} (h : isNameStart b = true) : isDigit b = false := by
  have hstart := isNameStart_toNat h
  rw [← Bool.not_eq_true]
  intro hdigit
  have hle := isDigit_toNat hdigit
  omega

/-- A word ends in front of anything that is not part of a name. -/
theorem run_nextToken_word {w rest : List UInt8} (hw : IsWord w)
    (hrest : ∀ b ∈ rest.head?, isNameChar b = false) :
    nextToken.run (w ++ rest) = .ok (.word w, rest) := by
  cases w with
  | nil => exact hw.elim
  | cons b w =>
    obtain ⟨hb, hw⟩ := hw
    have hstart := isNameStart_toNat hb
    have hne : b ≠ 0 := by
      intro heq
      subst heq
      exact absurd hstart.1 (by decide)
    have htake : (w ++ rest).takeWhile isNameChar = w ∧ (w ++ rest).dropWhile isNameChar = rest := by
      rw [List.takeWhile_append_of_pos hw, List.dropWhile_append_of_pos hw]
      cases rest with
      | nil => exact ⟨List.append_nil w, rfl⟩
      | cons c rest =>
        have hc : ¬isNameChar c = true := by
          rw [hrest c rfl]
          decide
        rw [List.takeWhile_cons_of_neg hc, List.dropWhile_cons_of_neg hc, List.append_nil]
        exact ⟨rfl, rfl⟩
    rw [List.cons_append, run_nextToken (isSpace_of_le (by omega)), tokenOf, if_neg hne,
      isDigit_of_isNameStart hb, if_neg Bool.false_ne_true, if_pos hb, htake.1, htake.2]

theorem run_nextToken_numeral {n : Numeral} (hn : n.WellFormed) (hwhole : n.whole ≠ [])
    {rest : List UInt8} (hends : Ends rest) (hrest : ∀ b ∈ rest.head?, isNameChar b = false) :
    nextToken.run (n.print ++ rest) = .ok (.number n, rest) := by
  have hread := readNumeral_print hn hends
  obtain ⟨b, ds, hb⟩ := List.exists_cons_of_ne_nil hwhole
  have hdigit := hn.whole b (hb ▸ List.mem_cons_self)
  have hle := isDigit_toNat hdigit
  have hcons : n.print ++ rest =
      b :: (ds ++ (Numeral.printFraction n.fraction ++ Numeral.printExponent n.exponent) ++ rest) := by
    rw [Numeral.print, hb]
    rfl
  have hne : b ≠ 0 := by
    intro heq
    subst heq
    exact absurd hle.1 (by decide)
  have hnext : ¬(rest.head?.map isNameChar).getD false = true := by
    cases rest with
    | nil => exact Bool.false_ne_true
    | cons c rest =>
      show ¬isNameChar c = true
      rw [hrest c rfl]
      decide
  rw [hcons] at hread ⊢
  rw [run_nextToken (isSpace_of_le (by omega)), tokenOf, if_neg hne, if_pos hdigit]
  simp only [hread]
  rw [if_neg hnext]

theorem takeQuoted_close {rest : List UInt8} (h : ∀ b ∈ rest.head?, b ≠ 34) :
    takeQuoted (34 :: rest) = some ([], rest) := by
  rw [takeQuoted.eq_def]
  simp only [if_true]
  split
  · exact absurd rfl (h 34 rfl)
  · rfl

theorem takeQuoted_of_ne {b : UInt8} (hquote : b ≠ 34) (hnul : b ≠ 0) (rest : List UInt8) :
    takeQuoted (b :: rest) = (takeQuoted rest).map fun x => (b :: x.1, x.2) := by
  rw [takeQuoted.eq_def]
  simp only []
  rw [if_neg hquote, if_neg hnul]

/-- A text without quotes and NULs ends at the first quote that is not doubled. -/
theorem takeQuoted_append {content rest : List UInt8} (hquote : 34 ∉ content) (hnul : 0 ∉ content)
    (hrest : ∀ b ∈ rest.head?, b ≠ 34) :
    takeQuoted (content ++ 34 :: rest) = some (content, rest) := by
  induction content with
  | nil => exact takeQuoted_close hrest
  | cons b content ih =>
    rw [List.mem_cons, not_or] at hquote hnul
    rw [List.cons_append, takeQuoted_of_ne (Ne.symm hquote.1) (Ne.symm hnul.1),
      ih hquote.2 hnul.2]
    rfl

theorem run_nextToken_quote (rest : List UInt8) :
    nextToken.run (34 :: rest) =
      match takeQuoted rest with
      | some (content, rest) => .ok (.text content, rest)
      | none => .error .illegalToken := rfl

/-! ## What reading a quoted text uses up -/

/-- The text between the quotes, with its quotes doubled. -/
def double (content : List UInt8) : List UInt8 :=
  content.flatMap fun b => if b = 34 then [34, 34] else [b]

theorem double_cons (b : UInt8) (content : List UInt8) :
    double (b :: content) = (if b = 34 then [34, 34] else [b]) ++ double content := rfl

theorem eq_double_of_takeQuoted {bs content rest : List UInt8}
    (h : takeQuoted bs = some (content, rest)) :
    bs = double content ++ 34 :: rest ∧ 0 ∉ content := by
  fun_induction takeQuoted bs generalizing content with
  | case1 => cases h
  | case2 after ih =>
    obtain ⟨⟨content', rest'⟩, hrec, heq⟩ := Option.map_eq_some_iff.mp h
    cases heq
    obtain ⟨hbs, hnul⟩ := ih hrec
    refine ⟨?_, fun hmem => ?_⟩
    · rw [double_cons, if_pos rfl, hbs]
      rfl
    · rcases List.mem_cons.mp hmem with hzero | hmem
      · exact absurd hzero (by decide)
      · exact hnul hmem
  | case3 after hafter =>
    cases h
    exact ⟨rfl, List.not_mem_nil⟩
  | case4 => cases h
  | case5 b after hquote hnul ih =>
    obtain ⟨⟨content', rest'⟩, hrec, heq⟩ := Option.map_eq_some_iff.mp h
    cases heq
    obtain ⟨hbs, hmem⟩ := ih hrec
    refine ⟨?_, List.not_mem_cons_of_ne_of_not_mem (Ne.symm hnul) hmem⟩
    rw [double_cons, if_neg hquote, hbs]
    rfl

/-- Quotes that are not doubled push the text after them behind its end. -/
theorem not_mem_of_double_eq {content rest after : List UInt8} {k : Nat}
    (hrest : ∀ b ∈ rest.head?, b ≠ 34)
    (h : List.replicate k 34 ++ (double content ++ 34 :: after) = content ++ 34 :: rest) :
    k = 0 ∧ 34 ∉ content := by
  induction content generalizing k with
  | nil =>
    cases k with
    | zero => exact ⟨rfl, List.not_mem_nil⟩
    | succ k =>
      rw [List.replicate_succ, List.cons_append, List.nil_append, List.cons.injEq] at h
      have hhead : rest.head? = some 34 := by
        rw [← h.2]
        cases k <;> rfl
      exact absurd rfl (hrest 34 hhead)
  | cons b content ih =>
    by_cases hb : b = 34
    · subst hb
      have hmore : List.replicate (k + 1) 34 ++ (double content ++ 34 :: after) =
          content ++ 34 :: rest := by
        have hshift : List.replicate k (34 : UInt8) ++ (List.replicate 2 34 ++
            (double content ++ 34 :: after)) =
            34 :: (List.replicate (k + 1) 34 ++ (double content ++ 34 :: after)) := by
          rw [← List.append_assoc, List.replicate_append_replicate]
          rfl
        rw [double_cons, if_pos rfl, List.append_assoc] at h
        exact (List.cons.inj (hshift.symm.trans h)).2
      exact absurd (ih hmore).1 (Nat.succ_ne_zero k)
    · cases k with
      | zero =>
        rw [double_cons, if_neg hb] at h
        have hcontent := ih (k := 0) (List.cons.inj h).2
        exact ⟨rfl, List.not_mem_cons_of_ne_of_not_mem (Ne.symm hb) hcontent.2⟩
      | succ k =>
        rw [List.replicate_succ, List.cons_append, List.cons_append, List.cons.injEq] at h
        exact absurd h.1.symm hb

/-- A quoted text is read as itself exactly when it holds no quote and no NUL. -/
theorem takeQuoted_eq_iff {content rest : List UInt8} (hrest : ∀ b ∈ rest.head?, b ≠ 34) :
    (∃ after, takeQuoted (content ++ 34 :: rest) = some (content, after)) ↔
      34 ∉ content ∧ 0 ∉ content := by
  constructor
  · intro h
    obtain ⟨after, h⟩ := h
    obtain ⟨heq, hnul⟩ := eq_double_of_takeQuoted h
    exact ⟨(not_mem_of_double_eq (k := 0) hrest heq.symm).2, hnul⟩
  · intro h
    obtain ⟨hquote, hnul⟩ := h
    exact ⟨rest, takeQuoted_append hquote hnul hrest⟩

/-! ## Names and keywords -/

theorem isWord_of_tokenOf {b : UInt8} {bs w rest : List UInt8}
    (h : tokenOf b bs = .ok (.word w, rest)) : IsWord w := by
  unfold tokenOf at h
  simp only [] at h
  split_ifs at h with hnul hdigit hname hstart hquote
  · cases h
  · cases h
  · cases h
    exact ⟨hstart, fun c hc => List.mem_takeWhile_imp hc⟩
  · split at h <;> cases h
  · cases h

theorem isWord_of_nextToken {bs w rest : List UInt8}
    (h : nextToken.run bs = .ok (.word w, rest)) : IsWord w := by
  dsimp only [nextToken, Decoder.run] at h
  split at h
  · cases h
  · exact isWord_of_tokenOf h

theorem run_keyword {w rest : List UInt8} (hw : IsWord w)
    (hrest : ∀ b ∈ rest.head?, isNameChar b = false) :
    (keyword (upper w)).run (w ++ rest) = .ok ((), rest) := by
  rw [keyword, run_bind, run_nextToken_word hw hrest]
  show (if upper w = upper w then pure () else Decoder.fail .syntaxError : Decoder SqlError Unit).run
    rest = _
  rw [if_pos rfl]
  rfl

theorem run_name {w rest : List UInt8} (hw : IsName w)
    (hrest : ∀ b ∈ rest.head?, isNameChar b = false) : name.run (w ++ rest) = .ok (w, rest) := by
  rw [name, run_bind, run_nextToken_word hw.1 hrest]
  show (if upper w ∈ reserved then Decoder.fail .syntaxError else pure w :
    Decoder SqlError (List UInt8)).run rest = _
  rw [if_neg hw.2]
  rfl

theorem yields_name : Decoder.Yields name IsName := by
  intro bs w rest h
  rw [name, run_bind] at h
  cases htoken : nextToken.run bs with
  | error e =>
    rw [htoken] at h
    cases h
  | ok x =>
    obtain ⟨token, after⟩ := x
    rw [htoken] at h
    cases token with
    | word v =>
      by_cases hreserved : upper v ∈ reserved
      · change (if upper v ∈ reserved then Decoder.fail .syntaxError else pure v :
          Decoder SqlError (List UInt8)).run after = _ at h
        rw [if_pos hreserved] at h
        cases h
      · change (if upper v ∈ reserved then Decoder.fail .syntaxError else pure v :
          Decoder SqlError (List UInt8)).run after = _ at h
        rw [if_neg hreserved] at h
        cases h
        exact ⟨isWord_of_nextToken htoken, hreserved⟩
    | number n => cases h
    | text content => cases h
    | mark b => cases h
    | stop => cases h

theorem run_mark {b : UInt8} {bs rest : List UInt8} (h : nextToken.run bs = .ok (.mark b, rest)) :
    (mark b).run bs = .ok ((), rest) := by
  rw [mark, run_bind, h]
  show (if Token.mark b = .mark b then pure () else Decoder.fail .syntaxError :
    Decoder SqlError Unit).run rest = _
  rw [if_pos rfl]
  rfl

/-! ## Literals -/

theorem run_literal_null {rest : List UInt8} (hrest : ∀ b ∈ rest.head?, isNameChar b = false) :
    literal.run ([78, 85, 76, 76] ++ rest) = .ok (.null, rest) := by
  have hword : IsWord [78, 85, 76, 76] := isWord_cons rfl rfl
  rw [literal, run_bind, run_nextToken_word hword hrest]
  rfl

/-- A word other than `NULL` is no literal. -/
theorem run_literal_word {w rest : List UInt8} (hw : IsWord w) (hnull : upper w ≠ [78, 85, 76, 76])
    (hrest : ∀ b ∈ rest.head?, isNameChar b = false) :
    literal.run (w ++ rest) = .error .syntaxError := by
  rw [literal, run_bind, run_nextToken_word hw hrest]
  show (if upper w = [78, 85, 76, 76] then pure .null else Decoder.fail .syntaxError :
    Decoder SqlError Datum).run rest = _
  rw [if_neg hnull]
  rfl

/-- A numeral behind its sign. -/
theorem run_literal_numeral {n : Numeral} (hn : n.WellFormed) (hwhole : n.whole ≠ [])
    {rest : List UInt8} (hends : Ends rest) (hrest : ∀ b ∈ rest.head?, isNameChar b = false)
    (negative : Bool) :
    literal.run ((if negative then [45] else []) ++ (n.print ++ rest)) =
      .ok (numberDatum negative n, rest) := by
  have htoken := run_nextToken_numeral hn hwhole hends hrest
  cases negative with
  | false =>
    show literal.run (n.print ++ rest) = _
    rw [literal, run_bind, htoken]
    rfl
  | true =>
    have hminus : nextToken.run (45 :: (n.print ++ rest)) = .ok (.mark 45, n.print ++ rest) := rfl
    show literal.run (45 :: (n.print ++ rest)) = _
    rw [literal, run_bind, hminus]
    show (nextToken >>= _ : Decoder SqlError Datum).run (n.print ++ rest) = _
    rw [run_bind, htoken]
    rfl

/-- A minus sign in front of a word is no literal. -/
theorem run_literal_minus_word {w rest : List UInt8} (hw : IsWord w)
    (hrest : ∀ b ∈ rest.head?, isNameChar b = false) :
    literal.run (45 :: (w ++ rest)) = .error .syntaxError := by
  have hminus : nextToken.run (45 :: (w ++ rest)) = .ok (.mark 45, w ++ rest) := rfl
  rw [literal, run_bind, hminus]
  show (nextToken >>= _ : Decoder SqlError Datum).run (w ++ rest) = _
  rw [run_bind, run_nextToken_word hw hrest]
  rfl

/-- A quoted text is a literal of itself exactly when it holds no quote and no NUL. -/
theorem run_literal_text_iff {content rest : List UInt8} (hrest : ∀ b ∈ rest.head?, b ≠ 34) :
    (∃ after, literal.run (34 :: (content ++ 34 :: rest)) = .ok (.text content, after)) ↔
      34 ∉ content ∧ 0 ∉ content := by
  rw [← takeQuoted_eq_iff hrest]
  refine exists_congr fun after => ?_
  rw [literal, run_bind, run_nextToken_quote]
  cases takeQuoted (content ++ 34 :: rest) with
  | none => exact ⟨(fun h => nomatch h), (fun h => nomatch h)⟩
  | some x =>
    show Except.ok (Datum.text x.1, x.2) = .ok (.text content, after) ↔ some (x.1, x.2) = _
    simp only [Except.ok.injEq, Prod.mk.injEq, Datum.text.injEq, Option.some.injEq]

theorem run_literal_text {content rest : List UInt8} (hquote : 34 ∉ content) (hnul : 0 ∉ content)
    (hrest : ∀ b ∈ rest.head?, b ≠ 34) :
    literal.run (34 :: (content ++ 34 :: rest)) = .ok (.text content, rest) := by
  rw [literal, run_bind, run_nextToken_quote, takeQuoted_append hquote hnul hrest]
  rfl

/-! ## Items between commas -/

section Items

variable {α : Type} {item : Decoder SqlError α} {bs after rest : List UInt8} {a : α}

theorem run_items_last (hitem : item.run bs = .ok (a, after))
    (hmark : nextToken.run after = .ok (.mark 41, rest)) (n : Nat) :
    (items item (n + 1)).run bs = .ok ([a], rest) := by
  rw [items, run_bind, hitem, Except.bind, run_bind, hmark]
  rfl

theorem run_items_next (hitem : item.run bs = .ok (a, after))
    (hmark : nextToken.run after = .ok (.mark 44, rest)) (n : Nat) :
    (items item (n + 1)).run bs =
      ((items item n).run rest).map fun x => (a :: x.1, x.2) := by
  rw [items, run_bind, hitem, Except.bind, run_bind, hmark]
  show ((items item n).run rest).bind _ = _
  cases (items item n).run rest <;> rfl

/-- A list that was read begins with an item, and goes on behind a comma if it is
longer. -/
theorem run_items_cases {n : Nat} {as : List α} (h : (items item n).run bs = .ok (as, rest)) :
    ∃ m a as' after, n = m + 1 ∧ as = a :: as' ∧ item.run bs = .ok (a, after) ∧
      (as' = [] ∨ ∃ more, nextToken.run after = .ok (.mark 44, more) ∧
        (items item m).run more = .ok (as', rest)) := by
  cases n with
  | zero => cases h
  | succ m =>
    rw [items, run_bind] at h
    cases hitem : item.run bs with
    | error e =>
      rw [hitem] at h
      cases h
    | ok x =>
      obtain ⟨a, after⟩ := x
      rw [hitem, Except.bind, run_bind] at h
      cases htoken : nextToken.run after with
      | error e =>
        rw [htoken] at h
        cases h
      | ok y =>
        obtain ⟨token, more⟩ := y
        rw [htoken, Except.bind] at h
        simp only [] at h
        split at h
        · cases h
          exact ⟨m, a, [], after, rfl, rfl, rfl, Or.inl rfl⟩
        · rw [run_bind] at h
          cases hmore : (items item m).run more with
          | error e =>
            rw [hmore] at h
            cases h
          | ok z =>
            obtain ⟨as', rest'⟩ := z
            rw [hmore] at h
            cases h
            exact ⟨m, a, as', after, rfl, rfl, rfl, Or.inr ⟨more, htoken, hmore⟩⟩
        · cases h

theorem yields_items {P : α → Prop} (hitem : Decoder.Yields item P) (n : Nat) :
    Decoder.Yields (items item n) fun as => as ≠ [] ∧ ∀ a ∈ as, P a := by
  induction n with
  | zero =>
    intro bs as rest h
    cases h
  | succ n ih =>
    intro bs as rest h
    obtain ⟨m, a, as', after, hm, rfl, ha, hmore⟩ := run_items_cases h
    have hfirst := hitem bs a after ha
    refine ⟨List.cons_ne_nil a as', fun a' ha' => ?_⟩
    rcases List.mem_cons.mp ha' with rfl | ha'
    · exact hfirst
    · rcases hmore with rfl | ⟨more, -, hrun⟩
      · cases ha'
      · cases hm
        exact (ih more as' rest hrun).2 a' ha'

end Items

end Sql
end Base
end Rocprofsys
