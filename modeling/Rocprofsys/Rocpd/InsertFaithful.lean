import Rocprofsys.Rocpd.InsertQuery

namespace Rocprofsys
namespace Rocpd

open Base
open Base.Sql
open Decoder (run_bind)
open TraceCache (Bytes)

/-! ## Numerals -/

/-- The numeral of an integer. -/
def integerNumeral (n : Nat) : Numeral := ⟨decimal n, none, none⟩

theorem integerNumeral_print (n : Nat) : (integerNumeral n).print = decimal n := by
  show decimal n ++ ([] ++ []) = decimal n
  rw [List.append_nil, List.append_nil]

theorem integerNumeral_wellFormed (n : Nat) : (integerNumeral n).WellFormed :=
  ⟨fun _ hb => isDigit_of_mem_decimal hb, (fun _ h => nomatch h), (fun _ h => nomatch h)⟩

theorem integerNumeral_value (n : Nat) : (integerNumeral n).value = n := by
  show (digitsValue (decimal n ++ []) : ℚ) * 10 ^ ((0 : ℤ) - (0 : ℕ)) = n
  rw [List.append_nil, digitsValue_decimal]
  norm_num

theorem numberDatum_integerNumeral (negative : Bool) (n : Nat) :
    numberDatum negative (integerNumeral n) =
      if n < 9223372036854775808 then .number (signed negative n) else nearest negative n := by
  have hinteger : (integerNumeral n).IsInteger := ⟨rfl, rfl⟩
  have hwhole : digitsValue (integerNumeral n).whole = n := digitsValue_decimal n
  rw [numberDatum, hwhole, integerNumeral_value]
  by_cases hn : n < 9223372036854775808
  · rw [if_pos ⟨hinteger, hn⟩, if_pos hn]
  · rw [if_neg fun h => hn h.2, if_neg hn]

theorem value_of_isInteger {n : Numeral} (h : n.IsInteger) : n.value = digitsValue n.whole := by
  obtain ⟨whole, fraction, exponent⟩ := n
  obtain ⟨rfl, rfl⟩ := h
  show (digitsValue (whole ++ []) : ℚ) * 10 ^ ((0 : ℤ) - (0 : ℕ)) = digitsValue whole
  rw [List.append_nil]
  norm_num

theorem signed_injective (negative : Bool) {p q : ℚ} (h : signed negative p = signed negative q) :
    p = q := by
  cases negative with
  | false => exact h
  | true => exact neg_injective h

theorem nearest_eq_number_iff (negative : Bool) (r q : ℚ) :
    nearest negative r = .number (signed negative q) ↔ roundDouble r = some q := by
  unfold nearest
  cases roundDouble r with
  | none => exact ⟨(fun h => nomatch h), (fun h => nomatch h)⟩
  | some v =>
    show Datum.number (signed negative v) = _ ↔ _
    rw [Datum.number.injEq, Option.some.injEq]
    constructor
    · exact signed_injective negative
    · intro heq
      subst heq
      rfl

/-- A double written with `%g` is read as the double next to the digits written. -/
theorem numberDatum_generalFormat (negative : Bool) {q : ℚ} (hq : 0 < q) :
    numberDatum negative (generalFormat 6 q) = nearest negative (roundDigits 10 6 q) := by
  have hvalue := generalFormat_value (by norm_num : 0 < 6) hq
  by_cases hinteger : (generalFormat 6 q).IsInteger
  · have hsmall := generalFormat_isInteger hinteger
    have hnatural := value_of_isInteger hinteger
    have hround : roundDouble (roundDigits 10 6 q) = some (roundDigits 10 6 q) := by
      rw [← hvalue, hnatural]
      exact roundDouble_natCast (hsmall.trans (by norm_num))
    rw [numberDatum, if_pos ⟨hinteger, hsmall.trans (by norm_num)⟩, ← hnatural, hvalue]
    exact ((nearest_eq_number_iff negative _ _).mpr hround).symm
  · rw [numberDatum, if_neg fun h => hinteger h.1, hvalue]

theorem sixDigits_iff {q : ℚ} (hq : 0 < q) :
    SixDigits q ↔ roundDouble (roundDigits 10 6 q) = some q := by
  constructor
  · intro h
    obtain ⟨x, hx, hround⟩ := h
    have hpos : 0 < x := by
      obtain ⟨m, e, -, rfl⟩ := id hx
      rcases Nat.eq_zero_or_pos m with rfl | hm
      · rw [Nat.cast_zero, zero_mul, roundDouble_zero, Option.some.injEq] at hround
        exact absurd hround hq.ne
      · exact mul_pos (by exact_mod_cast hm) (zpow_base_pos (by norm_num) e)
    exact roundDouble_roundDigits (by norm_num) (by norm_num) hx hpos hq hround
  · intro h
    exact ⟨_, hasDigits_roundDigits (by norm_num) (by norm_num) hq, h⟩

theorem sixDigits_zero : SixDigits 0 := ⟨0, ⟨0, 0, by norm_num, by norm_num⟩, roundDouble_zero⟩

/-! ## One literal -/

/-- What `separated` puts behind an item. -/
def Follows (rest : Bytes) : Prop := rest.head? = some 44 ∨ rest.head? = some 32

theorem Follows.forall {rest : Bytes} (h : Follows rest) {P : UInt8 → Prop} (hcomma : P 44)
    (hspace : P 32) : ∀ b ∈ rest.head?, P b := by
  intro b hb
  rcases h with h | h
  · rw [h] at hb
    cases hb
    exact hcomma
  · rw [h] at hb
    cases hb
    exact hspace

theorem Follows.ends {rest : Bytes} (h : Follows rest) : Ends rest := h.forall (by decide) (by decide)

theorem Follows.isNameChar {rest : Bytes} (h : Follows rest) :
    ∀ b ∈ rest.head?, isNameChar b = false := h.forall rfl rfl

theorem Follows.ne_quote {rest : Bytes} (h : Follows rest) : ∀ b ∈ rest.head?, b ≠ 34 :=
  h.forall (by decide) (by decide)

/-- The literal that the printed number is read as; words are none. -/
def Number.literal : Number → Except SqlError Datum
  | .signed value => .ok (numberDatum (decide (value.toInt < 0)) (integerNumeral value.toInt.natAbs))
  | .unsigned value => .ok (numberDatum false (integerNumeral value.toNat))
  | .real value =>
    if value.IsFinite then .ok (numberDatum value.negative (generalFormat 6 value.magnitude))
    else .error .syntaxError

theorem signed_natAbs (i : ℤ) : signed (decide (i < 0)) i.natAbs = i := by
  by_cases hneg : i < 0
  · rw [decide_eq_true hneg]
    show -((i.natAbs : ℕ) : ℚ) = _
    rw [Nat.cast_natAbs, abs_of_neg hneg, Int.cast_neg, neg_neg]
  · rw [decide_eq_false hneg]
    show ((i.natAbs : ℕ) : ℚ) = _
    rw [Nat.cast_natAbs, abs_of_nonneg (not_lt.mp hneg)]

theorem literal_signed (value : Int64) :
    (Number.signed value).literal = .ok (.number value.toInt) := by
  have hlow := value.le_toInt
  have hhigh := value.toInt_lt
  have hdatum : numberDatum (decide (value.toInt < 0)) (integerNumeral value.toInt.natAbs) =
      .number (signed (decide (value.toInt < 0)) value.toInt.natAbs) := by
    rw [numberDatum_integerNumeral]
    by_cases hsmall : value.toInt.natAbs < 9223372036854775808
    · rw [if_pos hsmall]
    · -- only the smallest integer, which is a double
      have hlargest : value.toInt.natAbs = 2 ^ 63 := by omega
      rw [if_neg hsmall, nearest_eq_number_iff, hlargest]
      exact (roundDouble_natCast_iff le_rfl (by norm_num)).mpr (by norm_num)
  rw [Number.literal, hdatum, signed_natAbs]

theorem literal_unsigned_iff (value : UInt64) :
    (Number.unsigned value).literal = .ok (.number value.toNat) ↔
      (Number.unsigned value).Printable := by
  rw [Number.literal, numberDatum_integerNumeral, Number.Printable, Except.ok.injEq]
  by_cases hsmall : value.toNat < 9223372036854775808
  · rw [if_pos hsmall]
    exact ⟨fun _ => Or.inl hsmall, fun _ => rfl⟩
  · have hexact : nearest false value.toNat = .number value.toNat ↔ 2048 ∣ value.toNat :=
      (nearest_eq_number_iff false _ _).trans
        (roundDouble_natCast_iff (not_lt.mp hsmall) value.toNat_lt)
    rw [if_neg hsmall, hexact]
    exact ⟨Or.inr, fun h => h.resolve_left hsmall⟩

theorem literal_real_iff (value : Double) :
    (Number.real value).literal = .ok (Number.real value).datum ↔
      (Number.real value).Printable := by
  rw [Number.literal, Number.datum, Number.Printable]
  by_cases hfinite : value.IsFinite
  · rw [if_pos hfinite, if_pos hfinite, Except.ok.injEq, and_iff_right hfinite]
    rcases value.magnitude_nonneg.eq_or_lt with hzero | hpos
    · rw [← hzero, generalFormat, if_pos rfl]
      exact ⟨fun _ => sixDigits_zero, fun _ => rfl⟩
    · rw [numberDatum_generalFormat value.negative hpos, nearest_eq_number_iff, sixDigits_iff hpos]
  · rw [if_neg hfinite]
    exact ⟨(fun h => nomatch h), fun h => absurd h.1 hfinite⟩

theorem Number.literal_eq_iff (value : Number) :
    value.literal = .ok value.datum ↔ value.Printable := by
  cases value with
  | signed value => exact ⟨fun _ => trivial, fun _ => literal_signed value⟩
  | unsigned value => exact literal_unsigned_iff value
  | real value => exact literal_real_iff value

theorem processValue_text_append (value rest : Bytes) :
    processValue (.text value) ++ rest = 34 :: (value ++ 34 :: rest) := by
  show [34] ++ value ++ [34] ++ rest = _
  rw [List.append_assoc, List.append_assoc]
  rfl

section Literal

variable {rest : Bytes} (hrest : Follows rest)
include hrest

theorem run_literal_sign_decimal (negative : Bool) (n : Nat) :
    Sql.literal.run (sign negative ++ (decimal n ++ rest)) =
      .ok (numberDatum negative (integerNumeral n), rest) := by
  rw [← integerNumeral_print]
  exact run_literal_numeral (integerNumeral_wellFormed n) (decimal_ne_nil n) hrest.ends
    hrest.isNameChar negative

/-- Neither `inf` nor `nan` is a literal. -/
theorem run_literal_sign_word (negative : Bool) {w : Bytes} (hw : IsWord w)
    (hnull : upper w ≠ [78, 85, 76, 76]) :
    Sql.literal.run (sign negative ++ (w ++ rest)) = .error .syntaxError := by
  cases negative with
  | false =>
    show Sql.literal.run (w ++ rest) = _
    exact run_literal_word hw hnull hrest.isNameChar
  | true =>
    show Sql.literal.run (45 :: (w ++ rest)) = _
    exact run_literal_minus_word hw hrest.isNameChar

theorem run_literal_number (value : Number) :
    Sql.literal.run (printNumber value ++ rest) = value.literal.map fun d => (d, rest) := by
  cases value with
  | signed value =>
    rw [printNumber, List.append_assoc, run_literal_sign_decimal hrest]
    rfl
  | unsigned value => exact run_literal_sign_decimal hrest false value.toNat
  | real value =>
    rw [printNumber, printReal, Number.literal]
    by_cases hfinite : value.IsFinite
    · rw [if_pos hfinite, if_pos hfinite, List.append_assoc]
      exact run_literal_numeral (generalFormat_wellFormed 6 _) (generalFormat_whole_ne_nil 6 _)
        hrest.ends hrest.isNameChar value.negative
    · rw [if_neg hfinite, if_neg hfinite]
      by_cases hinf : value.fraction = 0
      · rw [if_pos hinf, List.append_assoc]
        exact run_literal_sign_word hrest value.negative (isWord_cons rfl rfl) (by decide)
      · rw [if_neg hinf, List.append_assoc]
        exact run_literal_sign_word hrest value.negative (isWord_cons rfl rfl) (by decide)

theorem run_literal_number_iff (value : Number) :
    (∃ after, Sql.literal.run (printNumber value ++ rest) = .ok (value.datum, after)) ↔
      value.Printable := by
  rw [run_literal_number hrest, ← Number.literal_eq_iff]
  cases value.literal with
  | error e => exact ⟨(fun ⟨_, h⟩ => nomatch h), (fun h => nomatch h)⟩
  | ok d =>
    show (∃ after, Except.ok (d, rest) = .ok (value.datum, after)) ↔ _
    simp only [Except.ok.injEq, Prod.mk.injEq, exists_and_left, exists_eq', and_true]

/-- The literal of a value says what the value is exactly when the value is printable. -/
theorem run_literal_value_iff (value : ColumnValue) :
    (∃ after, Sql.literal.run (processValue value ++ rest) = .ok (value.datum, after)) ↔
      value.Printable := by
  cases value with
  | number value => exact run_literal_number_iff hrest value
  | optional value =>
    cases value with
    | none => exact ⟨fun _ => trivial, fun _ => ⟨rest, run_literal_null hrest.isNameChar⟩⟩
    | some value => exact run_literal_number_iff hrest value
  | text value =>
    rw [processValue_text_append]
    exact run_literal_text_iff hrest.ne_quote

theorem run_literal_printable_number {value : Number} (h : value.Printable) :
    Sql.literal.run (printNumber value ++ rest) = .ok (value.datum, rest) := by
  rw [run_literal_number hrest, value.literal_eq_iff.mpr h]
  rfl

theorem run_literal_value {value : ColumnValue} (h : value.Printable) :
    Sql.literal.run (processValue value ++ rest) = .ok (value.datum, rest) := by
  cases value with
  | number value => exact run_literal_printable_number hrest h
  | optional value =>
    cases value with
    | none => exact run_literal_null hrest.isNameChar
    | some value => exact run_literal_printable_number hrest h
  | text value =>
    rw [processValue_text_append]
    exact run_literal_text h.1 h.2 hrest.ne_quote

end Literal

/-! ## Lists of items -/

section Items

variable {α β : Type} {item : Decoder SqlError β} {print : α → Bytes} {read : α → β} {P : α → Prop}

theorem separated_singleton (a : α) (rest : Bytes) :
    separated print [a] ++ 41 :: rest = print a ++ 32 :: 41 :: rest := by
  show print a ++ [32] ++ [] ++ 41 :: rest = _
  rw [List.append_nil, List.append_assoc]
  rfl

theorem separated_cons_cons (a a' : α) (as : List α) (rest : Bytes) :
    separated print (a :: a' :: as) ++ rest =
      print a ++ 44 :: 32 :: (separated print (a' :: as) ++ rest) := by
  have hlonger : 1 < (a' :: as).length + 1 := Nat.succ_lt_succ (Nat.succ_pos as.length)
  rw [separated, if_pos hlonger, List.append_assoc, List.append_assoc]
  rfl

/-- A separated list is read item by item. -/
theorem run_items_separated (hspace : ∀ bs, item.run (32 :: bs) = item.run bs)
    (hitem : ∀ a, P a → ∀ rest, Follows rest → item.run (print a ++ rest) = .ok (read a, rest))
    {as : List α} (hne : as ≠ []) (has : ∀ a ∈ as, P a) {n : Nat} (hn : as.length ≤ n)
    (rest : Bytes) :
    (items item n).run (32 :: (separated print as ++ 41 :: rest)) = .ok (as.map read, rest) := by
  induction as generalizing n with
  | nil => exact absurd rfl hne
  | cons a as ih =>
    obtain ⟨m, rfl⟩ := Nat.exists_eq_succ_of_ne_zero
      (Nat.pos_iff_ne_zero.mp (Nat.lt_of_lt_of_le (Nat.succ_pos as.length) hn))
    have ha := has a List.mem_cons_self
    cases as with
    | nil =>
      have hfirst : item.run (32 :: (separated print [a] ++ 41 :: rest)) =
          .ok (read a, 32 :: 41 :: rest) := by
        rw [hspace, separated_singleton]
        exact hitem a ha _ (Or.inr rfl)
      exact run_items_last hfirst rfl m
    | cons a' as =>
      have hrest := ih (List.cons_ne_nil a' as) (fun b hb => has b (List.mem_cons_of_mem a hb))
        (Nat.le_of_succ_le_succ hn)
      have hfirst : item.run (32 :: (separated print (a :: a' :: as) ++ 41 :: rest)) =
          .ok (read a, 44 :: 32 :: (separated print (a' :: as) ++ 41 :: rest)) := by
        rw [hspace, separated_cons_cons]
        exact hitem a ha _ (Or.inl rfl)
      rw [run_items_next hfirst rfl, hrest]
      rfl

/-- Only from good items is the list itself read. -/
theorem forall_of_run_items (hspace : ∀ bs, item.run (32 :: bs) = item.run bs)
    (hitem : ∀ a, P a → ∀ rest, Follows rest → item.run (print a ++ rest) = .ok (read a, rest))
    (hgood : ∀ a rest, Follows rest → (∃ after, item.run (print a ++ rest) = .ok (read a, after)) →
      P a) {as : List α} {n : Nat} {rest after : Bytes}
    (hrun : (items item n).run (32 :: (separated print as ++ 41 :: rest)) =
      .ok (as.map read, after)) : ∀ a ∈ as, P a := by
  induction as generalizing n with
  | nil =>
    intro a ha
    cases ha
  | cons a as ih =>
    obtain ⟨m, b, bs, next, -, heq, hfirst, hmore⟩ := run_items_cases hrun
    cases heq
    rw [hspace] at hfirst
    cases as with
    | nil =>
      rw [separated_singleton] at hfirst
      intro a' ha'
      rw [List.mem_singleton.mp ha']
      exact hgood a _ (Or.inr rfl) ⟨next, hfirst⟩
    | cons a' as =>
      rw [separated_cons_cons] at hfirst
      have ha := hgood a _ (Or.inl rfl) ⟨next, hfirst⟩
      rw [hitem a ha _ (Or.inl rfl)] at hfirst
      cases hfirst
      obtain hnil | ⟨more, hcomma, hrest⟩ := hmore
      · cases hnil
      · cases hcomma
        intro b hb
        rcases List.mem_cons.mp hb with rfl | hb
        · exact ha
        · exact ih hrest b hb

end Items

/-! ## The statement -/

theorem length_le_length_separated {α : Type} (print : α → Bytes) (as : List α) :
    as.length ≤ (separated print as).length := by
  induction as with
  | nil => exact Nat.le_refl 0
  | cons a as ih =>
    rw [separated, List.length_append, List.length_append, List.length_cons]
    split
    · rw [List.length_cons]
      omega
    · rw [List.length_cons]
      omega

/-- The statement, token by token. -/
theorem insert_eq (query : TableInsertQuery) (table : Bytes) (columns : List Bytes)
    (values : List ColumnValue) :
    query.insert table columns values =
      [73, 78, 83, 69, 82, 84] ++ (32 :: ([73, 78, 84, 79] ++ (32 :: (table ++
        (32 :: 40 :: 32 :: (separated id columns ++ 41 :: (32 :: ([86, 65, 76, 85, 69, 83] ++
          (32 :: 40 :: 32 :: (separated processValue values ++ [41])))))))))) := by
  simp only [TableInsertQuery.insert, TableInsertQuery.getQueryString, TableInsertQuery.setValues,
    TableInsertQuery.setColumns, TableInsertQuery.setTableName, List.append_assoc,
    List.cons_append, List.nil_append]

theorem yields_insertStatement (size : Nat) : Decoder.Yields (insertStatement size) fun insert =>
    IsName insert.table ∧ (insert.columns ≠ [] ∧ ∀ column ∈ insert.columns, IsName column) ∧
      insert.values ≠ [] := by
  have hliteral := yields_items (Decoder.yields_true Sql.literal) size
  refine (Decoder.yields_true _).bind fun _ _ => (Decoder.yields_true _).bind fun _ _ => ?_
  refine yields_name.bind fun table htable => (Decoder.yields_true _).bind fun _ _ => ?_
  refine (yields_items yields_name size).bind fun columns hcolumns => ?_
  refine (Decoder.yields_true _).bind fun _ _ => (Decoder.yields_true _).bind fun _ _ => ?_
  refine hliteral.bind fun values hvalues => (Decoder.yields_true _).bind fun _ _ => ?_
  exact Decoder.yields_pure ⟨htable, hcolumns, hvalues.1⟩

/-- Up to the values a statement with good names is read as it was written. -/
theorem run_insertStatement {table : Bytes} (htable : IsName table) {columns : List Bytes}
    (hne : columns ≠ []) (hcolumns : ∀ column ∈ columns, IsName column) {size : Nat}
    (hsize : columns.length ≤ size) (query : TableInsertQuery) (values : List ColumnValue) :
    (insertStatement size).run (query.insert table columns values) =
      (do
        let literals ← items Sql.literal size
        stop
        return Sql.Insert.mk table columns literals : Decoder SqlError Sql.Insert).run
        (32 :: (separated processValue values ++ [41])) := by
  have hspace : ∀ {rest : Bytes}, ∀ b ∈ (32 :: rest).head?, isNameChar b = false := by
    intro rest b hb
    cases hb
    rfl
  have hinsert : ∀ rest, (keyword [73, 78, 83, 69, 82, 84]).run
      ([73, 78, 83, 69, 82, 84] ++ 32 :: rest) = .ok ((), 32 :: rest) := fun rest =>
    run_keyword (isWord_cons rfl rfl) hspace
  have hinto : ∀ rest, (keyword [73, 78, 84, 79]).run
      (32 :: ([73, 78, 84, 79] ++ 32 :: rest)) = .ok ((), 32 :: rest) := fun rest =>
    run_keyword (w := [73, 78, 84, 79]) (isWord_cons rfl rfl) hspace
  have hvalues : ∀ rest, (keyword [86, 65, 76, 85, 69, 83]).run
      (32 :: ([86, 65, 76, 85, 69, 83] ++ 32 :: rest)) = .ok ((), 32 :: rest) := fun rest =>
    run_keyword (w := [86, 65, 76, 85, 69, 83]) (isWord_cons rfl rfl) hspace
  have hname : ∀ rest, name.run (32 :: (table ++ 32 :: rest)) = .ok (table, 32 :: rest) :=
    fun rest => run_name htable hspace
  have hmark : ∀ rest, (mark 40).run (32 :: 40 :: rest) = .ok ((), rest) := fun rest => run_mark rfl
  have hitems : ∀ rest, (items name size).run (32 :: (separated id columns ++ 41 :: rest)) =
      .ok (columns, rest) := by
    intro rest
    have hread := @run_items_separated Bytes Bytes name id id IsName (fun _ => rfl)
      (fun column hcolumn rest hrest => run_name hcolumn hrest.isNameChar) columns hne hcolumns
      size hsize rest
    rwa [List.map_id] at hread
  rw [insert_eq, insertStatement, run_bind, hinsert, Except.bind, run_bind, hinto, Except.bind,
    run_bind, hname, Except.bind, run_bind, hmark, Except.bind, run_bind, hitems, Except.bind,
    run_bind, hvalues, Except.bind, run_bind, hmark, Except.bind]

theorem length_columns_le (query : TableInsertQuery) (table : Bytes) (columns : List Bytes)
    (values : List ColumnValue) :
    columns.length ≤ (query.insert table columns values).length := by
  have hcolumns := length_le_length_separated id columns
  rw [insert_eq]
  simp only [List.length_append, List.length_cons]
  omega

theorem length_values_le (query : TableInsertQuery) (table : Bytes) (columns : List Bytes)
    (values : List ColumnValue) :
    values.length ≤ (query.insert table columns values).length := by
  have hvalues := length_le_length_separated processValue values
  rw [insert_eq]
  simp only [List.length_append, List.length_cons]
  omega

/-- What a statement that is read as it was meant was made of. -/
theorem printable_of_readInsert {query : TableInsertQuery} {table : Bytes} {columns : List Bytes}
    {values : List ColumnValue} (h : readInsert (query.insert table columns values) =
      .ok ⟨table, columns, values.map ColumnValue.datum⟩) :
    IsName table ∧ (columns ≠ [] ∧ ∀ column ∈ columns, IsName column) ∧
      values ≠ [] ∧ ∀ value ∈ values, value.Printable := by
  rw [readInsert] at h
  cases hrun : (insertStatement (query.insert table columns values).length).run
      (query.insert table columns values) with
  | error e =>
    rw [hrun] at h
    cases h
  | ok x =>
    obtain ⟨statement, rest⟩ := x
    rw [hrun] at h
    cases h
    obtain ⟨htable, ⟨hne, hcolumns⟩, hvalues⟩ := yields_insertStatement _ _ _ _ hrun
    refine ⟨htable, ⟨hne, hcolumns⟩, ?_, ?_⟩
    · intro heq
      subst heq
      exact hvalues rfl
    · rw [run_insertStatement htable hne hcolumns
        (length_columns_le query table columns values), run_bind] at hrun
      cases hitems : (items Sql.literal (query.insert table columns values).length).run
          (32 :: (separated processValue values ++ [41])) with
      | error e =>
        rw [hitems] at hrun
        cases hrun
      | ok y =>
        obtain ⟨literals, after⟩ := y
        rw [hitems, Except.bind, run_bind] at hrun
        cases hstop : stop.run after with
        | error e =>
          rw [hstop] at hrun
          cases hrun
        | ok z =>
          rw [hstop] at hrun
          cases hrun
          exact forall_of_run_items (fun _ => rfl)
            (fun value hvalue rest hrest => run_literal_value hrest hvalue)
            (fun value rest hrest => (run_literal_value_iff hrest value).mp) hitems

end Rocpd
end Rocprofsys
