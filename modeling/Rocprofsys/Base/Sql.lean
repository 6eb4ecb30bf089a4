import Rocprofsys.Base.Decoder
import Rocprofsys.Base.Double
import Rocprofsys.Base.Numeral

namespace Rocprofsys
namespace Base
namespace Sql

/-! ## Tokens

The part of SQL that an `INSERT` statement of names and literals needs, with the lexical
rules of SQLite: a string in double quotes is a literal where no column can be meant. -/

inductive Token where
  | word (text : List UInt8)
  | number (n : Numeral)
  | text (content : List UInt8)
  | mark (b : UInt8)
  | stop
  deriving DecidableEq, Repr

inductive SqlError where
  | illegalToken
  | syntaxError
  deriving DecidableEq, Repr

def isSpace (b : UInt8) : Bool := b == 32 || b == 9 || b == 10 || b == 12 || b == 13

def isNameStart (b : UInt8) : Bool :=
  decide (65 ≤ b.toNat ∧ b.toNat ≤ 90 ∨ 97 ≤ b.toNat ∧ b.toNat ≤ 122 ∨ 128 ≤ b.toNat) || b == 95

def isNameChar (b : UInt8) : Bool := isNameStart b || isDigit b || b == 36

/-- The content of a string up to its closing quote; a doubled quote stands for one. -/
def takeQuoted : List UInt8 → Option (List UInt8 × List UInt8)
  | [] => none
  | b :: rest =>
    if b = 34 then
      match rest with
      | 34 :: rest => (takeQuoted rest).map fun x => (34 :: x.1, x.2)
      | rest => some ([], rest)
    else if b = 0 then none
    else (takeQuoted rest).map fun x => (b :: x.1, x.2)

/-- A token that starts with `b`. The text ends in front of a NUL, as a C string does. -/
def tokenOf (b : UInt8) (rest : List UInt8) : Except SqlError (Token × List UInt8) :=
  if b = 0 then .ok (.stop, [])
  else if isDigit b then
    let numeral := readNumeral (b :: rest)
    if (numeral.2.head?.map isNameChar).getD false then .error .illegalToken
    else .ok (.number numeral.1, numeral.2)
  else if isNameStart b then
    .ok (.word (b :: rest.takeWhile isNameChar), rest.dropWhile isNameChar)
  else if b = 34 then
    match takeQuoted rest with
    | some (content, rest) => .ok (.text content, rest)
    | none => .error .illegalToken
  else .ok (.mark b, rest)

def nextToken : Decoder SqlError Token := fun bs =>
  match bs.dropWhile isSpace with
  | [] => .ok (.stop, [])
  | b :: rest => tokenOf b rest

/-! ## Statements -/

/-- What a literal denotes; no literal denotes `nan`. -/
inductive Datum where
  | null
  | number (q : ℚ)
  | infinite (negative : Bool)
  | nan
  | text (content : List UInt8)
  deriving DecidableEq

def signed (negative : Bool) (q : ℚ) : ℚ := if negative then -q else q

/-- The double next to a number. -/
def nearest (negative : Bool) (q : ℚ) : Datum :=
  match roundDouble q with
  | some v => .number (signed negative v)
  | none => .infinite negative

/-- A 64-bit integer is exact; any other number is the nearest double. -/
def numberDatum (negative : Bool) (n : Numeral) : Datum :=
  if n.IsInteger ∧ digitsValue n.whole < 9223372036854775808 then
    .number (signed negative (digitsValue n.whole))
  else nearest negative n.value

def upper (text : List UInt8) : List UInt8 :=
  text.map fun b => if 97 ≤ b.toNat ∧ b.toNat ≤ 122 then b - 32 else b

/-- The keywords that no table or column is named by without quotes. -/
def reserved : List (List UInt8) :=
  ["ADD", "ALL", "ALTER", "AND", "AS", "AUTOINCREMENT", "BETWEEN", "CASE", "CHECK", "COLLATE",
    "COMMIT", "CONSTRAINT", "CREATE", "DEFAULT", "DEFERRABLE", "DELETE", "DISTINCT", "DROP",
    "ELSE", "ESCAPE", "EXCEPT", "EXISTS", "FOREIGN", "FROM", "GROUP", "HAVING", "IN", "INDEX",
    "INSERT", "INTERSECT", "INTO", "IS", "ISNULL", "JOIN", "LIMIT", "NOT", "NOTHING", "NOTNULL",
    "NULL", "ON", "OR", "ORDER", "PRIMARY", "REFERENCES", "RETURNING", "SELECT", "SET", "TABLE",
    "THEN", "TO", "TRANSACTION", "UNION", "UNIQUE", "UPDATE", "USING", "VALUES", "WHEN",
    "WHERE"].map fun word => word.toUTF8.toList

def IsWord : List UInt8 → Prop
  | [] => False
  | b :: rest => isNameStart b = true ∧ ∀ c ∈ rest, isNameChar c = true

/-- A name that needs no quotes. -/
def IsName (text : List UInt8) : Prop := IsWord text ∧ upper text ∉ reserved

def keyword (text : List UInt8) : Decoder SqlError Unit := do
  match ← nextToken with
  | .word w => if upper w = text then pure () else Decoder.fail .syntaxError
  | _ => Decoder.fail .syntaxError

def mark (b : UInt8) : Decoder SqlError Unit := do
  if (← nextToken) = .mark b then pure () else Decoder.fail .syntaxError

def stop : Decoder SqlError Unit := do
  if (← nextToken) = .stop then pure () else Decoder.fail .syntaxError

def name : Decoder SqlError (List UInt8) := do
  match ← nextToken with
  | .word w => if upper w ∈ reserved then Decoder.fail .syntaxError else pure w
  | _ => Decoder.fail .syntaxError

def literal : Decoder SqlError Datum := do
  match ← nextToken with
  | .word w => if upper w = [78, 85, 76, 76] then pure .null else Decoder.fail .syntaxError
  | .number n => pure (numberDatum false n)
  | .text content => pure (.text content)
  | .mark 45 =>
    match ← nextToken with
    | .number n => pure (numberDatum true n)
    | _ => Decoder.fail .syntaxError
  | _ => Decoder.fail .syntaxError

/-- Items between commas up to the closing parenthesis, at most `n`. -/
def items {α : Type} (item : Decoder SqlError α) : Nat → Decoder SqlError (List α)
  | 0 => Decoder.fail .syntaxError
  | n + 1 => do
    let a ← item
    match ← nextToken with
    | .mark 41 => return [a]
    | .mark 44 =>
      let as ← items item n
      return a :: as
    | _ => Decoder.fail .syntaxError

structure Insert where
  table : List UInt8
  columns : List (List UInt8)
  values : List Datum
  deriving DecidableEq

def insertStatement (size : Nat) : Decoder SqlError Insert := do
  keyword [73, 78, 83, 69, 82, 84]
  keyword [73, 78, 84, 79]
  let table ← name
  mark 40
  let columns ← items name size
  keyword [86, 65, 76, 85, 69, 83]
  mark 40
  let values ← items literal size
  stop
  return ⟨table, columns, values⟩

/-- `INSERT INTO table (columns) VALUES (values)`, and nothing else. -/
def readInsert (sql : List UInt8) : Except SqlError Insert :=
  ((insertStatement sql.length).run sql).map Prod.fst

end Sql
end Base
end Rocprofsys
