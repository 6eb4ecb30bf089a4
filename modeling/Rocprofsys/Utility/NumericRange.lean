import Rocprofsys.Base.Decimal
import Rocprofsys.Base.DoWhile
import Rocprofsys.Base.Progression

namespace Rocprofsys
namespace Utility

open Base

/-! ## Numbers in a text -/

/-- The exceptions of the conversions, and the one of the function itself. -/
inductive Failure where
  | invalidArgument (what : String)
  | outOfRange (what : String)
  | runtimeError (message : List UInt8)
  deriving DecidableEq, Repr

def isSpace (b : UInt8) : Bool := b == 32 || decide (9 ≤ b) && decide (b ≤ 13)

/-- The sign and the digits in front, behind spaces. -/
def scan (str : List UInt8) : Bool × List UInt8 :=
  let signed := takeSign (str.dropWhile isSpace)
  (signed.1, signed.2.takeWhile isDigit)

def scannedValue (str : List UInt8) : ℤ :=
  if (scan str).1 then -(digitsValue (scan str).2 : ℤ) else digitsValue (scan str).2

/-- `std::stoull`. A minus sign negates modulo 2^64. -/
def stoull (str : List UInt8) : Except Failure UInt64 :=
  if (scan str).2 = [] then .error (.invalidArgument "stoull")
  else if 2 ^ 64 ≤ digitsValue (scan str).2 then .error (.outOfRange "stoull")
  else .ok (UInt64.ofInt (scannedValue str))

/-- `std::stoll`. -/
def stoll (str : List UInt8) : Except Failure Int64 :=
  if (scan str).2 = [] then .error (.invalidArgument "stoll")
  else if -2 ^ 63 ≤ scannedValue str ∧ scannedValue str < 2 ^ 63 then
    .ok (Int64.ofInt (scannedValue str))
  else .error (.outOfRange "stoll")

/-- `std::stoi`. -/
def stoi (str : List UInt8) : Except Failure Int32 :=
  if (scan str).2 = [] then .error (.invalidArgument "stoi")
  else if -2 ^ 31 ≤ scannedValue str ∧ scannedValue str < 2 ^ 31 then
    .ok (Int32.ofInt (scannedValue str))
  else .error (.outOfRange "stoi")

/-- `_get_value`: a stream yields zero without digits, and the nearest limit beyond one. -/
def getValue (inp : List UInt8) : Int64 := Int64.ofIntClamp (scannedValue inp)

/-! ## Parsing -/

def toLower (b : UInt8) : UInt8 := if 65 ≤ b ∧ b ≤ 90 then b + 32 else b

/-- What a part of the input asks for. -/
inductive Specification where
  | ignored
  | value (v : Int64)
  | range (first last increment : Int64)
  deriving DecidableEq, Repr

/-- One of `0123456789-:`. -/
def isPermitted (b : UInt8) : Bool := isDigit b || b == 45 || b == 58

/-- The characters of `,; \t\n\r`. -/
def delimiters : List UInt8 := [44, 59, 32, 9, 10, 13]

/-- What becomes of a sum that does not fit 64 bits: the language leaves it undefined, the
machine wraps it around. -/
inductive Overflow where
  | wraps
  | undefined
  deriving DecidableEq, Repr

section Parse

/- `tim::delimit` of a line and the delimiters, and the label and the increment of the caller. -/
variable (delimit : List UInt8 → List UInt8 → List (List UInt8)) (label : List UInt8)
  (incr : Int64)

def invalidRange (v : List UInt8) : Failure :=
  .runtimeError ("Invalid ".toUTF8.toList ++ label ++ " range specification: ".toUTF8.toList ++ v ++
    ". Required format N-M, e.g. 0-4".toUTF8.toList)

/-- The increment behind the first colon. -/
def increment (v : List UInt8) : Except Failure Int64 :=
  let incrStr := (v.dropWhile (· != 58)).drop 1
  if incrStr = [] then .ok incr else (stoull incrStr).map UInt64.toInt64

/-- The bounds, or the number, in front of it. -/
def bounds (v : List UInt8) (incr : Int64) : Except Failure Specification :=
  if 45 ∈ v then
    match delimit v [45] with
    | [first, last] => .ok (.range (getValue first) (getValue last) incr)
    | _ => .error (invalidRange label v)
  else (stoll v).map .value

def specification (v : List UInt8) : Except Failure Specification :=
  if v.all isPermitted then
    (increment incr v).bind fun incr => bounds delimit label (v.takeWhile (· != 58)) incr
  else .ok .ignored

variable (overflow : Overflow)

/-- `_vn += _incr_v`. -/
def add (increment v : Int64) : Option Int64 :=
  match overflow with
  | .wraps => some (v + increment)
  | .undefined =>
    if -2 ^ 63 ≤ v.toInt + increment.toInt ∧ v.toInt + increment.toInt < 2 ^ 63 then
      some (v + increment)
    else none

/-- The values that are emplaced. -/
def emplaced (fuel : Nat) : Specification → Option (List Int64)
  | .ignored => some []
  | .value v => some [v]
  | .range first last increment =>
    doWhile (add overflow increment) (fun v => decide (v ≤ last)) fuel first

def parseParts (fuel : Nat) : List (List UInt8) → Option (Except Failure (List Int64))
  | [] => some (.ok [])
  | v :: vs =>
    match specification delimit label incr v with
    | .error failure => some (.error failure)
    | .ok spec => (emplaced overflow fuel spec).bind fun values =>
      (parseParts fuel vs).map (Except.map (values ++ ·))

/-- `parse_numeric_range`. -/
def parseNumericRange (fuel : Nat) (input : List UInt8) : Option (Except Failure (List Int64)) :=
  parseParts delimit label incr overflow fuel (delimit (input.map toLower) delimiters)

/-- With fuel enough the function returns or throws. -/
def Terminates (input : List UInt8) : Prop :=
  ∃ fuel, (parseNumericRange delimit label incr overflow fuel input).isSome = true

/-! ## Where it stops -/

/-- A value above the bound is reached. Only a sum that does not wrap around reaches it where
overflow is undefined. -/
def Specification.Stops : Specification → Prop
  | .range first last increment =>
    match overflow with
    | .wraps => last.toInt < greatest (2 ^ 64) (2 ^ 63 - 1) first.toInt increment.toInt
    | .undefined =>
      if 0 < increment.toInt then
        firstBeyond last.toInt first.toInt increment.toInt < 2 ^ 63
      else last.toInt < first.toInt + increment.toInt
  | _ => True

/-- Every range does, up to a part that throws. -/
def RangesStop : List (List UInt8) → Prop
  | [] => True
  | v :: vs =>
    match specification delimit label incr v with
    | .error _ => True
    | .ok spec => spec.Stops overflow ∧ RangesStop vs

end Parse

end Utility
end Rocprofsys
