import Rocprofsys.Base.SqlReading
import Rocprofsys.TraceCache.Cacheable

namespace Rocprofsys
namespace Rocpd

open Base
open Base.Sql (Datum)
open TraceCache (Bytes)

/-! ## Values

The argument types of `set_values`. Narrower integers are printed as these are. -/

inductive Number where
  | signed (value : Int64)
  | unsigned (value : UInt64)
  | real (value : Double)

inductive ColumnValue where
  | number (value : Number)
  | optional (value : Option Number)
  | text (value : Bytes)

/-! ## Output of a stream -/

/-- A minus sign, where there is one. -/
def sign (negative : Bool) : Bytes := if negative then [45] else []

/-- `_ss << value` with the precision of a fresh stream. -/
def printReal (value : Double) : Bytes :=
  if value.IsFinite then sign value.negative ++ (generalFormat 6 value.magnitude).print
  else if value.fraction = 0 then sign value.negative ++ [105, 110, 102]
  else sign value.negative ++ [110, 97, 110]

/-- `_ss << value`. -/
def printNumber : Number → Bytes
  | .signed value => sign (decide (value.toInt < 0)) ++ decimal value.toInt.natAbs
  | .unsigned value => decimal value.toNat
  | .real value => printReal value

/-! ## query_value_builder, query_columns_builder -/

/-- A string goes between double quotes as it is. -/
def processValue : ColumnValue → Bytes
  | .text value => [34] ++ value ++ [34]
  | .optional (some value) => printNumber value
  | .optional none => [78, 85, 76, 76]
  | .number value => printNumber value

/-- The fold over the arguments: `", "` behind each but the last, `" "` behind that. -/
def separated {α : Type} (print : α → Bytes) : List α → Bytes
  | [] => []
  | a :: as => print a ++ (if 1 < as.length + 1 then [44, 32] else [32]) ++ separated print as

/-- The stream `_ss` that the builders share. -/
structure TableInsertQuery where
  ss : Bytes

/-- `"INSERT INTO " << tableName << " "` into an empty stream. -/
def TableInsertQuery.setTableName (_query : TableInsertQuery) (tableName : Bytes) :
    TableInsertQuery :=
  ⟨[73, 78, 83, 69, 82, 84, 32, 73, 78, 84, 79, 32] ++ tableName ++ [32]⟩

/-- `"( " << columns << ") VALUES "`. -/
def TableInsertQuery.setColumns (query : TableInsertQuery) (columns : List Bytes) :
    TableInsertQuery :=
  ⟨query.ss ++ [40, 32] ++ separated id columns ++ [41, 32, 86, 65, 76, 85, 69, 83, 32]⟩

/-- `"( " << values << ")"`. -/
def TableInsertQuery.setValues (query : TableInsertQuery) (values : List ColumnValue) :
    TableInsertQuery :=
  ⟨query.ss ++ [40, 32] ++ separated processValue values ++ [41]⟩

def TableInsertQuery.getQueryString (query : TableInsertQuery) : Bytes := query.ss

def TableInsertQuery.insert (query : TableInsertQuery) (tableName : Bytes) (columns : List Bytes)
    (values : List ColumnValue) : Bytes :=
  (((query.setTableName tableName).setColumns columns).setValues values).getQueryString

/-! ## What the values are -/

def Number.datum : Number → Datum
  | .signed value => .number value.toInt
  | .unsigned value => .number value.toNat
  | .real value =>
    if value.IsFinite then .number (Sql.signed value.negative value.magnitude)
    else if value.fraction = 0 then .infinite value.negative
    else .nan

def ColumnValue.datum : ColumnValue → Datum
  | .number value => value.datum
  | .optional (some value) => value.datum
  | .optional none => .null
  | .text value => .text value

/-! ## When a literal says what the value is -/

/-- The double that some decimal number of at most six significant digits is nearest to. -/
def SixDigits (q : ℚ) : Prop := ∃ x, HasDigits 10 6 x ∧ roundDouble x = some q

/-- Integers are below `2 ^ 63` or doubles, and doubles need no more than six digits. -/
def Number.Printable : Number → Prop
  | .signed _ => True
  | .unsigned value => value.toNat < 9223372036854775808 ∨ 2048 ∣ value.toNat
  | .real value => value.IsFinite ∧ SixDigits value.magnitude

/-- A string holds no double quote and no NUL. -/
def ColumnValue.Printable : ColumnValue → Prop
  | .number value => value.Printable
  | .optional (some value) => value.Printable
  | .optional none => True
  | .text value => 34 ∉ value ∧ 0 ∉ value

end Rocpd
end Rocprofsys
