import AssociationQuery.Json.Basic
import AssociationQuery.Number.Decimal

/-!
# AssociationQuery.Value.Basic

The values that statements bind and rows hold, one constructor per column type a
database reports.

A value converts to a truth value, a whole number, a real number or text when
its type allows it; no conversion crosses from text to numbers, except that a
decimal, which travels as text, also reads as a real number.
-/

namespace AssociationQuery

inductive Value where
  | null
  | bool (b : Bool)
  | tinyInt (n : Int8)
  | smallInt (n : Int16)
  | int (n : Int32)
  | bigInt (n : Int64)
  | float (x : Binary32)
  | double (x : Binary64)
  /-- A decimal of any precision, as its text. -/
  | decimal (text : String)
  | text (s : String)
  | bytes (bs : List UInt8)
  /-- Microseconds since the epoch. -/
  | timestamp (micros : Int64)
  | json (j : Json)
  deriving DecidableEq, Repr

namespace Value

def isNull : Value → Bool
  | null => true
  | _ => false

/-- The name of the column type. -/
def typeName : Value → String
  | null => "NULL"
  | bool _ => "BOOLEAN"
  | tinyInt _ => "TINYINT"
  | smallInt _ => "SMALLINT"
  | int _ => "INTEGER"
  | bigInt _ => "BIGINT"
  | float _ => "REAL"
  | double _ => "DOUBLE"
  | decimal _ => "DECIMAL"
  | text _ => "TEXT"
  | bytes _ => "BLOB"
  | timestamp _ => "TIMESTAMP"
  | json _ => "JSON"

/-! ## conversions -/

/-- The truth value: a whole number is true when it is not zero. -/
def toBool? : Value → Option Bool
  | bool b => some b
  | tinyInt n => some (n != 0)
  | smallInt n => some (n != 0)
  | int n => some (n != 0)
  | bigInt n => some (n != 0)
  | _ => none

/-- The whole number: truth values count as zero and one. -/
def toInt? : Value → Option Int
  | bool b => some (if b then 1 else 0)
  | tinyInt n => some n.toInt
  | smallInt n => some n.toInt
  | int n => some n.toInt
  | bigInt n => some n.toInt
  | timestamp n => some n.toInt
  | _ => none

/-- The real number: whole numbers and decimals are rounded to the nearest. -/
def toDouble? : Value → Option Binary64
  | float x => some x.widen
  | double x => some x
  | tinyInt n => some (.ofInt n.toInt)
  | smallInt n => some (.ofInt n.toInt)
  | int n => some (.ofInt n.toInt)
  | bigInt n => some (.ofInt n.toInt)
  | decimal s => Decimal.toBinary64? s
  | _ => none

/-- The text of a text or a decimal. -/
def toText? : Value → Option String
  | text s => some s
  | decimal s => some s
  | _ => none

/-! ## equality -/

/-- Equality of values of one type.  Real numbers compare as numbers: zeros are
equal whatever their sign and a NaN equals nothing, not even itself. -/
def equal : Value → Value → Bool
  | float x, float y => x.equal y
  | double x, double y => x.equal y
  | a, b => a == b

end Value

end AssociationQuery
