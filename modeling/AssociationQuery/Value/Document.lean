import AssociationQuery.Json.Parser
import AssociationQuery.Json.Printer
import AssociationQuery.Json.Real
import AssociationQuery.Json.Record
import AssociationQuery.Value.Basic

/-!
# AssociationQuery.Value.Document

Values as JSON text: an object whose one member is named after the type and
holds the content, or the bare word for NULL.
-/

namespace AssociationQuery.Value

open Json (Document)

/-! ## reading -/

/-- A whole number that fits `n` bits with its sign. -/
def signed? (n : Nat) (d : Document) : Option Int :=
  d.intWithin? (-Int.pow 2 (n - 1)) (Int.pow 2 (n - 1) - 1)

/-- The content of a value of the given type. -/
def ofTagged? (tag : String) (d : Document) : Option Value :=
  match tag with
  | "Null" => match d with
    | .null => some null
    | _ => none
  | "Bool" => d.bool?.map bool
  | "TinyInt" => (signed? 8 d).map fun n => tinyInt (.ofInt n)
  | "SmallInt" => (signed? 16 d).map fun n => smallInt (.ofInt n)
  | "Int" => (signed? 32 d).map fun n => int (.ofInt n)
  | "BigInt" => (signed? 64 d).map fun n => bigInt (.ofInt n)
  | "Float" => (Json.Real.toBinary32? d).map float
  | "Double" => (Json.Real.toBinary64? d).map double
  | "Decimal" => d.string?.map decimal
  | "Text" => d.string?.map text
  | "Bytes" => (d.list? (Document.nat? 256)).map fun ns => bytes (ns.map (·.toUInt8))
  | "Timestamp" => (signed? 64 d).map fun n => timestamp (.ofInt n)
  | "Json" => d.toJson?.map json
  | _ => none

/-- The value that a document describes. -/
def ofDocument? : Document → Option Value
  | .string (some "Null") => some null
  | .object [(some tag, d)] => ofTagged? tag d
  | _ => none

/-- How deep a document may nest. -/
def depthLimit : Nat := 127

/-- The value that a JSON text describes. -/
def ofText? (text : String) : Option Value := do
  let d ← Document.ofText? text
  if d.depth ≤ depthLimit then ofDocument? d else none

/-! ## writing -/

/-- An object with one member. -/
def tagged (tag : String) (content : List Char) : List Char :=
  '\x7b' :: Json.printString tag ++ ':' :: content ++ ['\x7d']

/-- Numbers with commas between them, in brackets. -/
def printBytes (bs : List UInt8) : List Char :=
  Json.print (.array (bs.map fun b => .integer b.toNat))

/-- The compact JSON text of a value. -/
def print : Value → List Char
  | null => Json.printString "Null"
  | bool b => tagged "Bool" (Json.print (.bool b))
  | tinyInt n => tagged "TinyInt" (Json.printInt n.toInt)
  | smallInt n => tagged "SmallInt" (Json.printInt n.toInt)
  | int n => tagged "Int" (Json.printInt n.toInt)
  | bigInt n => tagged "BigInt" (Json.printInt n.toInt)
  | float x => tagged "Float" (Json.Real.printSingle x)
  | double x => tagged "Double" (Json.Real.printDouble x)
  | decimal s => tagged "Decimal" (Json.printString s)
  | text s => tagged "Text" (Json.printString s)
  | bytes bs => tagged "Bytes" (printBytes bs)
  | timestamp n => tagged "Timestamp" (Json.printInt n.toInt)
  | json j => tagged "Json" j.print

/-- The compact JSON text of a value. -/
def toText (v : Value) : String := String.ofList v.print

end AssociationQuery.Value
