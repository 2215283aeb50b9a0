import AssociationQuery.Error
import AssociationQuery.Row

/-!
# AssociationQuery.Row.Reading

Typed access to rows.

A type that can be read from a value has two names in error messages: a full
one, shown when there is no value to read, and a short one, shown when the value
does not convert.
-/

namespace AssociationQuery

/-- A type that values can be read as. -/
class FromValue (α : Type) where
  /-- The full name, shown when a column is missing. -/
  fullName : String
  /-- The value as the type, or the short name of what was expected. -/
  read : Value → Except String α

namespace FromValue

/-- Read by a conversion that may fail. -/
def ofConversion (shortName : String) (convert : Value → Option α) (v : Value) :
    Except String α :=
  match convert v with
  | some a => .ok a
  | none => .error shortName

instance : FromValue Bool := ⟨"bool", ofConversion "bool" Value.toBool?⟩

instance : FromValue Int32 :=
  ⟨"i32", ofConversion "i32" fun v => do
    let n ← v.toInt?
    if -Int.pow 2 31 ≤ n ∧ n < Int.pow 2 31 then some (.ofInt n) else none⟩

instance : FromValue Int64 := ⟨"i64", ofConversion "i64" fun v => v.toInt?.map .ofInt⟩

instance : FromValue Binary64 := ⟨"f64", ofConversion "f64" Value.toDouble?⟩

instance : FromValue String := ⟨"alloc::string::String", ofConversion "String" Value.toText?⟩

instance : FromValue (List UInt8) :=
  ⟨"alloc::vec::Vec<u8>", ofConversion "Vec<u8>" fun
    | .bytes bs => some bs
    | _ => none⟩

instance : FromValue Value := ⟨"sqlassoc_core::value::Value", .ok⟩

/-- NULL reads as none. -/
instance [FromValue α] : FromValue (Option α) :=
  ⟨"core::option::Option<" ++ fullName α ++ ">", fun v =>
    if v.isNull then .ok none else (read v).map some⟩

end FromValue

namespace Row

/-- The value at a position, read as a type. -/
def readAt [FromValue α] (r : Row) (i : Nat) : Except TypeError α :=
  match r.get? i with
  | none =>
    .error ⟨FromValue.fullName α, s!"index {i} out of bounds (row has {r.width} columns)", none⟩
  | some v => (FromValue.read v).mapError fun expected => ⟨expected, v.typeName, none⟩

/-- The value of the first column of that name, read as a type. -/
def readNamed [FromValue α] (r : Row) (name : String) : Except TypeError α :=
  match r.named? name with
  | none => .error ⟨FromValue.fullName α, s!"column '{name}' not found", some name⟩
  | some v => (FromValue.read v).mapError fun expected => ⟨expected, v.typeName, some name⟩

end Row

end AssociationQuery
