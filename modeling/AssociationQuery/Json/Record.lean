import AssociationQuery.Json.Document

/-!
# AssociationQuery.Json.Record

Reading records, lists and choices from a JSON document.

A record is an object with a member per field: members of other names are
skipped, unless the record is closed, and a repeated field is refused.  It may
also be an array of the fields in their order.  A choice among words is a word,
or an object with the word as its one member and null as its value.
-/

namespace AssociationQuery.Json.Document

/-! ## plain values -/

def string? : Document → Option String
  | string s => s
  | _ => none

def bool? : Document → Option Bool
  | bool b => some b
  | _ => none

/-- A whole number from `low` to `high`. -/
def intWithin? (low high : Int) : Document → Option Int
  | integer n => if low ≤ n ∧ n ≤ high then some n else none
  | _ => none

def nat? (bound : Nat) (d : Document) : Option Nat :=
  (d.intWithin? 0 (bound - 1)).map Int.toNat

def list? (read : Document → Option α) : Document → Option (List α)
  | array items => items.mapM read
  | _ => none

/-- Null, or a value. -/
def nullable? (read : Document → Option α) : Document → Option (Option α)
  | null => some none
  | d => (read d).map some

/-- Values by name; of several with one name the last. -/
def map? (read : Document → Option α) : Document → Option (List (String × α))
  | object members =>
    (members.mapM fun (m : Literal × Document) => do return (← m.1, ← read m.2)).map sortMembers
  | _ => none

/-! ## choices -/

/-- One of the given words. -/
def word? (choices : List (String × α)) : Document → Option α
  | string s => s >>= (List.lookup · choices)
  | object [(name, null)] => name >>= (List.lookup · choices)
  | _ => none

/-! ## records -/

/-- The fields of a record by name, absent fields left out. -/
structure Record where
  fields : List (String × Document)
  /-- Was the record written as an array?  Then every field that has no default
  must be there. -/
  positional : Bool

/-- The document as a record of the given fields. -/
def record? (names : List String) : Document → Option Record
  | array items => if items.length ≤ names.length then some ⟨names.zip items, true⟩ else none
  | object members => do
    let members ← members.mapM fun (m : Literal × Document) => m.1.map (·, m.2)
    let known := members.filter fun m => names.contains m.1
    if (known.map Prod.fst).eraseDups.length = known.length then some ⟨known, false⟩ else none
  | _ => none

/-- A record that may have no members of other names. -/
def closedRecord? (names : List String) (d : Document) : Option Record :=
  match d with
  | object members =>
    if members.all fun m => m.1.any names.contains then d.record? names else none
  | _ => d.record? names

namespace Record

/-- A field that must be there. -/
def required? (r : Record) (name : String) (read : Document → Option α) : Option α :=
  r.fields.lookup name >>= read

/-- A field that may be null, and may be absent from an object. -/
def nullable? (r : Record) (name : String) (read : Document → Option α) : Option (Option α) :=
  match r.fields.lookup name with
  | some d => d.nullable? read
  | none => if r.positional then none else some none

/-- A field with a default for when it is absent. -/
def withDefault? (r : Record) (name : String) (default : α) (read : Document → Option α) :
    Option α :=
  match r.fields.lookup name with
  | some d => read d
  | none => some default

end Record

end AssociationQuery.Json.Document
