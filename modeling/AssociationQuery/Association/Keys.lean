import AssociationQuery.Association.Basic
import AssociationQuery.Schema.Basic

/-!
# AssociationQuery.Association.Keys

Finding the key columns of a direct association.

One of the two tables, the holder, has the foreign key and the other is
referenced by it: the origin of a belongs-to association is the holder, of the
other kinds the destination is.  The key may be given in full, by its
referencing columns, or not at all when the catalogue declares exactly one; in
every case the result is a list of pairs, origin and destination, which is not
empty and names columns that the tables have.
-/

namespace AssociationQuery

/-- How the foreign key of an association is given. -/
inductive KeyChoice where
  /-- By its referencing columns. -/
  | columns (columns : List String)
  /-- By referencing and referenced columns. -/
  | pairs (columns references : List String)
  deriving DecidableEq, Repr

/-- A direct association before its key columns are known. -/
structure AssociationBuilder where
  kind : DirectKind
  name : String
  origin : String
  destination : String
  /-- Absent: the only key that the catalogue declares. -/
  key : Option KeyChoice := none
  deriving DecidableEq, Repr

namespace AssociationBuilder

/-- Give the foreign key; the last one given counts. -/
def withKey (b : AssociationBuilder) (key : KeyChoice) : AssociationBuilder :=
  { b with key := some key }

/-- The table that holds the foreign key and the table that it references. -/
def roles (kind : DirectKind) (origin destination : Table) : Table × Table :=
  match kind with
  | .belongsTo => (origin, destination)
  | .hasOne | .hasMany => (destination, origin)

/-- Pairs of referencing and referenced columns, as far as the way in which the
key is given determines them. -/
def choosePairs (schema : Schema) (name : String) (holder referenced : Table) :
    Option KeyChoice → Except Error (List (String × String))
  | some (.pairs columns references) =>
    if columns.isEmpty || columns.length != references.length then
      .error (.association (.keyLengths name columns.length references.length))
    else .ok (columns.zip references)
  | some (.columns columns) => do
    let declared ← schema.foreignKeys holder.name referenced.name
    match declared.find? (·.hasColumns columns) with
    | some k => return k.pairs
    | none =>
      if !columns.isEmpty && columns.length == referenced.primaryKey.length then
        return columns.zip referenced.primaryKey
      else
        .error (.association (.unmatchedColumns name columns holder.name referenced.name))
  | none => do
    match ← schema.foreignKeys holder.name referenced.name with
    | [k] => return k.pairs
    | [] => .error (.association (.noForeignKey name holder.name referenced.name))
    | several =>
      .error (.association
        (.severalForeignKeys name several.length holder.name referenced.name))

/-- Does the table lack the column?  Nothing is known about the columns of a table
without any. -/
def lacks (t : Table) (column : String) : Bool :=
  !t.columns.isEmpty && (t.columnIndex? column).isNone

/-- The first column of the pairs that its table lacks: referencing columns first. -/
def missingColumn? (holder referenced : Table) (pairs : List (String × String)) :
    Option (String × Table) :=
  (pairs.map fun p => (p.1, holder)) ++ (pairs.map fun p => (p.2, referenced))
    |>.find? fun c => lacks c.2 c.1

/-- The pairs must be complete and name columns that exist. -/
def checkPairs (name : String) (holder referenced : Table) (pairs : List (String × String)) :
    Except AssociationError Unit :=
  if pairs.isEmpty || pairs.any fun p => p.1.isEmpty || p.2.isEmpty then
    .error (.incompleteForeignKey name holder.name referenced.name)
  else
    match missingColumn? holder referenced pairs with
    | some (column, table) => .error (.missingColumn name column table.name)
    | none => .ok ()

/-- Pairs of referencing and referenced columns, turned to origin and destination. -/
def orient (kind : DirectKind) (pairs : List (String × String)) : List (String × String) :=
  match kind with
  | .belongsTo => pairs
  | .hasOne | .hasMany => pairs.map Prod.swap

/-- Pairs of key columns, origin and destination. -/
def mapping (b : AssociationBuilder) (schema : Schema) (origin destination : Table) :
    Except Error (List (String × String)) := do
  let (holder, referenced) := roles b.kind origin destination
  let pairs ← choosePairs schema b.name holder referenced b.key
  (checkPairs b.name holder referenced pairs).mapError .association
  return orient b.kind pairs

/-- The association, with its tables and key columns as the catalogue has them. -/
def build (b : AssociationBuilder) (schema : Schema) : Except Error Association := do
  let origin ← schema.describe b.origin
  let destination ← schema.describe b.destination
  let mapping ← b.mapping schema origin destination
  return .direct b.kind b.name origin destination mapping [] [] none

end AssociationBuilder

end AssociationQuery
