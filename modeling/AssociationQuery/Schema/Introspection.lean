import AssociationQuery.Connection
import AssociationQuery.Identifier
import AssociationQuery.Row.Reading
import AssociationQuery.Schema.Basic

/-!
# AssociationQuery.Schema.Introspection

Reading the catalogue of a live database.

Each kind of database is asked in its own way, and the answers are rows that are
turned into columns, primary keys and foreign keys by functions on rows.  A row
that lacks what it must tell is passed over.
-/

namespace AssociationQuery.Introspection

/-- The databases whose catalogue can be read. -/
inductive Source where
  | sqlite
  | postgres
  deriving DecidableEq, Repr

/-! ## reading rows of the catalogue -/

/-- A text column of a row. -/
def textOf? (r : Row) (column : String) : Option String := (r.readNamed column).toOption

/-- A whole-number column of a row; zero when it has none. -/
def numberOf (r : Row) (column : String) : Int64 :=
  match r.readNamed (α := Int64) column with
  | .ok n => n
  | .error _ => 0

/-- The texts in the first column of the rows. -/
def firstTexts (rows : List Row) : List String :=
  rows.filterMap fun r => r.get? 0 >>= Value.toText?

/-! ## one database in a file -/

namespace Sqlite

def tablesSql : String :=
  "SELECT name FROM sqlite_master WHERE type='table' AND name NOT LIKE 'sqlite_%' ORDER BY name"

def columnsSql (table : String) : String :=
  "PRAGMA table_info(" ++ Identifier.sanitize table ++ ")"

def foreignKeysSql (table : String) : String :=
  "PRAGMA foreign_key_list(" ++ Identifier.sanitize table ++ ")"

/-- A column with its position in the primary key, counted from one; zero when it
is not part of it. -/
def column? (r : Row) : Option (Int64 × Column) := do
  let name ← textOf? r "name"
  let position := numberOf r "pk"
  return (position,
    { name
      sqlType := (textOf? r "type").getD ""
      nullable := numberOf r "notnull" = 0 ∧ position = 0 })

/-- Positions in the primary key come in order, equal ones by name. -/
def keyOrder (a b : Int64 × Column) : Bool :=
  a.1 < b.1 || (a.1 == b.1 && a.2.name ≤ b.2.name)

/-- The columns and the primary key that the rows tell. -/
def columns (rows : List Row) : List Column × List String :=
  let described := rows.filterMap column?
  let keyed := described.filter fun c => 0 < c.1
  (described.map Prod.snd, (keyed.mergeSort keyOrder).map fun c => c.2.name)

/-- One column of a foreign key. -/
structure Part where
  /-- The key that the column belongs to. -/
  id : Int64
  /-- The position of the column in the key. -/
  seq : Int64
  foreignTable : String
  column : String
  /-- The referenced column; empty when the database leaves it open. -/
  foreignColumn : String
  deriving DecidableEq, Repr

def part? (r : Row) : Option Part := do
  let foreignTable ← textOf? r "table"
  let column ← textOf? r "from"
  return {
    id := numberOf r "id"
    seq := numberOf r "seq"
    foreignTable
    column
    foreignColumn := (textOf? r "to").getD "" }

/-- The foreign key that the parts of one id make up, in the order of their positions. -/
def ofParts (table : String) (parts : List Part) : Option ForeignKey :=
  let sorted := parts.mergeSort fun a b => a.seq ≤ b.seq
  sorted.head?.map fun first =>
    { table
      columns := sorted.map (·.column)
      foreignTable := first.foreignTable
      foreignColumns := sorted.map (·.foreignColumn) }

/-- The distinct ids in increasing order. -/
def ids (parts : List Part) : List Int64 :=
  ((parts.map (·.id)).eraseDups).mergeSort fun a b => a ≤ b

/-- The foreign keys that the rows tell: one per id, in the order of the ids. -/
def foreignKeys (table : String) (rows : List Row) : List ForeignKey :=
  let parts := rows.filterMap part?
  (ids parts).filterMap fun id => ofParts table (parts.filter (·.id == id))

end Sqlite

/-! ## a server with an information schema -/

namespace Postgres

def tablesSql : String :=
  "SELECT table_name FROM information_schema.tables WHERE table_schema = 'public' ORDER BY table_name"

def columnsSql : String :=
  "SELECT column_name, data_type, is_nullable
                   FROM information_schema.columns
                   WHERE table_name = $1 AND table_schema = 'public'
                   ORDER BY ordinal_position"

def primaryKeySql : String :=
  "SELECT kcu.column_name
                      FROM information_schema.table_constraints AS tc
                      JOIN information_schema.key_column_usage AS kcu
                          ON tc.constraint_name = kcu.constraint_name
                          AND tc.table_schema = kcu.table_schema
                      WHERE tc.constraint_type = 'PRIMARY KEY'
                          AND tc.table_name = $1
                          AND tc.table_schema = 'public'
                      ORDER BY kcu.ordinal_position"

def foreignKeysSql : String :=
  "SELECT
                       tc.constraint_name,
                       kcu.column_name,
                       ccu.table_name AS foreign_table_name,
                       ccu.column_name AS foreign_column_name
                   FROM information_schema.table_constraints AS tc
                   JOIN information_schema.key_column_usage AS kcu
                       ON tc.constraint_name = kcu.constraint_name
                       AND tc.table_schema = kcu.table_schema
                   JOIN information_schema.constraint_column_usage AS ccu
                       ON ccu.constraint_name = tc.constraint_name
                       AND ccu.table_schema = tc.table_schema
                   WHERE tc.constraint_type = 'FOREIGN KEY'
                       AND tc.table_name = $1
                       AND tc.table_schema = 'public'
                   ORDER BY tc.constraint_name, kcu.ordinal_position"

def column? (r : Row) : Option Column := do
  let name ← textOf? r "column_name"
  return {
    name
    sqlType := (textOf? r "data_type").getD ""
    nullable := textOf? r "is_nullable" == some "YES" }

def columns (rows : List Row) : List Column := rows.filterMap column?

def primaryKey (rows : List Row) : List String :=
  rows.filterMap fun r => textOf? r "column_name"

/-- One row of the foreign-key query: a constraint and one pair of its columns. -/
structure Part where
  constraint : String
  column : String
  foreignTable : String
  foreignColumn : String
  deriving DecidableEq, Repr

def part? (r : Row) : Option Part := do
  return {
    constraint := ← textOf? r "constraint_name"
    column := ← textOf? r "column_name"
    foreignTable := ← textOf? r "foreign_table_name"
    foreignColumn := ← textOf? r "foreign_column_name" }

/-- A part of the constraint read last extends it; any other starts a new key. -/
def addPart (table : String) (keys : List ForeignKey) (p : Part) : List ForeignKey :=
  match keys.getLast? with
  | some k =>
    if k.name = some p.constraint then
      keys.dropLast ++ [{ k with
        columns := k.columns ++ [p.column]
        foreignColumns := k.foreignColumns ++ [p.foreignColumn] }]
    else keys ++ [⟨some p.constraint, table, [p.column], p.foreignTable, [p.foreignColumn]⟩]
  | none => [⟨some p.constraint, table, [p.column], p.foreignTable, [p.foreignColumn]⟩]

/-- The foreign keys that the rows tell, in their order. -/
def foreignKeys (table : String) (rows : List Row) : List ForeignKey :=
  (rows.filterMap part?).foldl (addPart table) []

end Postgres

/-! ## asking a connection -/

variable {σ ρ : Type}

/-- The names of all tables. -/
def tableNames (source : Source) (c : Connection σ ρ) : Session σ ρ (List String) := do
  let sql := match source with
    | .sqlite => Sqlite.tablesSql
    | .postgres => Postgres.tablesSql
  return firstTexts (← c.query ⟨sql, []⟩)

/-- Columns and primary key of a table. -/
def columns (source : Source) (c : Connection σ ρ) (table : String) :
    Session σ ρ (List Column × List String) :=
  match source with
  | .sqlite => do return Sqlite.columns (← c.query ⟨Sqlite.columnsSql table, []⟩)
  | .postgres => do
    let columnRows ← c.query ⟨Postgres.columnsSql, [.text table]⟩
    let keyRows ← c.query ⟨Postgres.primaryKeySql, [.text table]⟩
    return (Postgres.columns columnRows, Postgres.primaryKey keyRows)

/-- Foreign keys of a table. -/
def foreignKeys (source : Source) (c : Connection σ ρ) (table : String) :
    Session σ ρ (List ForeignKey) :=
  match source with
  | .sqlite => do
    return Sqlite.foreignKeys table (← c.query ⟨Sqlite.foreignKeysSql table, []⟩)
  | .postgres => do
    return Postgres.foreignKeys table (← c.query ⟨Postgres.foreignKeysSql, [.text table]⟩)

/-- Everything about one table. -/
def tableInfo (source : Source) (c : Connection σ ρ) (table : String) : Session σ ρ TableInfo := do
  let (columns, primaryKey) ← columns source c table
  let foreignKeys ← foreignKeys source c table
  return { name := table, columns, primaryKey, foreignKeys }

/-- The whole catalogue, one table after the other. -/
def schema (source : Source) (c : Connection σ ρ) : Session σ ρ Schema := do
  let names ← tableNames source c
  names.foldlM (fun s name => return s.insert (← tableInfo source c name)) {}

end AssociationQuery.Introspection
