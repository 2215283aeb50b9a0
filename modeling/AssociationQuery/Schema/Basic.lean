import AssociationQuery.Error
import AssociationQuery.Json.Basic
import AssociationQuery.Table

/-!
# AssociationQuery.Schema.Basic

A catalogue of tables with their columns and keys, from which associations find
out how their tables are joined.

A table is looked up by its very name first and up to the case of ASCII letters
second.  A foreign key may leave open which columns it references; then it means
the primary key of the table it references.
-/

namespace AssociationQuery

open Text (Casing.sameIgnoringCase)

/-- A foreign key: `columns` on `table` reference `foreignColumns` on
`foreignTable`, pairwise. -/
structure ForeignKey where
  /-- The name of the constraint, where the database reports one. -/
  name : Option String := none
  table : String
  columns : List String
  foreignTable : String
  /-- An empty name leaves the referenced column open. -/
  foreignColumns : List String
  deriving DecidableEq, Repr

/-- Are these the referencing columns, in this order? -/
def ForeignKey.hasColumns (k : ForeignKey) (columns : List String) : Bool :=
  k.columns.length == columns.length
    && (k.columns.zip columns).all fun p => Casing.sameIgnoringCase p.1 p.2

/-- The referencing and the referenced columns side by side. -/
def ForeignKey.pairs (k : ForeignKey) : List (String × String) := k.columns.zip k.foreignColumns

structure Column where
  name : String
  /-- The type as the database spells it. -/
  sqlType : String := ""
  nullable : Bool := true
  deriving DecidableEq, Repr

/-- What the catalogue knows about one table. -/
structure TableInfo where
  name : String
  columns : List Column
  primaryKey : List String := []
  foreignKeys : List ForeignKey := []
  deriving DecidableEq, Repr

namespace TableInfo

/-- A table with columns of unknown type that may hold NULL. -/
def ofColumns (name : String) (columns : List String) : TableInfo :=
  { name, columns := columns.map fun c => { name := c } }

/-- Set the primary key; its columns hold no NULL. -/
def withPrimaryKey (t : TableInfo) (key : List String) : TableInfo :=
  { t with
    primaryKey := key
    columns := t.columns.map fun c => { c with nullable := c.nullable && !key.contains c.name } }

/-- Declare a foreign key on the table. -/
def withForeignKey (t : TableInfo) (columns : List String) (foreignTable : String)
    (foreignColumns : List String) (name : Option String) : TableInfo :=
  { t with
    foreignKeys := t.foreignKeys ++ [⟨name, t.name, columns, foreignTable, foreignColumns⟩] }

/-- The column of that name. -/
def column? (t : TableInfo) (name : String) : Option Column := t.columns.find? (·.name == name)

end TableInfo

/-- A catalogue: tables by name, in the order of the names. -/
structure Schema where
  tables : List (String × TableInfo) := []
  deriving DecidableEq, Repr

namespace Schema

/-- Add a table; it replaces the table of the same name. -/
def insert (s : Schema) (t : TableInfo) : Schema := ⟨Json.insertMember t.name t s.tables⟩

/-- A table that is put into a schema is found under its name; the others are found as before. -/
theorem lookup_insert (s : Schema) (t : TableInfo) (name : String) :
    (s.insert t).tables.lookup name = if name = t.name then some t else s.tables.lookup name :=
  Json.lookup_insertMember ..

def tableNames (s : Schema) : List String := s.tables.map Prod.fst

/-- The table of that very name, else the first whose name differs in case only. -/
def table? (s : Schema) (name : String) : Option TableInfo :=
  s.tables.lookup name
    <|> (s.tables.map Prod.snd).find? fun t => Casing.sameIgnoringCase t.name name

/-- The table that a name stands for. -/
def require (s : Schema) (name : String) : Except Error TableInfo :=
  match s.table? name with
  | some t => .ok t
  | none => .error (.schema (.tableNotFound name))

def columns (s : Schema) (table : String) : Except Error (List String) := do
  return (← s.require table).columns.map (·.name)

def primaryKey (s : Schema) (table : String) : Except Error (List String) := do
  return (← s.require table).primaryKey

/-- Complete a key that leaves every referenced column open with a primary key of
as many columns. -/
def completeKey (primaryKey : List String) (k : ForeignKey) : ForeignKey :=
  if k.foreignColumns.all String.isEmpty && primaryKey.length == k.columns.length then
    { k with foreignColumns := primaryKey }
  else k

/-- The foreign keys declared on one table that reference another.  The other
table is looked up only when some key leaves a referenced column open. -/
def foreignKeys (s : Schema) (holder referenced : String) : Except Error (List ForeignKey) := do
  let t ← s.require holder
  let keys := t.foreignKeys.filter fun k => Casing.sameIgnoringCase k.foreignTable referenced
  if keys.any fun k => k.foreignColumns.any String.isEmpty then
    let key ← s.primaryKey referenced
    return keys.map (completeKey key)
  else return keys

/-- A table's name as given, with its columns and primary key. -/
def describe (s : Schema) (name : String) : Except Error Table := do
  let columns ← s.columns name
  let primaryKey ← s.primaryKey name
  return { name, columns, primaryKey }

end Schema

end AssociationQuery
