import AssociationQuery.Json.Parser
import AssociationQuery.Json.Record
import AssociationQuery.Schema.Basic

/-!
# AssociationQuery.Schema.Document

Catalogues as JSON: records for tables, columns and foreign keys, and an object
of tables by name.
-/

namespace AssociationQuery

open Json (Document)

/-! ## reading -/

private def strings? : Document → Option (List String) := Document.list? Document.string?

def Column.ofDocument? (d : Document) : Option Column := do
  let r ← d.record? ["name", "sql_type", "nullable"]
  return {
    name := ← r.required? "name" Document.string?
    sqlType := ← r.required? "sql_type" Document.string?
    nullable := ← r.required? "nullable" Document.bool? }

def ForeignKey.ofDocument? (d : Document) : Option ForeignKey := do
  let r ← d.record? ["name", "table", "columns", "foreign_table", "foreign_columns"]
  return {
    name := ← r.nullable? "name" Document.string?
    table := ← r.required? "table" Document.string?
    columns := ← r.required? "columns" strings?
    foreignTable := ← r.required? "foreign_table" Document.string?
    foreignColumns := ← r.required? "foreign_columns" strings? }

def TableInfo.ofDocument? (d : Document) : Option TableInfo := do
  let r ← d.record? ["name", "columns", "primary_key", "foreign_keys"]
  return {
    name := ← r.required? "name" Document.string?
    columns := ← r.required? "columns" (Document.list? Column.ofDocument?)
    primaryKey := ← r.required? "primary_key" strings?
    foreignKeys := ← r.required? "foreign_keys" (Document.list? ForeignKey.ofDocument?) }

def Schema.ofDocument? (d : Document) : Option Schema := do
  let r ← d.record? ["tables"]
  return ⟨← r.required? "tables" (Document.map? TableInfo.ofDocument?)⟩

/-- The catalogue that a JSON text describes. -/
def Schema.ofText? (text : String) : Option Schema := Document.ofText? text >>= Schema.ofDocument?

/-! ## writing -/

private def stringsJson (ss : List String) : Json := .array (ss.map .string)

def Column.toJson (c : Column) : Json :=
  .ofMembers [
    ("name", .string c.name),
    ("sql_type", .string c.sqlType),
    ("nullable", .bool c.nullable)]

def ForeignKey.toJson (k : ForeignKey) : Json :=
  .ofMembers [
    ("name", k.name.elim .null .string),
    ("table", .string k.table),
    ("columns", stringsJson k.columns),
    ("foreign_table", .string k.foreignTable),
    ("foreign_columns", stringsJson k.foreignColumns)]

def TableInfo.toJson (t : TableInfo) : Json :=
  .ofMembers [
    ("name", .string t.name),
    ("columns", .array (t.columns.map Column.toJson)),
    ("primary_key", stringsJson t.primaryKey),
    ("foreign_keys", .array (t.foreignKeys.map ForeignKey.toJson))]

def Schema.toJson (s : Schema) : Json :=
  .ofMembers [("tables", .ofMembers (s.tables.map fun t => (t.1, t.2.toJson)))]

end AssociationQuery
