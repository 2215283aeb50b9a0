import AssociationQuery.Alias.Basic
import AssociationQuery.Dialect
import AssociationQuery.Error
import AssociationQuery.Json.Parser
import AssociationQuery.Json.Record

/-!
# AssociationQuery.Config

What a caller may choose about the SQL of a compiled request: the dialect, how
repeated tables are numbered, and the name in front of the hidden columns by
which child rows find their parents.
-/

namespace AssociationQuery

structure Config where
  dialect : Dialect := .postgres
  numbering : AliasNumbering := .keepFirst
  /-- Pairing columns are called by this name and a number. -/
  pairingName : String := "__sqlassoc_key"
  deriving DecidableEq, Repr

namespace Config

/-- A configuration can be compiled with when the pairing name needs no quotes. -/
def validate (c : Config) : Except ConfigError Unit :=
  if Identifier.isPlainName c.pairingName then .ok () else .error (.pairingName c.pairingName)

/-! ## reading -/

open Json (Document)

def dialects : List (String × Dialect) :=
  [("Postgres", .postgres), ("Sqlite", .sqlite), ("Mysql", .mysql)]

def numberings : List (String × AliasNumbering) :=
  [("KeepFirst", .keepFirst), ("NumberAll", .numberAll)]

/-- A configuration record; absent fields have their defaults. -/
def ofDocument? (d : Document) : Option Config := do
  let r ← d.record? ["dialect", "alias_numbering", "pairing_prefix"]
  let default : Config := {}
  return {
    dialect := ← r.withDefault? "dialect" default.dialect (Document.word? dialects)
    numbering := ← r.withDefault? "alias_numbering" default.numbering (Document.word? numberings)
    pairingName := ← r.withDefault? "pairing_prefix" default.pairingName Document.string? }

/-- The valid configuration that a JSON text describes. -/
def ofText (text : String) : Except ConfigError Config :=
  match Document.ofText? text >>= ofDocument? with
  | some c => c.validate.map fun _ => c
  | none => .error .unreadable

end Config

end AssociationQuery
