import AssociationQuery.Error.Association
import AssociationQuery.Text.Quoted

/-!
# AssociationQuery.Error

Everything that can go wrong between a request and its rows: an inconsistent
association graph, a failing connection or statement, a value of the wrong type,
a schema or a configuration that does not fit.

Each class of error has its wording in one function; `Error.message` puts the
name of the class in front.
-/

namespace AssociationQuery

inductive ConnectionErrorKind where
  | connect
  | disconnected
  | poolExhausted
  deriving DecidableEq, Repr

structure ConnectionError where
  kind : ConnectionErrorKind
  message : String
  /-- The text of the error behind this one. -/
  source : Option String := none
  deriving DecidableEq, Repr

inductive QueryErrorKind where
  | malformed
  | constraint
  | notFound
  | deadlock
  /-- Two transactions could not be put in an order. -/
  | serialization
  | timeout
  | database
  deriving DecidableEq, Repr

structure QueryError where
  kind : QueryErrorKind
  message : String
  sql : Option String := none
  sqlstate : Option String := none
  source : Option String := none
  deriving DecidableEq, Repr

/-- A value or row that is not of the expected type. -/
structure TypeError where
  expected : String
  actual : String
  column : Option String := none
  deriving DecidableEq, Repr

inductive SchemaErrorKind where
  | tableNotFound
  | columnNotFound
  | invalid
  deriving DecidableEq, Repr

structure SchemaError where
  kind : SchemaErrorKind
  message : String
  deriving DecidableEq, Repr

inductive ConfigError where
  /-- The text of the configuration cannot be read. -/
  | unreadable
  /-- The name in front of pairing columns is not made of plain characters. -/
  | pairingName (given : String)
  /-- An error worded by the caller. -/
  | stated (message : String) (source : Option String)
  deriving DecidableEq, Repr

inductive Error where
  | association (e : AssociationError)
  | connection (e : ConnectionError)
  | query (e : QueryError)
  | type (e : TypeError)
  | schema (e : SchemaError)
  | config (e : ConfigError)
  | cancelled
  | custom (message : String)
  deriving DecidableEq, Repr

/-! ## wording -/

def TypeError.message (e : TypeError) : String :=
  match e.column with
  | some column => s!"expected {e.expected} for column '{column}', found {e.actual}"
  | none => s!"expected {e.expected}, found {e.actual}"

def SchemaError.tableNotFound (name : String) : SchemaError :=
  ⟨.tableNotFound, s!"table not found: {name}"⟩

def ConfigError.message : ConfigError → String
  | unreadable => "invalid compiler configuration"
  | pairingName given =>
    let shown := Text.Quoted.quoted given
    s!"pairing prefix must be a non-empty identifier, got {shown}"
  | stated message _ => message

namespace Error

def message : Error → String
  | association e => e.message
  | connection e => s!"Connection error: {e.message}"
  | query e =>
    match e.sqlstate with
    | some state => s!"Query error (SQLSTATE {state}): {e.message}"
    | none => s!"Query error: {e.message}"
  | type e => s!"Type error: {e.message}"
  | schema e => s!"Schema error: {e.message}"
  | config e => s!"Configuration error: {e.message}"
  | cancelled => "Operation cancelled"
  | custom message => message

/-! ## questions about an error -/

/-- May the same operation succeed when tried again? -/
def isRetryable : Error → Bool
  | query e => e.kind = .deadlock ∨ e.kind = .serialization ∨ e.kind = .timeout
  | connection e => e.kind = .poolExhausted
  | _ => false

/-- The class of an association error. -/
def associationKind : Error → Option AssociationErrorKind
  | association e => some e.kind
  | _ => none

/-- The statement that failed. -/
def sql : Error → Option String
  | query e => e.sql
  | _ => none

/-- The text of the error behind this one. -/
def source : Error → Option String
  | association e => some e.message
  | connection e => e.source
  | query e => e.source
  | config (.stated _ source) => source
  | _ => none

end Error

end AssociationQuery
