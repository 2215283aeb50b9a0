/-!
# AssociationQuery.Error.Association

What can be wrong with an association graph.

Every constructor is one cause, found before any statement runs; `kind` sorts
the causes into the five classes that callers branch on and `message` words
them.  None depends on the database, so none goes away by trying again.
-/

namespace AssociationQuery

inductive AssociationErrorKind where
  /-- Two table instances would have the same name. -/
  | aliasConflict
  /-- The key columns of an association cannot be determined. -/
  | ambiguousForeignKey
  /-- The chain has a shape without one obvious meaning. -/
  | unsupportedChainShape
  /-- An expression names a table instance that the statement does not have. -/
  | undefinedAlias
  /-- The definition contradicts itself or the tables. -/
  | invalidAssociation
  deriving DecidableEq, Repr

inductive AssociationError where
  | aliasConflict (name : String)
  /-- A handle that is attached to no table of the statement. -/
  | undefinedAlias (shown : String)
  /-- A handle without a name of its own, outside of a statement. -/
  | unnamedAlias
  /-- A handle on a table that only exists inside a subquery. -/
  | hiddenAlias (shown : String)
  | aggregateOffBase (association : String)
  | aggregateOutsideRequest
  | aggregateInAssociation (association : String)
  | aggregateBase (association origin base : String)
  | keyLengths (association : String) (columns references : Nat)
  | unmatchedColumns (association : String) (columns : List String) (holder referenced : String)
  | noForeignKey (association holder referenced : String)
  | severalForeignKeys (association : String) (count : Nat) (holder referenced : String)
  | incompleteForeignKey (association holder referenced : String)
  | missingColumn (association column table : String)
  | toManyHop (association pivot target : String)
  | onlyToOneHops (association pivot target : String)
  | brokenThrough (association pivot pivotEnd target targetStart : String)
  | optionalPivot (association pivot : String)
  | wrongParent (association origin parent : String)
  | duplicateScope (key : String)
  | toManyBelowJoin (association : String)
  /-- An error worded by the caller. -/
  | stated (kind : AssociationErrorKind) (message : String)
  deriving DecidableEq, Repr

namespace AssociationError

def kind : AssociationError → AssociationErrorKind
  | aliasConflict _ => .aliasConflict
  | undefinedAlias _ | unnamedAlias => .undefinedAlias
  | hiddenAlias _ | aggregateOffBase _ | aggregateOutsideRequest | aggregateInAssociation _
  | optionalPivot .. | toManyBelowJoin _ => .unsupportedChainShape
  | unmatchedColumns .. | noForeignKey .. | severalForeignKeys .. | incompleteForeignKey .. =>
    .ambiguousForeignKey
  | aggregateBase .. | keyLengths .. | missingColumn .. | toManyHop .. | onlyToOneHops ..
  | brokenThrough .. | wrongParent .. | duplicateScope _ => .invalidAssociation
  | stated kind _ => kind

def message : AssociationError → String
  | aliasConflict name => s!"ambiguous alias: {name}"
  | undefinedAlias shown => s!"undefined alias: {shown}"
  | unnamedAlias => "undefined alias: unnamed alias outside of a compiled request"
  | hiddenAlias shown =>
    s!"alias {shown} names a required to-many association and is only visible inside its EXISTS subquery"
  | aggregateOffBase a => s!"aggregate over `{a}` is only supported on the base request"
  | aggregateOutsideRequest => "association aggregate outside of a compiled request"
  | aggregateInAssociation a =>
    s!"association `{a}`: aggregates are only supported on the base request"
  | aggregateBase a origin base =>
    s!"aggregate over `{a}` starts at {origin} but the request selects from {base}"
  | keyLengths a columns references =>
    s!"association `{a}`: foreign key has {columns} columns but references {references}"
  | unmatchedColumns a columns holder referenced =>
    let listed := ", ".intercalate columns
    s!"association `{a}`: columns ({listed}) of {holder} do not match a foreign key or the primary key of {referenced}"
  | noForeignKey a holder referenced =>
    s!"association `{a}`: no foreign key from {holder} to {referenced}"
  | severalForeignKeys a count holder referenced =>
    s!"association `{a}`: {count} foreign keys from {holder} to {referenced}; specify one explicitly"
  | incompleteForeignKey a holder referenced =>
    s!"association `{a}`: incomplete foreign key from {holder} to {referenced}"
  | missingColumn a column table =>
    s!"association `{a}`: column {column} not found in table {table}"
  | toManyHop a pivot target =>
    s!"has-one-through association `{a}` requires to-one hops, `{pivot}` and `{target}`"
  | onlyToOneHops a pivot target =>
    s!"has-many-through association `{a}` has only to-one hops, `{pivot}` and `{target}`; use has_one_through"
  | brokenThrough a pivot pivotEnd target targetStart =>
    s!"through association `{a}`: pivot `{pivot}` ends at {pivotEnd} but target `{target}` starts at {targetStart}"
  | optionalPivot a pivot =>
    s!"through association `{a}`: optional pivot `{pivot}` under a required association"
  | wrongParent a origin parent =>
    s!"association `{a}` starts at {origin} but is attached to {parent}"
  | duplicateScope key => s!"duplicate scope `{key}`"
  | toManyBelowJoin a =>
    s!"to-many association `{a}` cannot be included below a joined association"
  | stated _ message => message

end AssociationError

end AssociationQuery
