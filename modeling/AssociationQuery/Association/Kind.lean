/-!
# AssociationQuery.Association.Kind

The kinds of associations, and what a chain or an aggregate asks of one.
-/

namespace AssociationQuery

/-- The kind of an association between two tables. -/
inductive DirectKind where
  /-- The origin holds the foreign key. -/
  | belongsTo
  /-- The destination holds the foreign key, in at most one row. -/
  | hasOne
  /-- The destination holds the foreign key, in any number of rows. -/
  | hasMany
  deriving DecidableEq, Repr

inductive AssociationKind where
  | direct (kind : DirectKind)
  | hasOneThrough
  | hasManyThrough
  deriving DecidableEq, Repr

/-- How many rows of the destination belong to one row of the origin. -/
inductive Cardinality where
  | toOne
  | toMany
  deriving DecidableEq, Repr

/-- Must a row have an associated row to be returned? -/
inductive Requirement where
  | required
  | optional
  deriving DecidableEq, Repr

/-- What is computed over the rows that an association reaches. -/
inductive AggregateFunction where
  | count
  | isEmpty
  | sum
  | average
  | min
  | max
  deriving DecidableEq, Repr

end AssociationQuery
