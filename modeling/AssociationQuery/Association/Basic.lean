import AssociationQuery.Error.Association
import AssociationQuery.Expr.Basic

/-!
# AssociationQuery.Association.Basic

What an association is made of, and how one is refined.

An association never changes: adding a filter or an ordering, or giving it
another name, makes a new one.  A through association leads from the origin of
its pivot to the destination of its target, and it is to-many as soon as one of
its parts is.
-/

namespace AssociationQuery.Association

/-! ## parts -/

def name : Association → String
  | direct _ name .. => name
  | through name .. => name

def filters : Association → List Expr
  | direct _ _ _ _ _ filters _ _ => filters
  | through _ _ _ filters _ _ => filters

def order : Association → List OrderTerm
  | direct _ _ _ _ _ _ order _ => order
  | through _ _ _ _ order _ => order

/-- How the association is joined when it is the pivot of another one; by default
as that one is. -/
def optionality : Association → Option Requirement
  | direct _ _ _ _ _ _ _ optionality => optionality
  | through _ _ _ _ _ optionality => optionality

/-- The table that the association starts from. -/
def origin : Association → Table
  | direct _ _ origin .. => origin
  | through _ pivot .. => pivot.origin

/-- The table that the association leads to. -/
def destination : Association → Table
  | direct _ _ _ destination .. => destination
  | through _ _ target .. => target.destination

/-- Pairs of key columns, origin and destination; a through association has none
of its own. -/
def mapping : Association → List (String × String)
  | direct _ _ _ _ mapping .. => mapping
  | through .. => []

/-- The pivot and the target of a through association. -/
def parts? : Association → Option (Association × Association)
  | direct .. => none
  | through _ pivot target .. => some (pivot, target)

def cardinality : Association → Cardinality
  | direct .hasMany .. => .toMany
  | direct .. => .toOne
  | through _ pivot target .. =>
    if pivot.cardinality = .toMany ∨ target.cardinality = .toMany then .toMany else .toOne

def isToMany (a : Association) : Bool := a.cardinality = .toMany

def kind : Association → AssociationKind
  | direct kind .. => .direct kind
  | a@(through ..) => if a.cardinality = .toMany then .hasManyThrough else .hasOneThrough

/-! ## refinements -/

/-- The association with other filters and orderings. -/
def withTerms (fs : List Expr) (os : List OrderTerm) : Association → Association
  | direct k n o d m _ _ p => direct k n o d m fs os p
  | through n v t _ _ p => through n v t fs os p

/-- One more condition on rows of the destination. -/
def filter (a : Association) (e : Expr) : Association := a.withTerms (a.filters ++ [e]) a.order

/-- One more ordering of rows of the destination. -/
def orderBy (a : Association) (o : OrderTerm) : Association :=
  a.withTerms a.filters (a.order ++ [o])

/-- The association without filters and orderings of its own. -/
def bare (a : Association) : Association := a.withTerms [] []

/-- The association under another name. -/
def named (name : String) : Association → Association
  | direct k _ o d m fs os p => direct k name o d m fs os p
  | through _ v t fs os p => through name v t fs os p

/-- Settle how the association is joined as a pivot. -/
def withOptionality (r : Requirement) : Association → Association
  | direct k n o d m fs os _ => direct k n o d m fs os (some r)
  | through n v t fs os _ => through n v t fs os (some r)

def optional (a : Association) : Association := a.withOptionality .optional

def required (a : Association) : Association := a.withOptionality .required

/-! ## aggregates -/

/-- The number of associated rows, each counted once. -/
def count (a : Association) : Expr := .aggregate .count a none

/-- Is there no associated row? -/
def isEmpty (a : Association) : Expr := .aggregate .isEmpty a none

def sum (a : Association) (column : String) : Expr := .aggregate .sum a (some column)

def average (a : Association) (column : String) : Expr := .aggregate .average a (some column)

def min (a : Association) (column : String) : Expr := .aggregate .min a (some column)

def max (a : Association) (column : String) : Expr := .aggregate .max a (some column)

/-! ## associations through a pivot -/

/-- Join two associations; the target has to start where the pivot ends. -/
def joined (name : String) (pivot target : Association) :
    Except AssociationError Association :=
  if Text.Casing.sameIgnoringCase pivot.destination.name target.origin.name then
    .ok (through name pivot target [] [] none)
  else
    .error (.brokenThrough name pivot.name pivot.destination.name target.name target.origin.name)

/-- A to-one association through a pivot: both parts are to-one. -/
def hasOneThrough (name : String) (pivot target : Association) :
    Except AssociationError Association :=
  if pivot.isToMany || target.isToMany then
    .error (.toManyHop name pivot.name target.name)
  else joined name pivot target

/-- A to-many association through a pivot: some part is to-many. -/
def hasManyThrough (name : String) (pivot target : Association) :
    Except AssociationError Association :=
  if pivot.isToMany || target.isToMany then joined name pivot target
  else .error (.onlyToOneHops name pivot.name target.name)

end AssociationQuery.Association
