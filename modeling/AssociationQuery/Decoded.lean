import AssociationQuery.Layout
import AssociationQuery.Row.Reading
import AssociationQuery.Value.Key

/-!
# AssociationQuery.Decoded

Rows seen through the layout of their statement.

A row is kept whole and looked at scope by scope: a view is a row and the
position of a scope, and it shows that scope's columns only.  A scope that may
be empty and whose columns are all NULL is taken for absent.  Rows of other
statements are attached to a scope under a name.
-/

namespace AssociationQuery

structure DecodedRow where
  layout : Layout
  /-- The names of all columns, which one result set shares. -/
  names : List String
  /-- The row as it came. -/
  row : Row
  /-- Rows of other statements, by the scope they belong to and their name. -/
  prefetched : List ((Nat × String) × List DecodedRow) := []

/-! ## decoding -/

namespace Layout

/-- A row must have as many values as the layout has columns. -/
def checkWidth (l : Layout) (r : Row) : Except TypeError Unit :=
  if r.width = l.width then .ok ()
  else
    .error {
      expected := "row matching the compiled column layout"
      actual := s!"{r.width} columns, expected {l.width}" }

/-- A row with the given names for its columns. -/
def decodeAs (l : Layout) (names : List String) (r : Row) : Except TypeError DecodedRow :=
  (l.checkWidth r).map fun _ => { layout := l, names, row := r }

/-- One row on its own. -/
def decode (l : Layout) (r : Row) : Except TypeError DecodedRow := l.decodeAs r.columns r

/-- The rows of one result set; its first row names the columns. -/
def decodeAll (l : Layout) : List Row → Except TypeError (List DecodedRow)
  | [] => .ok []
  | first :: rest => (first :: rest).mapM (l.decodeAs first.columns)

end Layout

/-! ## views -/

/-- A look at one scope of a row. -/
structure ScopeView where
  decoded : DecodedRow
  scope : Nat

namespace ScopeView

/-- What the layout says about the scope. -/
def info (v : ScopeView) : Scope := v.decoded.layout.scope v.scope

def name (v : ScopeView) : String := v.info.name

def path (v : ScopeView) : String := v.info.path

/-- The values of the scope's own columns. -/
def values (v : ScopeView) : List Value := v.decoded.row.valuesIn v.info.range

/-- The scope's own columns as a row. -/
def unscoped (v : ScopeView) : Row := ⟨v.info.range.slice v.decoded.names, v.values⟩

/-- A column of the scope, read as a type. -/
def readNamed [FromValue α] (v : ScopeView) (column : String) : Except TypeError α :=
  v.unscoped.readNamed column

/-- Are all values of the scope NULL? -/
def isNull (v : ScopeView) : Bool := v.values.all Value.isNull

/-- The names of the scopes right below, in the order of their columns. -/
def scopeNames (v : ScopeView) : List String :=
  v.info.children.map fun c => (v.decoded.layout.scope c).name

/-- The scope of that name right below, unless it is absent. -/
def child? (v : ScopeView) (name : String) : Option ScopeView := do
  let i ← v.decoded.layout.child? v.scope name
  let child : ScopeView := ⟨v.decoded, i⟩
  if child.info.nullable && child.isNull then none else some child

/-- The rows attached to the scope under a name. -/
def prefetched (v : ScopeView) (name : String) : Option (List DecodedRow) :=
  v.decoded.prefetched.lookup (v.scope, name)

end ScopeView

namespace DecodedRow

/-- The view on the first scope. -/
def root (d : DecodedRow) : ScopeView := ⟨d, 0⟩

/-- The scope that is reached by a list of names from the first one on. -/
def descend (d : DecodedRow) (names : List String) : Option ScopeView :=
  names.foldlM ScopeView.child? d.root

/-- The scope with a path. -/
def scopedPath (d : DecodedRow) (path : String) : Option ScopeView :=
  d.descend (Layout.names path)

/-! ## pairing -/

/-- The keys of a list of values; none when one of them is NULL. -/
def keyOf (values : List Value) : Option (List ValueKey) := values.mapM Value.key

/-- The values in given columns; a column that is not there counts as NULL. -/
def valuesAt (d : DecodedRow) (columns : List Nat) : List Value :=
  columns.map fun i => (d.row.get? i).getD .null

/-- The key by which the row finds its parents. -/
def pairingKey (d : DecodedRow) : Option (List ValueKey) :=
  d.layout.pairing >>= fun s => keyOf (d.row.valuesIn s)

/-- Attach rows to a scope under a name. -/
def attach (d : DecodedRow) (scope : Nat) (name : String) (rows : List DecodedRow) : DecodedRow :=
  { d with prefetched := ((scope, name), rows) :: d.prefetched }

/-- The rows whose key is the given one, in their order; none for a missing key. -/
def matching (children : List DecodedRow) : Option (List ValueKey) → List DecodedRow
  | some key => children.filter fun c => c.pairingKey == some key
  | none => []

/-- Attach to every parent the children that have its key. -/
def pair (parents : List DecodedRow) (scope : Nat) (name : String) (keyColumns : List Nat)
    (children : List DecodedRow) : List DecodedRow :=
  parents.map fun p => p.attach scope name (matching children (keyOf (p.valuesAt keyColumns)))

end DecodedRow

end AssociationQuery
