import AssociationQuery.Row

/-!
# AssociationQuery.Layout

How the columns of a statement's rows fall into scopes.

The first scope is the base table with its further columns; every included
to-one association adds a scope after the columns so far, below the scope it
belongs to.  Statements that fetch associated rows end in columns that no scope
owns: by them the rows find their parents.
-/

namespace AssociationQuery

/-- A named range of columns. -/
structure Scope where
  /-- The names from the first scope down to this one, with dots between them. -/
  path : String
  name : String
  /-- The scope's own columns. -/
  range : Span
  /-- May there be no row behind the scope? -/
  nullable : Bool
  parent : Option Nat
  /-- The scopes right below this one. -/
  children : List Nat := []
  /-- The names under which later statements add rows to the scope. -/
  prefetched : List String := []
  deriving DecidableEq, Repr, Inhabited

structure Layout where
  /-- Every scope after the scope it lies below. -/
  scopes : List Scope
  pairing : Option Span := none
  /-- The number of columns. -/
  width : Nat
  deriving DecidableEq, Repr

namespace Layout

/-- A layout of one scope. -/
def ofWidth (width : Nat) : Layout where
  scopes := [{ path := "", name := "", range := ⟨0, width⟩, nullable := false, parent := none }]
  width

/-! ## looking up -/

/-- The scope at a position. -/
def scope (l : Layout) (i : Nat) : Scope := l.scopes.getD i default

/-- The first scope. -/
def root (l : Layout) : Scope := l.scope 0

/-- The position of the scope with a path. -/
def find? (l : Layout) (path : String) : Option Nat := l.scopes.findIdx? (·.path == path)

/-- The position of the scope of that name right below another one. -/
def child? (l : Layout) (parent : Nat) (name : String) : Option Nat :=
  match l.scopes[parent]? with
  | some s => s.children.find? fun c => (l.scope c).name == name
  | none => none

/-- Is the name in use below the scope, by a scope or by rows added later? -/
def isTaken (l : Layout) (parent : Nat) (name : String) : Bool :=
  (l.child? parent name).isSome || (l.scope parent).prefetched.contains name

/-- The path of every scope with its columns. -/
def ranges (l : Layout) : List (String × Span) := l.scopes.map fun s => (s.path, s.range)

/-! ## building -/

/-- The path of a scope below another one. -/
def pathBelow (parent : String) (name : String) : String :=
  if parent.isEmpty then name else parent ++ "." ++ name

/-- Add a scope after all columns so far.  Its position is the number of scopes
before. -/
def pushScope (l : Layout) (parent : Nat) (name : String) (width : Nat) (nullable : Bool) :
    Layout where
  scopes :=
    l.scopes.modify parent (fun s => { s with children := s.children ++ [l.scopes.length] })
      ++ [{ path := pathBelow (l.scope parent).path name
            name
            range := ⟨l.width, l.width + width⟩
            nullable
            parent := some parent }]
  pairing := l.pairing
  width := l.width + width

/-- A scope more. -/
theorem length_scopes_pushScope (l : Layout) (parent : Nat) (name : String) (width : Nat)
    (nullable : Bool) :
    (l.pushScope parent name width nullable).scopes.length = l.scopes.length + 1 := by
  simp [pushScope]

/-- Announce rows that a later statement adds to a scope. -/
def pushPrefetched (l : Layout) (parent : Nat) (name : String) : Layout :=
  { l with
    scopes := l.scopes.modify parent fun s => { s with prefetched := s.prefetched ++ [name] } }

/-- Announced rows take no columns. -/
theorem ranges_pushPrefetched (l : Layout) (parent : Nat) (name : String) :
    (l.pushPrefetched parent name).ranges = l.ranges := by
  simp only [pushPrefetched, ranges]
  apply List.ext_getElem <;> simp [List.getElem_modify]
  grind

/-- Add the pairing columns after all others. -/
def pushPairing (l : Layout) (width : Nat) : Layout :=
  { l with pairing := some ⟨l.width, l.width + width⟩, width := l.width + width }

/-! ## paths -/

/-- The names that a path is made of: the text between its dots. -/
def segments : List Char → List (List Char)
  | [] => [[]]
  | c :: cs =>
    if c = '.' then [] :: segments cs
    else match segments cs with
      | [] => [[c]]
      | s :: rest => (c :: s) :: rest

/-- The names that a path is made of. -/
def names (path : String) : List String := (segments path.toList).map String.ofList

end Layout

end AssociationQuery
