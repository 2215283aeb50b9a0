import AssociationQuery.Alias.Basic
import AssociationQuery.Error.Association
import AssociationQuery.Text.Casing

/-!
# AssociationQuery.Alias.Allocation

One name for every table instance of a statement, no two alike.

Instances are listed in the order in which the statement reads them, handles in
the order in which they claim their instance: those deeper in the chain first,
the base request last.  Claims are settled first, `claimAll`: a locked name
belongs to one instance and an instance has one locked name, and of two claims
that contradict each other the later one is reported.  Every other instance is
then named after its table, `derive`, with a number behind the name where it is
needed.  Names count as alike when their lower-case forms are equal.
-/

namespace AssociationQuery

open Text (Casing.lower)

/-- The table instances of a statement and the handles attached to them. -/
structure AliasRequests where
  numbering : AliasNumbering
  /-- The table that each instance reads. -/
  tables : List String := []
  /-- Handles and their instances, in the order of registration. -/
  registrations : List (Slot × TableAlias) := []
  deriving Repr

/-- The names chosen for one statement. -/
structure AliasMap where
  /-- The name of each instance. -/
  names : List String
  /-- The instance of each attached handle, by the handle's identity. -/
  handles : List (Nat × Slot)
  deriving Repr

namespace AliasMap

/-- The name of an instance. -/
def name (m : AliasMap) (slot : Slot) : String := m.names.getD slot.index ""

/-- The instance that a handle is attached to. -/
def slotOf? (m : AliasMap) (a : TableAlias) : Option Slot := m.handles.lookup a.id

/-- The name of the instance that a handle is attached to. -/
def resolve? (m : AliasMap) (a : TableAlias) : Option String := (m.slotOf? a).map m.name

end AliasMap

namespace AliasRequests

/-- One more table instance, last in order. -/
def addSlot (r : AliasRequests) (table : String) : Slot × AliasRequests :=
  (⟨r.tables.length⟩, { r with tables := r.tables ++ [table] })

/-- One more handle on an instance, last in order. -/
def attach (r : AliasRequests) (slot : Slot) (a : TableAlias) : AliasRequests :=
  { r with registrations := r.registrations ++ [(slot, a)] }

/-- The table that an instance reads. -/
def table (r : AliasRequests) (slot : Slot) : String := r.tables.getD slot.index ""

/-! ## claims -/

/-- What the handles seen so far have settled. -/
structure Claims where
  handles : List (Nat × Slot) := []
  /-- The locked name of each instance that has one. -/
  locked : List (Slot × String) := []
  deriving Repr

/-- Is the name alike to a locked one? -/
def Claims.isTaken (c : Claims) (name : String) : Bool :=
  c.locked.any fun l => Casing.lower l.2 == Casing.lower name

/-- Settle one handle.  A handle seen before must be on the same instance. -/
def claim (r : AliasRequests) (c : Claims) (slot : Slot) (a : TableAlias) :
    Except AssociationError Claims :=
  match c.handles.lookup a.id with
  | some previous =>
    if previous = slot then .ok c else .error (.aliasConflict (a.locked.getD (r.table slot)))
  | none =>
    let handles := (a.id, slot) :: c.handles
    match a.locked with
    | none => .ok { c with handles }
    | some name =>
      match c.locked.lookup slot with
      | some existing =>
        if existing = name then .ok { c with handles } else .error (.aliasConflict name)
      | none =>
        if c.isTaken name then .error (.aliasConflict name)
        else .ok ⟨handles, (slot, name) :: c.locked⟩

/-- Settle all handles in their order. -/
def claimAll (r : AliasRequests) : Except AssociationError Claims :=
  r.registrations.foldlM (fun c (slot, a) => r.claim c slot a) {}

/-! ## derived names -/

/-- The table's name with the least number, from one, that makes it free.  As
many numbers are tried as there are names taken, and one more. -/
def numbered (taken : List String) (table : String) : String :=
  let candidates := (List.range (taken.length + 1)).map fun n => table ++ toString (n + 1)
  (candidates.find? fun name => !taken.contains (Casing.lower name)).getD table

/-- A name for an instance without a locked one.  `repeated` tells whether other
such instances read a table of that name. -/
def derive (numbering : AliasNumbering) (repeated : Bool) (taken : List String)
    (table : String) : String :=
  let free := !taken.contains (Casing.lower table)
  let bare := match numbering with
    | .keepFirst => free
    | .numberAll => free && !repeated
  if bare then table else numbered taken table

/-- Names for the instances in their order, given the locked name of each and
the lower-case forms of the names already taken. -/
def deriveAll (numbering : AliasNumbering) (isRepeated : String → Bool) :
    List String → List (String × Option String) → List String
  | _, [] => []
  | taken, (_, some name) :: rest => name :: deriveAll numbering isRepeated taken rest
  | taken, (table, none) :: rest =>
    let name := derive numbering (isRepeated table) taken table
    name :: deriveAll numbering isRepeated (Casing.lower name :: taken) rest

/-- Each instance's table with its locked name. -/
def withLocked (r : AliasRequests) (c : Claims) : List (String × Option String) :=
  r.tables.mapIdx fun i table => (table, c.locked.lookup ⟨i⟩)

/-- Do several instances without a locked name read a table of that name? -/
def isRepeated (instances : List (String × Option String)) (table : String) : Bool :=
  1 < instances.countP fun s => s.2.isNone && Casing.lower s.1 == Casing.lower table

/-- A name for every instance, or the first contradiction among the handles. -/
def allocate (r : AliasRequests) : Except AssociationError AliasMap := do
  let claims ← r.claimAll
  let instances := r.withLocked claims
  let taken := claims.locked.map fun l => Casing.lower l.2
  return ⟨deriveAll r.numbering (isRepeated instances) taken instances, claims.handles⟩

end AliasRequests

end AssociationQuery
