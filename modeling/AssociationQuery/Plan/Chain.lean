import AssociationQuery.Plan.Existence

/-!
# AssociationQuery.Plan.Chain

From the nodes of a chain to joins, scopes and plans of further statements.

A to-one association, and every association that only filters, is joined.  An
included to-many association is fetched by a statement of its own: it leaves a
mark on the scope of its parent and, when it is required, the condition that an
associated row exists.

The further statement reads the associated table, joins what hangs below the
node, and walks back along the route to the table whose columns refer to the
parent: by these it is filtered, and it returns them as its last columns.
-/

namespace AssociationQuery

/-- The table that a node hangs from. -/
structure Anchor where
  slot : Slot
  table : Table
  /-- Is the table joined such that rows without a match are kept? -/
  left : Bool
  /-- The innermost scope around. -/
  scope : Nat
  /-- Does the table only filter? -/
  joining : Bool

/-- The base table of a statement. -/
def Anchor.base (table : Table) : Anchor where
  slot := Draft.root
  table
  left := false
  scope := 0
  joining := false

namespace Draft

/-! ## joining along a route -/

/-- Join the hops of a route one after the other; `refine` holds further filters on
the last table.  From the first optional hop on rows without a match are kept,
and from the first hop on if `left` says so.  Gives the last table instance. -/
def joinHops (left : Bool) (refine : List Expr) (previous : Slot) :
    Hop → List Hop → Draft → Slot × Draft
  | h, rest, d =>
    let left := left || h.isOptional
    let kind := JoinKind.keeping left
    let (slot, d) := d.addSlot h.destination
    match rest with
    | [] =>
      (slot, d.addJoin (.mk kind slot h.destination
        (h.keys slot previous :: conditionsOn slot (h.filters ++ refine))))
    | g :: gs =>
      joinHops left refine slot g gs (d.addJoin (.mk kind slot h.destination
        (h.keys slot previous :: conditionsOn slot h.filters)))

/-! ## statements of their own -/

/-- The columns of the parent rows that hold the key of a route. -/
def parentKeyColumns (association : String) (parent : Table) (offset : Nat) (first : Hop) :
    Except AssociationError (List Nat) :=
  first.mapping.mapM fun p =>
    match parent.columnIndex? p.1 with
    | some i => .ok (offset + i)
    | none => .error (.missingColumn association p.1 parent.name)

/-- Join the tables from the last but one of a route back to the first.  `later` is
the hop after the ones still to join, which are listed backwards.  Gives the
first table. -/
def joinBack (previous : Slot) (later : Hop) : List Hop → Draft → Slot × Draft
  | [], d => (previous, d)
  | h :: rest, d =>
    let (slot, d) := d.addSlot h.destination
    let on := .keys slot previous later.mapping :: conditionsOn slot h.filters
    joinBack slot h rest (d.addJoin (.mk .inner slot h.destination on))

/-- The draft of the statement that fetches the rows of a node, with the table that
refers to the parent, given what the children of the node add. -/
def prefetchDraft (config : Config) (n : ChainNode) (route : Route)
    (planChildren : Draft → Except AssociationError Draft) :
    Except AssociationError (Slot × Draft) := do
  let (last, before) := route.backwards
  let table := last.destination
  let d ← planChildren (.start config.numbering table table.width)
  let (keySlot, d) := joinBack root last before d
  return (keySlot, d.register root n.aliases)

/-- The pairing columns: the key columns of a table, named and numbered. -/
def pairingColumns (name : String) (slot : Slot) (columns : List String) : List SelectItem :=
  columns.mapIdx fun i c => .column slot c s!"{name}_{i}"

/-- The statement that fetches the rows of a node, from its draft. -/
def prefetchStatement (config : Config) (n : ChainNode) (route : Route) (keySlot : Slot)
    (aliases : AliasMap) (d : Draft) : Statement :=
  let last := route.backwards.1
  let keyColumns := route.first.mapping.map Prod.snd
  { aliases
    hidden := d.hidden
    select := .star root :: d.stars.map .star
      ++ pairingColumns config.pairingName keySlot keyColumns
    table := last.destination
    root
    joins := d.joins
    keyFilter := some ⟨keySlot, keyColumns⟩
    filters := conditionsOn root (last.filters ++ n.filters) ++ d.filters
    order := (route.order ++ n.order).map (·, root) ++ d.order }

/-- The plan of the statement that fetches the rows of a node.  The statement is
rendered once, so that what is wrong with it shows before any statement runs. -/
def prefetchPlan (config : Config) (n : ChainNode) (parentScope offset : Nat) (parent : Table)
    (planChildren : Draft → Except AssociationError Draft) :
    Except AssociationError PrefetchPlan := do
  let route ← n.association.routeFor n.requirement
  let parentKeyColumns ← parentKeyColumns n.association.name parent offset route.first
  let (keySlot, d) ← prefetchDraft config n route planChildren
  let statement := d.prefetchStatement config n route keySlot (← d.aliases.allocate)
  discard (statement.render config.dialect [])
  let children ← d.pending.mapM id
  return {
    name := n.key
    parentScope
    parentKeyColumns
    dialect := config.dialect
    statement
    layout := d.layout.pushPairing route.first.mapping.length
    children }

/-! ## nodes -/

/-- Leave an included to-many node to a statement of its own. -/
def planSeparate (config : Config) (anchor : Anchor) (n : ChainNode)
    (planChildren : Draft → Except AssociationError Draft) (d : Draft) :
    Except AssociationError Draft := do
  if anchor.joining then throw (.toManyBelowJoin n.association.name)
  d.claimScope anchor.scope n.key
  let d ←
    if n.requirement = .required then do
      let (q, d) ← d.existence anchor.slot n
      pure (d.addCondition anchor.slot (.existence q))
    else pure d
  let offset := (d.layout.scope anchor.scope).range.start
  let plan := prefetchPlan config n anchor.scope offset anchor.table planChildren
  return { d with
    layout := d.layout.pushPrefetched anchor.scope n.key
    pending := d.pending ++ [plan] }

/-- Join a node, without its children.  Gives the table that these hang from. -/
def planJoined (anchor : Anchor) (n : ChainNode) (d : Draft) :
    Except AssociationError (Anchor × Draft) := do
  let route ← plainRoute n.requirement n.association
  let left := anchor.left || route.hops.any Hop.isOptional
  let (slot, d) := d.joinHops anchor.left n.filters anchor.slot route.first route.rest
  let d := d.addOrder slot (route.order ++ n.order)
  let table := n.association.destination
  match n.inclusion with
  | .joining => return ({ slot, table, left, scope := anchor.scope, joining := true }, d)
  | .including =>
    d.claimScope anchor.scope n.key
    let scope := d.layout.scopes.length
    return ({ slot, table, left, scope, joining := false },
      { d with
        stars := d.stars ++ [slot]
        layout := d.layout.pushScope anchor.scope n.key table.width left })

mutual

/-- Add a node and all below it to a draft. -/
def planNode (config : Config) (anchor : Anchor) :
    ChainNode → Draft → Except AssociationError Draft
  | ⟨association, key, inclusion, requirement, filters, order, aliases, children⟩, d => do
    let n : ChainNode := ⟨association, key, inclusion, requirement, filters, order, aliases, children⟩
    n.check anchor.table
    if inclusion = .including ∧ association.isToMany then
      d.planSeparate config anchor n (planNodes config (.base association.destination) children)
    else
      let (below, d) ← d.planJoined anchor n
      let d ← planNodes config below children d
      return d.register below.slot aliases

/-- Add nodes to a draft, one after the other. -/
def planNodes (config : Config) (anchor : Anchor) :
    List ChainNode → Draft → Except AssociationError Draft
  | [], d => .ok d
  | n :: rest, d => do
    let d ← planNode config anchor n d
    planNodes config anchor rest d

end

end Draft

end AssociationQuery
