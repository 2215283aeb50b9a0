import AssociationQuery.Chain.Request
import AssociationQuery.Plan.Chain

/-!
# AssociationQuery.Plan.Compile

From a request to its statements.

The base statement reads the base table, joins the chain, and then joins once
more, keeping every base row, each association that an aggregate ranges over.
Conditions with an aggregate move to HAVING; as soon as there is an aggregate or
a HAVING term the rows are grouped by the base row.
-/

namespace AssociationQuery

namespace Draft

/-! ## aggregates -/

/-- Join an association from the base table for the aggregates over it. -/
def joinAggregate (base : Table) (a : Association) (d : Draft) :
    Except AssociationError (Slot × Draft) := do
  if !Text.Casing.sameIgnoringCase a.origin.name base.name then
    throw (.aggregateBase a.name a.origin.name base.name)
  let route ← a.routeFor .optional
  return d.joinHops true [] root route.first route.rest

/-- Join every association of a list, each once. -/
def joinAggregates (base : Table) (joined : List (Association × Slot)) :
    List Association → Draft → Except AssociationError (List (Association × Slot) × Draft)
  | [], d => .ok (joined, d)
  | a :: rest, d => do
    if joined.any fun p => p.1.equal a then joinAggregates base joined rest d
    else
      let (slot, d) ← d.joinAggregate base a
      joinAggregates base (joined ++ [(a, slot)]) rest d

end Draft

namespace Request

/-- The associations that the aggregates of the request range over, as they occur in
its conditions, orderings and further columns. -/
def aggregates (r : Request) : List Association :=
  (r.filters ++ r.having ++ r.order.map OrderTerm.expr ++ r.annotations.map Prod.fst).flatMap
    Expr.aggregates

/-- Conditions on single base rows. -/
def rowFilters (r : Request) : List Expr := r.filters.filter fun e => !e.hasAggregate

/-- Conditions on groups: those with an aggregate first. -/
def groupFilters (r : Request) : List Expr := r.filters.filter Expr.hasAggregate ++ r.having

/-- The columns that tell base rows apart. -/
def identity (t : Table) : List String :=
  if t.primaryKey.isEmpty then t.columns else t.primaryKey

/-- The draft of the base statement, with the associations that its aggregates range
over and the last table of each. -/
def draft (config : Config) (r : Request) :
    Except AssociationError (List (Association × Slot) × Draft) := do
  let d := Draft.start config.numbering r.table (r.table.width + r.annotations.length)
  let d ← d.planNodes config (.base r.table) r.chain
  let (aggregates, d) ← d.joinAggregates r.table [] r.aggregates
  return (aggregates, d.register Draft.root r.aliases)

/-- The base statement, from its draft. -/
def statement (r : Request) (aliases : AliasMap) (aggregates : List (Association × Slot))
    (d : Draft) : Statement :=
  let grouped := !aggregates.isEmpty || !r.groupFilters.isEmpty
  { aliases
    aggregates
    hidden := d.hidden
    distinct := r.distinct
    select := .star Draft.root :: r.annotations.map (fun p => .expr p.1 Draft.root p.2)
      ++ d.stars.map .star
    table := r.table
    root := Draft.root
    joins := d.joins
    filters := conditionsOn Draft.root r.rowFilters ++ d.filters
    groupBy := if grouped then identity r.table else []
    having := conditionsOn Draft.root r.groupFilters
    order := r.order.map (·, Draft.root) ++ d.order
    limit := r.limit
    offset := r.offset }

/-- The base statement and the plans of the statements that follow it.  What is wrong
with the base statement is reported before what is wrong with the others. -/
def plan (config : Config) (r : Request) : Except AssociationError CompiledQuery := do
  let (aggregates, d) ← r.draft config
  let statement := r.statement (← d.aliases.allocate) aggregates d
  let text ← statement.bind config.dialect []
  let prefetches ← d.pending.mapM id
  return { root := ⟨text, d.layout⟩, prefetches }

/-- The statements of a request, under a valid configuration. -/
def compile (r : Request) (config : Config := {}) : Except Error CompiledQuery := do
  config.validate.mapError .config
  (r.plan config).mapError .association

end Request

end AssociationQuery
