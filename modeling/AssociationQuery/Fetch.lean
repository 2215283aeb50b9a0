import AssociationQuery.Connection
import AssociationQuery.Query

/-!
# AssociationQuery.Fetch

Running a compiled query.

The base statement runs first.  Every plan then runs with the keys of its parent
rows, followed by the plans below it, and its rows are attached to the parents;
only then comes the next plan.  Without keys a plan's statement is not run: the
parents get no rows, and neither do the plans below it.
-/

namespace AssociationQuery

/-- Decoded base rows, and the statements that ran in their order. -/
structure Fetched where
  rows : List DecodedRow
  statements : List CompiledStatement

variable {σ ρ : Type}

/-- Run a statement and decode its rows. -/
def CompiledStatement.run (c : Connection σ ρ) (s : CompiledStatement) :
    Session σ ρ (List DecodedRow) := do
  let rows ← c.query s.text
  Session.ofExcept ((s.layout.decodeAll rows).mapError .type)

namespace PrefetchPlan

/-- The rows of a plan for its parents, and the statement if it ran. -/
def runFor (c : Connection σ ρ) (p : PrefetchPlan) (parents : List DecodedRow) :
    Session σ ρ (List DecodedRow × List CompiledStatement) :=
  match p.parentKeys parents with
  | [] => return ([], [])
  | keys => do
    let statement ← Session.ofExcept ((p.render keys).mapError .association)
    let rows ← statement.run c
    return (rows, [statement])

/-- The parents with the rows of a plan attached. -/
def attachTo (p : PrefetchPlan) (parents children : List DecodedRow) : List DecodedRow :=
  DecodedRow.pair parents p.parentScope p.name p.parentKeyColumns children

mutual

/-- Run a plan and all below it: the parents with their rows, and the statements
that ran. -/
def fetch (c : Connection σ ρ) :
    PrefetchPlan → List DecodedRow → Session σ ρ (List DecodedRow × List CompiledStatement)
  | ⟨name, parentScope, parentKeyColumns, dialect, statement, layout, children⟩, parents => do
    let p : PrefetchPlan :=
      ⟨name, parentScope, parentKeyColumns, dialect, statement, layout, children⟩
    let (rows, ran) ← p.runFor c parents
    let (rows, ranBelow) ← fetchEach c children rows
    return (p.attachTo parents rows, ran ++ ranBelow)

/-- Run plans with the same parents, one after the other. -/
def fetchEach (c : Connection σ ρ) :
    List PrefetchPlan → List DecodedRow → Session σ ρ (List DecodedRow × List CompiledStatement)
  | [], parents => return (parents, [])
  | p :: ps, parents => do
    let (parents, ran) ← fetch c p parents
    let (parents, ranAfter) ← fetchEach c ps parents
    return (parents, ran ++ ranAfter)

end

end PrefetchPlan

/-- Run a compiled query: its base rows with all associated rows attached. -/
def CompiledQuery.fetch (c : Connection σ ρ) (q : CompiledQuery) : Session σ ρ Fetched := do
  let rows ← q.root.run c
  let (rows, ran) ← PrefetchPlan.fetchEach c q.prefetches rows
  return ⟨rows, q.root :: ran⟩

end AssociationQuery
