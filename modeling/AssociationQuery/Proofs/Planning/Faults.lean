import AssociationQuery.Proofs.Planning.Routes
import AssociationQuery.Proofs.Planning.Statements
import AssociationQuery.Proofs.Spelling.Rendering

/-!
# AssociationQuery.Proofs.Planning.Faults

What can be wrong with a request.

Planning looks at the nodes of a chain one by one: at the table that a node hangs from, at
the route of its association, at the name of its scope.  The statements that come of it fail
when two of their handles are in conflict or when a name cannot be looked up.
`ChainNode.Fault` lists the errors with what each of them says of the nodes, and
`Request.Fault` adds what can be wrong with aggregates and with the base statement.
-/

namespace AssociationQuery

open Text (Casing.sameIgnoringCase)

namespace ChainNode

/-- The node hangs from the table: from the base table, or from the one that the node above leads
to. -/
def HangsFrom (base : Table) (chain : List ChainNode) (n : ChainNode) (parent : Table) : Prop :=
  (n ∈ chain ∧ parent = base) ∨
    ∃ m ∈ everywhereAll chain, n ∈ m.children ∧ parent = m.association.destination

/-- The errors that a chain below a base table can lead to. -/
inductive Fault (config : Config) (base : Table) (chain : List ChainNode) :
    AssociationError → Prop
  /-- A node hangs from another table than its association starts from. -/
  | wrongParent {n : ChainNode} {parent : Table} (mem : n ∈ everywhereAll chain)
      (hangs : HangsFrom base chain n parent)
      (differs : Casing.sameIgnoringCase n.association.origin.name parent.name = false) :
      Fault config base chain
        (.wrongParent n.association.name n.association.origin.name parent.name)
  | aggregate (association : String) :
      Fault config base chain (.aggregateInAssociation association)
  | optionalPivot (association pivot : String) :
      Fault config base chain (.optionalPivot association pivot)
  | toManyBelowJoin (association : String) :
      Fault config base chain (.toManyBelowJoin association)
  /-- The name of a node is in use. -/
  | duplicateScope {n : ChainNode} (mem : n ∈ everywhereAll chain) :
      Fault config base chain (.duplicateScope n.key)
  /-- The table that a node hangs from lacks a key column of the node's route. -/
  | keyColumns {n : ChainNode} {parent : Table} {offset : Nat} {route : Route}
      {e : AssociationError} (mem : n ∈ everywhereAll chain)
      (hangs : HangsFrom base chain n parent) (check : n.check parent = .ok ())
      (along : n.association.routeFor n.requirement = .ok route)
      (lacks : Draft.parentKeyColumns n.association.name parent offset route.first = .error e) :
      Fault config base chain e
  /-- Two handles in the statement of a node are in conflict. -/
  | conflict {n : ChainNode} {route : Route} {d : Draft} {e : AssociationError}
      (mem : n ∈ everywhereAll chain)
      (separate : n.inclusion = .including ∧ n.association.isToMany)
      (along : n.association.routeFor n.requirement = .ok route)
      (planned : Draft.planNodes config (.base n.association.destination) n.children
        (.start config.numbering n.association.destination n.association.destination.width) = .ok d)
      (allocated : (d.prefetched n route).aliases.allocate = .error e) :
      Fault config base chain e
  /-- A name cannot be looked up. -/
  | lookup {e : AssociationError} (h : IsLookupFault e) : Fault config base chain e

end ChainNode

/-- The errors that a request can lead to. -/
inductive Request.Fault (config : Config) (r : Request) : AssociationError → Prop
  | chain {e : AssociationError}
      (h : ChainNode.Fault config r.table r.chain e) : Fault config r e
  /-- An aggregate ranges over an association that starts from another table. -/
  | aggregateBase {a : Association} (mem : a ∈ r.aggregates)
      (differs : Casing.sameIgnoringCase a.origin.name r.table.name = false) :
      Fault config r (.aggregateBase a.name a.origin.name r.table.name)
  /-- Two handles in the base statement are in conflict. -/
  | conflict {aggregates : List (Association × Slot)} {d : Draft} {e : AssociationError}
      (drafted : r.draft config = .ok (aggregates, d)) (allocated : d.aliases.allocate = .error e) :
      Fault config r e

/-! ## single steps -/

/-- The check for aggregates names the association. -/
theorem eq_of_rejectAggregates {association : String} {es : List Expr} {e : AssociationError}
    (h : rejectAggregates association es = .error e) : e = .aggregateInAssociation association := by
  unfold rejectAggregates at h
  split at h
  · exact (Except.error.inj h).symm
  · cases h

/-- A parent key names the first of its columns that the parent table lacks. -/
theorem eq_of_parentKeyColumns {association : String} {parent : Table} {offset : Nat} {first : Hop}
    {e : AssociationError}
    (h : Draft.parentKeyColumns association parent offset first = .error e) :
    ∃ p ∈ first.mapping, parent.columnIndex? p.1 = none ∧
      e = .missingColumn association p.1 parent.name := by
  obtain ⟨before, p, after, hmapping, -, he⟩ := exists_of_mapM_eq_error h
  have hp : p ∈ first.mapping := hmapping ▸ List.mem_append_right _ List.mem_cons_self
  split at he
  · cases he
  · next hnone => exact ⟨p, hp, hnone, (Except.error.inj he).symm⟩

/-- A route is missing only for a pivot that is optional below a required association. -/
theorem Association.exists_optionalPivot {requirement : Requirement} {e : AssociationError} :
    (a : Association) → a.routeFor requirement = .error e →
    ∃ association pivot, e = .optionalPivot association pivot
  | direct .., h => by
    rw [routeFor] at h
    cases h
  | through name pivot target filters order optionality, h => by
    simp only [routeFor, bind_eq_error] at h
    rcases h with h | ⟨q, -, h | ⟨_, -, h | ⟨_, -, h⟩⟩⟩
    · unfold pivotRequirement at h
      split at h
      · exact ⟨_, _, (Except.error.inj h).symm⟩
      · cases h
      · cases h
    · exact exists_optionalPivot pivot h
    · exact exists_optionalPivot target h
    · cases h

namespace ChainNode.Fault

variable {config : Config} {base : Table} {chain : List ChainNode} {e : AssociationError}

/-- A route that is missing is a fault. -/
theorem of_routeFor {requirement : Requirement} {a : Association}
    (h : a.routeFor requirement = .error e) : Fault config base chain e := by
  obtain ⟨association, pivot, rfl⟩ := a.exists_optionalPivot h
  exact .optionalPivot association pivot

/-- A plain route that is missing is a fault. -/
theorem of_plainRoute {requirement : Requirement} {a : Association}
    (h : plainRoute requirement a = .error e) : Fault config base chain e := by
  simp only [plainRoute, bind_eq_error] at h
  rcases h with h | ⟨route, -, h | ⟨_, -, h⟩⟩
  · exact .of_routeFor h
  · obtain rfl := eq_of_rejectAggregates h
    exact .aggregate _
  · cases h

/-- A node that does not belong where it hangs is a fault. -/
theorem of_check {n : ChainNode} {parent : Table} (mem : n ∈ everywhereAll chain)
    (hangs : HangsFrom base chain n parent) (h : n.check parent = .error e) :
    Fault config base chain e := by
  unfold check at h
  split at h
  · obtain rfl := eq_of_rejectAggregates h
    exact .aggregate _
  · next hdiffers =>
    obtain rfl := Except.error.inj h
    exact .wrongParent mem hangs (Bool.eq_false_iff.2 hdiffers)

/-- A name that is in use is a fault. -/
theorem of_claimScope {d : Draft} {scope : Nat} {n : ChainNode}
    (mem : n ∈ everywhereAll chain) (h : d.claimScope scope n.key = .error e) :
    Fault config base chain e := by
  unfold Draft.claimScope at h
  split at h
  · obtain rfl := Except.error.inj h
    exact .duplicateScope mem
  · cases h

end ChainNode.Fault

end AssociationQuery
