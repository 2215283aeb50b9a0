import AssociationQuery.Proofs.Meaning.Semantics
import AssociationQuery.Proofs.Planning.Joins
import AssociationQuery.Proofs.Planning.Routes

/-!
# AssociationQuery.Proofs.Meaning.Associations

What it means that a row has an associated row.

A route leads from row to row by key columns and filters, and a required node asks
for a row at its end with which the required nodes below are content in turn.  The
same rows are found by going along the route or by coming back from its end.
-/

namespace AssociationQuery

/-! ## routes -/

namespace Hop

/-- The row belongs to the hop's table and meets the hop's filters. -/
structure Stands (db : Database) (h : Hop) (r : TableRow) : Prop where
  table : r.table = h.destination
  row : r.values ∈ db.rows h.destination.name
  filters : ∀ e ∈ h.filters, db.holds e r = some true

/-- The key columns of a row before the hop and of a row behind it are equal. -/
def Linked (db : Database) (h : Hop) (origin r : TableRow) : Prop :=
  ∀ p ∈ h.mapping, db.sameKey (r.value p.2) (origin.value p.1) = some true

/-- Hops lead from one row to another. -/
def LeadsAll (db : Database) : List Hop → TableRow → TableRow → Prop
  | [], origin, target => origin = target
  | h :: rest, origin, target =>
    ∃ r, h.Linked db origin r ∧ h.Stands db r ∧ LeadsAll db rest r target

/-- Hops that are listed backwards, the one before `later` first, lead back from a row behind
`later` to a row behind the first of them all. -/
def LeadsBack (db : Database) : Hop → TableRow → List Hop → TableRow → Prop
  | _, target, [], first => first = target
  | later, target, h :: rest, first =>
    ∃ r, later.Linked db r target ∧ h.Stands db r ∧ LeadsBack db h r rest first

/-- Hops in a row lead where the later ones lead from what the earlier ones reach. -/
theorem leadsAll_append {db : Database} {gs hs : List Hop} {origin target : TableRow} :
    LeadsAll db (gs ++ hs) origin target ↔
      ∃ r, LeadsAll db gs origin r ∧ LeadsAll db hs r target := by
  induction gs generalizing origin with
  | nil => simp [LeadsAll]
  | cons g gs ih =>
    simp only [List.cons_append, LeadsAll, ih]
    constructor
    · intro h
      obtain ⟨r, hlinked, hstands, r', hgs, hhs⟩ := h
      exact ⟨r', ⟨r, hlinked, hstands, hgs⟩, hhs⟩
    · intro h
      obtain ⟨r', ⟨r, hlinked, hstands, hgs⟩, hhs⟩ := h
      exact ⟨r, hlinked, hstands, r', hgs, hhs⟩

/-- A single hop leads to the rows that it links and that its filters let through. -/
theorem leadsAll_single {db : Database} {h : Hop} {origin target : TableRow} :
    LeadsAll db [h] origin target ↔ h.Linked db origin target ∧ h.Stands db target := by
  constructor
  · intro h
    obtain ⟨r, hlinked, hstands, rfl⟩ := h
    exact ⟨hlinked, hstands⟩
  · intro h
    obtain ⟨hlinked, hstands⟩ := h
    exact ⟨target, hlinked, hstands, rfl⟩

/-- Hops lead to a row exactly if they lead back from it to a row of the first hop. -/
theorem leadsAll_iff_leadsBack {db : Database} {before rest : List Hop} {last first : Hop}
    (h : before.reverse ++ [last] = first :: rest) {origin target : TableRow} :
    LeadsAll db (first :: rest) origin target ↔
      last.Stands db target ∧
        ∃ r, LeadsBack db last target before r ∧ first.Linked db origin r := by
  -- over the hops before the last, for any target: the last but one is the last of a shorter chain
  induction before generalizing last rest target with
  | nil =>
    obtain ⟨rfl, rfl⟩ := List.cons.inj h
    rw [leadsAll_single]
    constructor
    · intro h
      obtain ⟨hlinked, hstands⟩ := h
      exact ⟨hstands, target, rfl, hlinked⟩
    · intro h
      obtain ⟨hstands, r, rfl, hlinked⟩ := h
      exact ⟨hlinked, hstands⟩
  | cons g before ih =>
    obtain ⟨rest', hrest'⟩ : ∃ rest', before.reverse ++ [g] = first :: rest' := by
      cases hb : before.reverse ++ [g] with
      | nil => simp at hb
      | cons f rest' =>
        rw [List.reverse_cons, hb] at h
        exact ⟨rest', by rw [(List.cons.inj h).1]⟩
    rw [← h, List.reverse_cons, leadsAll_append, hrest']
    simp only [ih hrest', leadsAll_single]
    constructor
    · intro h
      obtain ⟨r, ⟨hg, first', hback, hfirst⟩, hlinked, hstands⟩ := h
      exact ⟨hstands, first', ⟨r, hlinked, hg, hback⟩, hfirst⟩
    · intro h
      obtain ⟨hstands, first', ⟨r, hlinked, hg, hback⟩, hfirst⟩ := h
      exact ⟨r, ⟨hg, first', hback, hfirst⟩, hlinked, hstands⟩

end Hop

/-! ## joins along a route -/

/-- Conditions from filters are true if the filters hold of the row. -/
theorem truth_conditionsOn {db : Database} {slot : Slot} {filters : List Expr}
    {env : Assignment} :
    (∀ c ∈ conditionsOn slot filters, c.truth db env = some true) ↔
      ∀ e ∈ filters, db.holds e (env slot) = some true := by
  simp [conditionsOn, Condition.truth]

/-- The condition on the keys of a hop is true if the hop links the rows. -/
theorem truth_keys {db : Database} {h : Hop} {slot previous : Slot} {env : Assignment} :
    (h.keys slot previous).truth db env = some true ↔
      h.Linked db (env previous) (env slot) := by
  rw [Hop.keys, Condition.truth, keysMatch_eq_true, List.forall_mem_map]
  rfl

/-- Keys that are compared the other way around. -/
theorem truth_keys_back {db : Database} {h : Hop} {slot previous : Slot} {env : Assignment} :
    (Condition.keys slot previous h.mapping).truth db env = some true ↔
      h.Linked db (env slot) (env previous) := by
  rw [Condition.truth, keysMatch_eq_true]
  refine forall₂_congr fun p _ => ?_
  rw [db.sameKey_comm]

/-- The join of a hop is met by a row behind the hop. -/
theorem met_hop {db : Database} {k : JoinKind} {h : Hop} {slot : Slot} {c : Condition}
    {more : List Expr} {env : Assignment} :
    (Join.mk k slot h.destination (c :: conditionsOn slot (h.filters ++ more))).Met db env ↔
      c.truth db env = some true ∧ h.Stands db (env slot) ∧
        ∀ e ∈ more, db.holds e (env slot) = some true := by
  constructor
  · intro h
    obtain ⟨htable, hrow, hon⟩ := h
    obtain ⟨hc, hfilters⟩ := List.forall_mem_cons.1 hon
    obtain ⟨hown, hmore⟩ := List.forall_mem_append.1 (truth_conditionsOn.1 hfilters)
    exact ⟨hc, ⟨htable, hrow, hown⟩, hmore⟩
  · intro h
    obtain ⟨hc, ⟨htable, hrow, hown⟩, hmore⟩ := h
    exact ⟨htable, hrow, List.forall_mem_cons.2
      ⟨hc, truth_conditionsOn.2 (List.forall_mem_append.2 ⟨hown, hmore⟩)⟩⟩

/-- A join for a hop is met if the keys agree and the row stands up to the filters. -/
theorem met_hop_plain {db : Database} {k : JoinKind} {h : Hop} {slot : Slot} {c : Condition}
    {env : Assignment} :
    (Join.mk k slot h.destination (c :: conditionsOn slot h.filters)).Met db env ↔
      c.truth db env = some true ∧ h.Stands db (env slot) := by
  rw [← List.append_nil h.filters, met_hop]
  simp

/-! ## nodes -/

namespace ChainNode

mutual

/-- Required as it is, the node lets the row through: there is an associated row that meets
the node's filters, and the nodes below let that one through. -/
def Satisfied (db : Database) : ChainNode → TableRow → Prop
  | ⟨association, _, _, _, filters, _, _, children⟩, r =>
    ∃ route target, association.routeFor .required = .ok route ∧
      Hop.LeadsAll db route.hops r target ∧ (∀ e ∈ filters, db.holds e target = some true) ∧
      SatisfiedAll db children target

/-- The required ones of several nodes let the row through. -/
def SatisfiedAll (db : Database) : List ChainNode → TableRow → Prop
  | [], _ => True
  | n :: ns, r => (n.requirement = .required → Satisfied db n r) ∧ SatisfiedAll db ns r

end

/-- A node is satisfied by a row that leads to one on which its filters hold and its children are
satisfied. -/
theorem satisfied_iff {db : Database} {n : ChainNode} {r : TableRow} :
    n.Satisfied db r ↔
      ∃ route target, n.association.routeFor .required = .ok route ∧
        Hop.LeadsAll db route.hops r target ∧
        (∀ e ∈ n.filters, db.holds e target = some true) ∧ SatisfiedAll db n.children target := by
  cases n
  rw [Satisfied]

end ChainNode

end AssociationQuery
