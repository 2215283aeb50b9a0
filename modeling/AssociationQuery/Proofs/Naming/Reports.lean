import AssociationQuery.Proofs.Naming.Turns
import AssociationQuery.Proofs.Spelling.Statements

/-!
# AssociationQuery.Proofs.Naming.Reports

The conflicts that a request is refused for.

Each statement of a request registers the handles of its nodes in turn and those of its base
last.  When a request is refused because of a name, one of its statements has two
registrations in conflict, and the error names the first that is in conflict with an earlier
one, `Request.conflicts_reported`.
-/

namespace AssociationQuery

open AliasRequests (Consistent Identified)

/-! ## statements by their handles -/

/-- The handles of a statement: those of nodes in their turn, then those of the base table. -/
structure Turns where
  table : Table
  nodes : List ChainNode
  handles : List TableAlias

namespace Turns

/-- The handles are registered in their turn, those of each node on a table instance `x.2` of its
own that reads the table the node leads to. -/
structure TakenOn (t : Turns) (r : AliasRequests) (xs : List (ChainNode × Slot)) : Prop where
  nodes : xs.map Prod.fst = t.nodes
  apart : (Draft.root :: xs.map Prod.snd).Nodup
  base : r.tables[Draft.root.index]? = some t.table.name
  named : ∀ x ∈ xs, r.tables[x.2.index]? = some x.1.association.destination.name
  registrations : r.registrations =
    Draft.handlesOf xs ++ t.handles.map fun a => (Draft.root, a)

/-- The handles are registered in their turn. -/
def Taken (t : Turns) (r : AliasRequests) : Prop := ∃ xs, t.TakenOn r xs

/-- The handles are registered in their turn, without a conflict, and names are allocated. -/
def Settled (t : Turns) (m : AliasMap) : Prop :=
  ∃ r : AliasRequests, t.Taken r ∧ Consistent r.registrations ∧ r.allocate = .ok m

end Turns

/-- The statement that a node has of its own. -/
def ChainNode.ownTurns (n : ChainNode) : Turns :=
  ⟨n.association.destination, turnsAll n.children, n.aliases⟩

namespace Request

/-- The base statement. -/
def turns (r : Request) : Turns := ⟨r.table, ChainNode.turnsAll r.chain, r.aliases⟩

/-- The statements of a request. -/
inductive HasStatement (r : Request) : Turns → Prop
  | base : HasStatement r r.turns
  | own {n : ChainNode} (mem : n ∈ ChainNode.everywhereAll r.chain)
      (separate : n.inclusion = .including ∧ n.association.isToMany) : HasStatement r n.ownTurns

/-- All handles of a request. -/
def handles (r : Request) : List TableAlias :=
  r.aliases ++ (ChainNode.everywhereAll r.chain).flatMap ChainNode.aliases

/-- There are no two handles of one identity. -/
def HandlesIdentified (r : Request) : Prop :=
  ∀ a ∈ r.handles, ∀ b ∈ r.handles, a.id = b.id → a = b

end Request

/-! ## statements of a request -/

namespace Turns

/-- The walk from the start of a statement takes the turns of its nodes. -/
theorem taken_of_planned {config : Config} {table : Table} {nodes : List ChainNode}
    {numbering : AliasNumbering} {width : Nat} {d : Draft}
    (h : Draft.Planned config (.base table) nodes (.start numbering table width) d)
    (js : List Join) (handles : List TableAlias) :
    (Turns.mk table (ChainNode.turnsAll nodes) handles).Taken
      ((d.withJoins js).register Draft.root handles).aliases := by
  obtain ⟨xs, hnodes, hwalk⟩ := h.registers
  have hjoins : Draft.Registers d (d.withJoins js) [] := .nothing (List.prefix_append ..) rfl
  have hall := hwalk.trans hjoins
  rw [List.append_nil] at hall
  -- no node stands at the root, whose slot comes before all others
  refine ⟨xs, hnodes, List.nodup_cons.2 ⟨fun hroot => ?_, hall.apart⟩, ?_, ?_, ?_⟩
  · obtain ⟨x, hx, heq⟩ := List.mem_map.1 hroot
    have hfresh : 1 ≤ x.2.index := hall.fresh x hx
    rw [heq] at hfresh
    cases hfresh
  · rw [Draft.tables_register]
    exact Draft.getElem?_prefix_eq hall.tables rfl
  · rw [Draft.tables_register]
    exact hall.named
  · rw [Draft.registrations_register, hall.registrations]
    rfl

/-- The handles of a statement of a request are handles of the request. -/
theorem Taken.identified {r : Request} (hr : r.HandlesIdentified) {t : Turns}
    (ht : r.HasStatement t) {a : AliasRequests} (h : t.Taken a) : Identified a.registrations := by
  obtain ⟨xs, h⟩ := h
  have hhandles : (∀ n ∈ t.nodes, n ∈ ChainNode.everywhereAll r.chain) ∧ t.handles ⊆ r.handles := by
    cases ht with
    | base => exact ⟨ChainNode.turnsAll_subset r.chain, List.subset_append_left ..⟩
    | @own n hn _ =>
      refine ⟨fun m hm => ?_, fun b hb => ?_⟩
      · exact ChainNode.everywhereAll_subset _ hn (ChainNode.turnsAll_subset _ hm)
      · exact List.mem_append_right _ (List.mem_flatMap.2 ⟨n, hn, hb⟩)
  -- every registration hands in a handle of the request
  have hmem : ∀ p ∈ a.registrations, p.2 ∈ r.handles := by
    rw [h.registrations]
    refine List.forall_mem_append.2 ⟨fun p hp => ?_, fun p hp => ?_⟩
    · obtain ⟨x, hx, hp⟩ := List.mem_flatMap.1 hp
      obtain ⟨b, hb, rfl⟩ := List.mem_map.1 hp
      have hnode : x.1 ∈ t.nodes := h.nodes ▸ List.mem_map_of_mem hx
      exact List.mem_append_right _ (List.mem_flatMap.2 ⟨x.1, hhandles.1 _ hnode, hb⟩)
    · obtain ⟨b, hb, rfl⟩ := List.mem_map.1 hp
      exact hhandles.2 hb
  exact fun p hp q hq => hr _ (hmem p hp) _ (hmem q hq)

/-- With different identities and names allocated, the handles are settled. -/
theorem Taken.settled {r : Request} (hr : r.HandlesIdentified) {t : Turns}
    (ht : r.HasStatement t) {a : AliasRequests} (h : t.Taken a) {m : AliasMap}
    (hm : a.allocate = .ok m) : t.Settled m :=
  ⟨a, h, (AliasRequests.exists_allocate_iff (h.identified hr ht)).1 ⟨m, hm⟩, hm⟩

end Turns

namespace Request

/-- The draft of the base statement takes the turns of the request. -/
theorem taken_of_draft {r : Request} {config : Config} {aggregates : List (Association × Slot)}
    {d : Draft} (h : r.draft config = .ok (aggregates, d)) : r.turns.Taken d.aliases := by
  simp only [draft, bind_eq_ok, pure_eq_ok, Prod.mk.injEq] at h
  obtain ⟨d₁, hwalk, ⟨_, d₂⟩, haggregates, -, rfl⟩ := h
  obtain ⟨steps, -, -, rfl⟩ := Draft.joinAggregates_eq_ok haggregates
  exact Turns.taken_of_planned (Draft.planned_of_planNodes r.chain hwalk) _ r.aliases

end Request

/-- The draft of a node's statement takes the turns of the node. -/
theorem ChainNode.taken_of_planned {config : Config} {n : ChainNode} {route : Route} {d : Draft}
    (h : Draft.Planned config (.base n.association.destination) n.children
      (.start config.numbering n.association.destination n.association.destination.width) d) :
    n.ownTurns.Taken (d.prefetched n route).aliases :=
  Turns.taken_of_planned h (Draft.keyJoins route d) n.aliases

/-! ## reports -/

namespace Request

/-- An error about a name comes from the first conflict of some statement. -/
theorem exists_firstConflict {r : Request} (hr : r.HandlesIdentified) {config : Config}
    {name : String} (h : r.Fault config (.aliasConflict name)) :
    ∃ t, r.HasStatement t ∧ ∃ a, t.Taken a ∧ ∃ p, a.FirstConflict p ∧ name = a.nameOf p := by
  have hreport : ∀ t a, r.HasStatement t → t.Taken a →
      a.allocate = .error (.aliasConflict name) →
      ∃ t, r.HasStatement t ∧ ∃ a, t.Taken a ∧ ∃ p, a.FirstConflict p ∧ name = a.nameOf p := by
    intro t a ht ha hallocate
    obtain ⟨p, hp, hname⟩ :=
      (AliasRequests.allocate_eq_error_iff (ha.identified hr ht)).1 hallocate
    exact ⟨t, ht, a, ha, p, hp, AssociationError.aliasConflict.inj hname⟩
  -- the root statement and every plan allocate once; other faults are not about names
  cases h with
  | conflict hdraft hallocate => exact hreport _ _ .base (taken_of_draft hdraft) hallocate
  | chain hchain =>
    cases hchain with
    | keyColumns _ _ _ _ hlacks =>
      obtain ⟨_, -, -, heq⟩ := eq_of_parentKeyColumns hlacks
      cases heq
    | conflict mem separate _ planned hallocate =>
      exact hreport _ _ (.own mem separate)
        (ChainNode.taken_of_planned (Draft.planned_of_planNodes _ planned)) hallocate
    | lookup hlookup => cases hlookup

/-- A conflict in the base statement is reported before anything that is wrong with other
statements. -/
theorem compile_of_firstConflict {r : Request} (hr : r.HandlesIdentified) {config : Config}
    (hvalid : config.validate = .ok ()) {aggregates : List (Association × Slot)} {d : Draft}
    (hdraft : r.draft config = .ok (aggregates, d)) {p : Slot × TableAlias}
    (hp : d.aliases.FirstConflict p) :
    r.compile config = .error (.association (.aliasConflict (d.aliases.nameOf p))) := by
  have hidentified := (taken_of_draft hdraft).identified hr .base
  have hallocate := (AliasRequests.allocate_eq_error_iff hidentified).2 ⟨p, hp, rfl⟩
  have hplan : r.plan config = .error (.aliasConflict (d.aliases.nameOf p)) := by
    rw [plan, hdraft]
    exact bind_eq_error.2 (.inr ⟨_, rfl, bind_eq_error.2 (.inl hallocate)⟩)
  rw [compile, hvalid, hplan]
  rfl

/-- What becomes of conflicts between handles.  Allocation fails exactly when a registration is
in conflict with an earlier one, and names the first that is.  Every statement of a request
registers its handles in their turn; a compiled request has no conflicts, and a request that is
refused because of a name has a statement whose first conflict the error names, the base
statement before all others. -/
theorem conflicts_reported {r : Request} (hr : r.HandlesIdentified) (config : Config) :
    (∀ a : AliasRequests, Identified a.registrations →
      ((∃ e, a.allocate = .error e) ↔ ¬Consistent a.registrations) ∧
      ∀ e, a.allocate = .error e ↔ ∃ p, a.FirstConflict p ∧ e = .aliasConflict (a.nameOf p)) ∧
    (∀ q, r.compile config = .ok q →
      (∃ s d, r.rootStatement config = .ok (s, d) ∧ s.bind config.dialect [] = .ok q.root.text ∧
        r.turns.Settled s.aliases) ∧
      PrefetchPlan.Each (fun n p => n.ownTurns.Settled p.statement.aliases)
        (ChainNode.separateAll r.chain) q.prefetches) ∧
    (∀ name, r.compile config = .error (.association (.aliasConflict name)) →
      ∃ t, r.HasStatement t ∧ ∃ a, t.Taken a ∧ ∃ p, a.FirstConflict p ∧ name = a.nameOf p) ∧
    (config.validate = .ok () → ∀ aggregates d, r.draft config = .ok (aggregates, d) →
      r.turns.Taken d.aliases ∧ ∀ p, d.aliases.FirstConflict p →
        r.compile config = .error (.association (.aliasConflict (d.aliases.nameOf p)))) := by
  refine ⟨fun a ha => ⟨?_, fun e => AliasRequests.allocate_eq_error_iff ha⟩, fun q hq => ⟨?_, ?_⟩,
    fun name h => exists_firstConflict hr (fault_of_compile h), fun hvalid aggregates d hdraft =>
      ⟨taken_of_draft hdraft, fun p hp => compile_of_firstConflict hr hvalid hdraft hp⟩⟩
  · rw [← AliasRequests.exists_allocate_iff ha]
    cases a.allocate <;> simp
  · obtain ⟨s, d, hs, htext, -, -⟩ := compile_eq_ok hq
    -- a statement that was rendered has its names
    have hroot := hs
    simp only [rootStatement, bind_eq_ok, pure_eq_ok, Prod.mk.injEq] at hroot
    obtain ⟨⟨aggregates, d'⟩, hdraft, m, hm, rfl, rfl⟩ := hroot
    exact ⟨_, _, hs, htext, (taken_of_draft hdraft).settled hr .base hm⟩
  · refine (each_separate_of_compile hq).imp ?_
    rintro n p ⟨⟨hmem, hkind⟩, hplan⟩
    obtain ⟨route, d, -, hwalk, hallocate, -⟩ := hplan.exists_planned
    exact (ChainNode.taken_of_planned hwalk).settled hr (.own hmem hkind) hallocate

end Request

/-! ## names that are alike -/

namespace Library

/-- The book of a chapter with its author, whom a handle calls "a". -/
def bookByA : ChainNode :=
  let book := ChainNode.ofAssociation
    (.direct .belongsTo "book" chapters books [("bookId", "id")] [] [] none)
  book.attached .including .required (author.aliased ⟨0, some "a"⟩)

/-- Chapters, called "A", with their books. -/
def alikeNames : Request where
  table := chapters
  aliases := [⟨1, some "A"⟩]
  chain := [bookByA]

end Library

/-- The base of the statement registers its handle behind the author, and the error names it. -/
theorem Request.conflicts_reported_library :
    Library.alikeNames.HandlesIdentified ∧
    Library.alikeNames.compile = .error (.association (.aliasConflict "A")) ∧
    ∃ t, Library.alikeNames.HasStatement t ∧ ∃ a, t.Taken a ∧ ∃ p, a.FirstConflict p ∧
      "A" = a.nameOf p := by
  have hidentified : Library.alikeNames.HandlesIdentified := by
    have hhandles : Library.alikeNames.handles = [⟨1, some "A"⟩, ⟨0, some "a"⟩] := rfl
    rw [Request.HandlesIdentified, hhandles]
    decide
  have hcompile : Library.alikeNames.compile = .error (.association (.aliasConflict "A")) := by
    rfl
  exact ⟨hidentified, hcompile,
    (Request.conflicts_reported hidentified {}).2.2.1 "A" hcompile⟩

end AssociationQuery
