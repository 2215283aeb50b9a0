import AssociationQuery.Proofs.Fetching.Pairing
import AssociationQuery.Proofs.Meaning.Models
import AssociationQuery.Proofs.Planning.Columns

/-!
# AssociationQuery.Proofs.Meaning.Agreement

A required to-many association that is fetched by a statement of its own is tested
in the base statement, too: there a subquery goes from the base row outwards along
the route, here joins come back from the associated rows to the base row's key.
`Request.existence_agrees` says that the two always come to the same result.
-/

namespace AssociationQuery

/-! ## statements with a key -/

/-- A statement combines rows if there is a base row that joins and filters let through. -/
theorem Statement.combinations_ne_nil {db : Database} {keys : List (List Value)} {s : Statement} :
    s.combinations db keys ≠ [] ↔
      ∃ row ∈ db.rows s.table.name, ∃ env ∈ Join.extendAll db s.joins (s.start row),
        (∀ f ∈ s.keyFilter, f.accepts db keys env) ∧
          ∀ c ∈ s.filters, c.truth db env = some true := by
  simp only [combinations, ne_eq, List.filter_eq_nil_iff, List.mem_flatMap, Bool.and_eq_true,
    List.all_eq_true, Option.mem_toList, decide_eq_true_eq, conj_truthAll, not_forall,
    Decidable.not_not]
  constructor
  · intro h
    obtain ⟨env, ⟨row, hrow, hmem⟩, haccepts⟩ := h
    exact ⟨row, hrow, env, hmem, haccepts⟩
  · intro h
    obtain ⟨row, hrow, env, hmem, haccepts⟩ := h
    exact ⟨env, ⟨row, hrow, hmem⟩, haccepts⟩

namespace Draft

/-- A statement made from a draft returns a row exactly if the draft has a model whose base row
meets the filters and whose key row has one of the keys. -/
theorem Steady.combinations_ne_nil {db : Database} {d : Draft} (hd : d.Steady db) {s : Statement}
    (filters : List Expr) (f : KeyFilter) (hroot : s.root = root) (hjoins : s.joins = d.joins)
    (hfilters : s.filters = conditionsOn root filters ++ d.filters)
    (hkey : s.keyFilter = some f) (hfirm : d.Firm f.slot) (keys : List (List Value)) :
    s.combinations db keys ≠ [] ↔
      ∃ ρ, d.Models db ρ ∧ (ρ root).table = s.table ∧ (ρ root).values ∈ db.rows s.table.name ∧
        (∀ e ∈ filters, db.holds e (ρ root) = some true) ∧ f.accepts db keys ρ := by
  have hstart (row : List Value) : s.start row root = ⟨s.table, row⟩ := by
    rw [Statement.start, hroot, Function.update_self]
  rw [Statement.combinations_ne_nil]
  simp only [hjoins, hfilters, hkey, Option.mem_some_iff, forall_eq', List.forall_mem_append,
    truth_conditionsOn]
  -- a combination that is found is a model over its base row; a model agrees with one that is found
  -- on the slots of inner joins, and the conditions read no others
  constructor
  · intro h
    obtain ⟨row, hrow, env, hmem, haccepts, hown, hrest⟩ := h
    obtain ⟨hmodel, hbase⟩ := hd.models_of_mem_extendAll hmem hrest
    rw [hstart] at hbase
    exact ⟨env, hmodel, by rw [hbase], by rw [hbase]; exact hrow, hown, haccepts⟩
  · intro h
    obtain ⟨ρ, hmodel, htable, hrow, hown, haccepts⟩ := h
    have hbase : s.start (ρ root).values root = ρ root := by rw [hstart, ← htable]
    obtain ⟨env, hmem, hagree⟩ := hd.exists_mem_extendAll_of_models hmodel hbase
    have hroot : env root = ρ root := hagree root (.inl rfl)
    have haccepts' : f.accepts db keys env := by
      rw [KeyFilter.accepts, hagree _ hfirm]
      exact haccepts
    have hrest : ∀ c ∈ d.filters, c.truth db env = some true := by
      intro c hc
      rw [hd.filters c hc ρ env fun s hs => hs ▸ hroot]
      exact hmodel.filters c hc
    exact ⟨_, hrow, env, hmem, haccepts', hroot.symm ▸ hown, hrest⟩

end Draft

/-! ## keys of a base row -/

/-- The row of another statement that starts with the columns of a row of a table. -/
def DecodedRow.StartsWith (d : DecodedRow) (r : TableRow) : Prop :=
  ∀ i < r.table.width, d.row.get? i = r.values[i]?

/-- Looked up in a parent row, the columns of the parent key are those of the base row. -/
theorem valuesAt_parentKeyColumns {name : String} {first : Hop} {columns : List Nat}
    {parent : DecodedRow} {base : TableRow}
    (h : Draft.parentKeyColumns name base.table 0 first = .ok columns)
    (hparent : parent.StartsWith base) :
    parent.valuesAt columns = first.mapping.map fun p => base.value p.1 := by
  replace h := Draft.forall₂_of_parentKeyColumns h
  rw [DecodedRow.valuesAt]
  generalize first.mapping = pairs at h ⊢
  induction h with
  | nil => rfl
  | @cons p _ _ _ hp _ ih =>
    obtain ⟨i, hi, rfl⟩ := hp
    rw [List.map_cons, List.map_cons, ih, Nat.zero_add, hparent i (Table.columnIndex?_lt hi),
      TableRow.value, hi]
    rfl

/-- The only key of a single row, if it has one. -/
theorem PrefetchPlan.parentKeys_single (p : PrefetchPlan) (parent : DecodedRow) :
    (.null ∈ parent.valuesAt p.parentKeyColumns ∧ p.parentKeys [parent] = []) ∨
      (.null ∉ parent.valuesAt p.parentKeyColumns ∧
        p.parentKeys [parent] = [parent.valuesAt p.parentKeyColumns]) := by
  simp only [parentKeys, List.filterMap_cons, List.filterMap_nil]
  cases hkey : DecodedRow.keyOf (parent.valuesAt p.parentKeyColumns) with
  | none => exact .inl ⟨DecodedRow.keyOf_eq_none_iff.1 hkey, rfl⟩
  | some key =>
    have hnull : .null ∉ parent.valuesAt p.parentKeyColumns := by
      rw [← DecodedRow.keyOf_eq_none_iff, hkey]
      exact Option.some_ne_none key
    exact .inr ⟨hnull, rfl⟩

/-- A row has the key of the base row exactly if the first hop of the route leads to it. -/
theorem KeyFilter.accepts_iff_linked {db : Database} {p : PrefetchPlan} {first : Hop} {slot : Slot}
    {parent : DecodedRow} {base : TableRow} {env : Assignment} {name : String}
    (h : Draft.parentKeyColumns name base.table 0 first = .ok p.parentKeyColumns)
    (hparent : parent.StartsWith base) :
    KeyFilter.accepts db (p.parentKeys [parent]) ⟨slot, first.mapping.map Prod.snd⟩ env ↔
      first.Linked db base (env slot) := by
  have hvalues := valuesAt_parentKeyColumns h hparent
  -- a parent with a NULL in its key asks for nothing, and NULL matches nothing
  obtain ⟨hnull, hkeys⟩ | ⟨-, hkeys⟩ := p.parentKeys_single parent
  · rw [hvalues, List.mem_map] at hnull
    obtain ⟨pair, hpair, hvalue⟩ := hnull
    have hnot : ¬first.Linked db base (env slot) := by
      intro hlinked
      have heq := hlinked pair hpair
      rw [hvalue, db.sameKey_comm] at heq
      exact db.sameKey_null _ heq
    simp [hkeys, accepts, hnot]
  · rw [hkeys, hvalues]
    simp only [accepts, List.any_cons, List.any_nil, Bool.or_false, decide_eq_true_eq,
      Truth.conj_eq_true, List.zipWith_map, List.zipWith_self, List.forall_mem_map]
    rfl

/-! ## statements of their own -/

namespace Draft

/-- The joins towards the key filter are inner joins. -/
theorem kind_keyJoins (route : Route) (d : Draft) : ∀ j ∈ keyJoins route d, j.kind = .inner :=
  backJoins_inner _ _ _ _

/-- Joins towards the key filter read earlier tables only. -/
theorem steady_keyJoins {db : Database} {d : Draft} (hd : d.Steady db) (route : Route) :
    (d.withJoins (keyJoins route d)).Steady db :=
  have hkind : ∀ j ∈ keyJoins route d, j.kind = .keeping false := kind_keyJoins route d
  hd.withJoins (numberedFrom_backJoins ..) (readInTurn_backJoins ..) hd.numbered.positive hkind
    fun _ => .inl rfl

/-- The table of the key filter has a row in each combination. -/
theorem firm_keySlot (route : Route) (d : Draft) :
    (d.withJoins (keyJoins route d)).Firm (d.keySlot route) := by
  rw [keySlot, Join.lastSlot_eq]
  cases hlast : (keyJoins route d).getLast? with
  | none => exact .inl rfl
  | some j =>
    have hj : j ∈ keyJoins route d := List.mem_of_getLast? hlast
    exact firm_of_mem (List.mem_append_right _ hj) (kind_keyJoins route d j hj)

/-- With the joins back to the key: the base row leads back to the key row. -/
theorem exists_models_keyJoins_iff {db : Database} {d : Draft} (hd : d.Steady db) (route : Route)
    (base key : TableRow) :
    (∃ ρ, (d.withJoins (keyJoins route d)).Models db ρ ∧ ρ root = base ∧
        ρ (d.keySlot route) = key) ↔
      (∃ ρ, d.Models db ρ ∧ ρ root = base) ∧
        Hop.LeadsBack db route.backwards.1 base route.backwards.2 key := by
  constructor
  · intro h
    obtain ⟨ρ, hρ, rfl, rfl⟩ := h
    obtain ⟨hown, hmet⟩ := models_withJoins.1 hρ
    exact ⟨⟨ρ, hown, rfl⟩, leadsBack_of_met fun j hj => hmet j hj (kind_keyJoins route d j hj)⟩
  · intro h
    obtain ⟨⟨ρ, hρ, rfl⟩, hback⟩ := h
    obtain ⟨ρ', hagree, hmet, hlast⟩ := exists_met_backJoins hd.numbered.positive hback
    have hmodel : (d.withJoins (keyJoins route d)).Models db ρ' :=
      models_withJoins.2 ⟨hρ.congr hd hagree, fun j hj _ => hmet j hj⟩
    exact ⟨ρ', hmodel, hagree root hd.numbered.positive, hlast⟩

/-- The statement for a required node returns a row for a base row's key exactly if the node
lets the base row through. -/
theorem combinations_prefetchPlan_ne_nil {db : Database} {config : Config} {n : ChainNode}
    {scope : Nat} {p : PrefetchPlan} {parent : DecodedRow} {base : TableRow}
    (h : prefetchPlan config n scope 0 base.table
      (planNodes config (.base n.association.destination) n.children) = .ok p)
    (hreq : n.requirement = .required) (hparent : parent.StartsWith base) :
    p.statement.combinations db (p.parentKeys [parent]) ≠ [] ↔ n.Satisfied db base := by
  obtain ⟨route, d, hroute, hcolumns, hd, -, -, -, -, hstatement, -, -⟩ := prefetchPlan_eq_ok h
  rw [Association.destination_backwards_routeFor hroute] at hd
  have hwalk := planned_of_planNodes _ hd
  have hfetches := fetches_prefetchStatement hstatement
  have hsteady := (hwalk.asks (steady_start db ..) (anchored_start ..)).steady
  have hturn : route.backwards.2.reverse ++ [route.backwards.1] = route.first :: route.rest :=
    route.reverse_backwards
  have hnonempty := (steady_keyJoins hsteady route).combinations_ne_nil (s := p.statement)
    (route.backwards.1.filters ++ n.filters)
    ⟨d.keySlot route, route.first.mapping.map Prod.snd⟩
    hfetches.root hfetches.joins hfetches.filters hfetches.keyFilter (firm_keySlot route d)
    (p.parentKeys [parent])
  rw [hnonempty, hfetches.table]
  simp only [KeyFilter.accepts_iff_linked hcolumns hparent, List.forall_mem_append]
  rw [ChainNode.satisfied_iff]
  -- the statement starts at the target and is joined back to the key row, the meaning starts at the
  -- parent
  constructor
  · intro h
    obtain ⟨ρ, hρ, htable, hrow, ⟨hlastFilters, hfilters⟩, hlinked⟩ := h
    obtain ⟨hbase, hback⟩ :=
      (exists_models_keyJoins_iff hsteady route (ρ root) (ρ (d.keySlot route))).1 ⟨ρ, hρ, rfl, rfl⟩
    have hleads := (Hop.leadsAll_iff_leadsBack hturn).2
      ⟨⟨htable, hrow, hlastFilters⟩, _, hback, hlinked⟩
    exact ⟨route, ρ root, hreq ▸ hroute, hleads, hfilters, (hwalk.exists_models_iff _).1 hbase⟩
  · intro h
    obtain ⟨route', target, hroute', hleads, hfilters, hbelow⟩ := h
    obtain rfl : route = route' := Except.ok.inj ((hreq ▸ hroute).symm.trans hroute')
    obtain ⟨⟨htable, hrow, hlastFilters⟩, key, hback, hlinked⟩ :=
      (Hop.leadsAll_iff_leadsBack hturn).1 hleads
    obtain ⟨ρ, hρ, rfl, rfl⟩ := (exists_models_keyJoins_iff hsteady route target key).2
      ⟨(hwalk.exists_models_iff _).2 hbelow, hback⟩
    exact ⟨ρ, hρ, htable, hrow, ⟨hlastFilters, hfilters⟩, hlinked⟩

end Draft

/-! ## conditions of the base statement -/

namespace Draft

/-- The subquery and the plan that planning makes for a node that hangs from the base table. -/
structure Tested (config : Config) (base : Table) (n : ChainNode) (q : SubQuery)
    (p : PrefetchPlan) : Prop where
  subquery : ∃ d d' : Draft, root.index < d.next ∧ d.existence root n = .ok (q, d')
  plan : prefetchPlan config n 0 0 base
    (planNodes config (.base n.association.destination) n.children) = .ok p

/-- Tables stay in the draft. -/
theorem Adds.mem_slots {d d' : Draft} {js : List JoinedNode} (h : Adds d d' js) {slot : Slot}
    (hslot : slot ∈ d.joins.map Join.slot) : slot ∈ d'.joins.map Join.slot := by
  have hinstances := congrArg (List.map Prod.fst) h.instances
  simp only [Draft.instances, List.map_map, List.map_append] at hinstances
  have hslots : d'.joins.map Join.slot = d.joins.map Join.slot ++ _ := hinstances
  rw [hslots]
  exact List.mem_append_left _ hslot

/-- A condition on a join is no filter of the statement. -/
theorem Guarded.filters_eq {slot : Slot} {n : ChainNode} {d d' : Draft}
    (h : Guarded slot n d d') (hslot : slot ∈ d.joins.map Join.slot) :
    d'.filters = d.filters := by
  cases h with
  | optional => rfl
  | @required q d₁ _ hq =>
    have haside := (aside_existence n hq).eq
    rw [filters_addCondition_of_mem _ (by rw [haside]; exact hslot), haside]

/-- Below a joined table the walk adds no conditions to the statement. -/
theorem Planned.filters_eq {config : Config} {a : Anchor} {nodes : List ChainNode} {d d' : Draft}
    (h : Planned config a nodes d d') (ha : a.slot ∈ d.joins.map Join.slot) :
    d'.filters = d.filters := by
  induction h with
  | done => rfl
  | @separate a n rest d d₁ d' _ _ _ _ _ guarded _ _ _ ih =>
    exact (ih ((guarded.adds.trans (adds_leave config a n d₁)).mem_slots ha)).trans
      (guarded.filters_eq ha)
  | @joined a n rest route d d₁ d' _ _ plain _ children _ ihChildren ihRest =>
    obtain ⟨js, -, -, hadds⟩ := children.exists_adds
    have hjoin := adds_join a d (routeFor_of_plainRoute plain)
    rw [ihRest (((hjoin.trans hadds).trans (adds_register _ _ _)).mem_slots ha)]
    exact (ihChildren (nodeSlot_mem_slots a n route d)).trans (filters_join a n route d)

/-- At the base table the walk adds a condition for each tested node and no others, and leaves a
plan for each of them. -/
theorem Planned.tested {config : Config} {a : Anchor} {nodes : List ChainNode} {d d' : Draft}
    {numbering : AliasNumbering} {base : Table} {width : Nat} {js : List JoinedNode}
    (h : Planned config a nodes d d') (ha : a = .base base)
    (hd : Adds (.start numbering base width) d js) {plans : List PrefetchPlan}
    (hplans : d'.pending = plans.map .ok) :
    ∃ tests before more, d'.filters = d.filters ++ tests.map (fun x => .existence x.1) ∧
      plans = before ++ more ∧ d.pending = before.map .ok ∧
      (tests.map Prod.snd).Sublist more ∧
      List.Forall₂ (fun n x => Tested config base n x.1 x.2) (nodes.filter ChainNode.isTested)
        tests := by
  -- along the walk: a tested node adds one condition and one plan, any other at most plans
  induction h generalizing js with
  | done => exact ⟨[], plans, [], by simp, by simp, hplans, .slnil, .nil⟩
  | @separate a n rest d d₁ d' _ including toMany _ _ guarded _ _ _ ih =>
    subst ha
    have hguarded := hd.trans guarded.adds
    obtain ⟨tests, before, more, hfilters, rfl, hbefore, hsub, hall⟩ :=
      ih rfl (hguarded.trans (adds_leave config _ n d₁)) hplans
    obtain ⟨first, scopes, hscopes, hrange, -⟩ := hguarded.scopes_of_start
    have hoffset : (d₁.layout.scope (Anchor.base base).scope).range.start = 0 := by
      rw [Layout.scope, hscopes]
      exact congrArg Span.start hrange
    obtain ⟨before', ps, rfl, hbefore', hps⟩ := List.append_eq_map_iff.1 hbefore
    obtain ⟨p, rfl, hp⟩ := List.map_eq_singleton_iff.1 hps
    have hplan : prefetchPlan config n 0 0 base
        (planNodes config (.base n.association.destination) n.children) = .ok p := by
      rw [hp, hoffset]
      rfl
    rw [guarded.pending] at hbefore'
    cases guarded with
    | optional hreq =>
      rw [List.filter_cons_of_neg (by simp [ChainNode.isTested, hreq])]
      exact ⟨tests, before', p :: more, hfilters, by simp, hbefore'.symm, hsub.cons p, hall⟩
    | @required q d₀ hreq hq =>
      have hnumbered := hd.numbered (numbered_start numbering base width)
      have haside := (aside_existence n hq).eq
      have hcondition : (d₀.addCondition root (.existence q)).filters =
          d.filters ++ [.existence q] := by
        rw [filters_addCondition_of_notMem _ (by rw [haside]; exact hnumbered.root_notMem), haside]
      have hleave : d'.filters = (d₀.addCondition root (.existence q)).filters ++ _ := hfilters
      have hfilters' : d'.filters =
          d.filters ++ ((q, p) :: tests).map fun x => .existence x.1 := by
        rw [hleave, hcondition]
        simp
      rw [List.filter_cons_of_pos (by simp [ChainNode.isTested, including, toMany, hreq])]
      exact ⟨(q, p) :: tests, before', p :: more, hfilters', by simp, hbefore'.symm,
        hsub.cons_cons p, .cons ⟨⟨d, d₀, hnumbered.positive, hq⟩, hplan⟩ hall⟩
  | @joined a n rest route d d₁ d' _ kind plain _ children _ _ ih =>
    subst ha
    obtain ⟨ks, -, -, hadds⟩ := children.exists_adds
    have hjoin := adds_join (.base base) d (routeFor_of_plainRoute plain)
    obtain ⟨tests, before, more, hfilters, rfl, hbefore, hsub, hall⟩ :=
      ih rfl (hd.trans ((hjoin.trans hadds).trans (adds_register _ _ _))) hplans
    obtain ⟨below, hbelow, -⟩ := children.fitAll
    have hpending : d.pending ++ below = before.map .ok := by
      rw [← pending_join d (.base base) n route, ← hbelow]
      exact hbefore
    obtain ⟨before', ps, rfl, hbefore', -⟩ := List.append_eq_map_iff.1 hpending
    have hrest : d'.filters = d₁.filters ++ _ := hfilters
    -- conditions below a join are put under that join
    have hfilters' : d'.filters = d.filters ++ tests.map fun x => .existence x.1 := by
      rw [hrest, children.filters_eq (nodeSlot_mem_slots _ n route d), filters_join]
    have hnot : ¬n.isTested := by
      intro htested
      simp only [ChainNode.isTested, decide_eq_true_eq] at htested
      exact kind ⟨htested.1, htested.2.1⟩
    rw [List.filter_cons_of_neg hnot]
    exact ⟨tests, before', ps ++ more, hfilters', List.append_assoc _ _ _, hbefore'.symm,
      hsub.trans (List.sublist_append_right _ _), hall⟩

/-- The subquery and the plan find associated rows for the same rows of the base table. -/
structure Agree (base : Table) (q : SubQuery) (p : PrefetchPlan) : Prop where
  returnsAll : p.statement.ReturnsAll
  /-- The statement runs with the key of one base row, or without keys if there is a NULL in it. -/
  alike : ∀ (db : Database) (env : Assignment) (parent : DecodedRow), (env root).table = base →
    parent.StartsWith (env root) →
    ((Condition.existence q).truth db env = some true ↔
      p.statement.combinations db (p.parentKeys [parent]) ≠ [])

/-- A required node lets a parent through if its rows are fetched for that parent. -/
theorem Tested.agree {config : Config} {base : Table} {n : ChainNode} {q : SubQuery}
    {p : PrefetchPlan} (h : Tested config base n q p) (hreq : n.requirement = .required) :
    Agree base q p := by
  obtain ⟨⟨d, d', hroot, hq⟩, hplan⟩ := h
  obtain ⟨_, _, _, _, _, _, _, _, _, hstatement, -, -⟩ := prefetchPlan_eq_ok hplan
  constructor
  · rw [hstatement]
    exact ⟨rfl, rfl, rfl, rfl, rfl⟩
  · intro db env parent hbase hparent
    rw [combinations_prefetchPlan_ne_nil (hbase ▸ hplan) hreq hparent, Condition.truth,
      Option.some.injEq, finds_existence n hq hroot]

end Draft

namespace Request

open Draft (Tested Agree)

/-- What the base statement tests for and what is fetched afterwards agree.  The conditions that
planning adds to those of the request are existence conditions, one for each required to-many
node that is included below the base table; and such a condition is true of a base row exactly
if the statement that is planned for the same node returns a row for the base row's key. -/
theorem existence_agrees {r : Request} {config : Config} {q : CompiledQuery}
    (h : r.compile config = .ok q) :
    ∃ s d tests, r.rootStatement config = .ok (s, d) ∧
      s.bind config.dialect [] = .ok q.root.text ∧
      s.filters = r.rowFilters.map (fun e => .expr e Draft.root) ++
        tests.map (fun x => .existence x.1) ∧
      (tests.map Prod.snd).Sublist q.prefetches ∧
      List.Forall₂ (fun n x => Tested config r.table n x.1 x.2 ∧ Agree r.table x.1 x.2)
        (r.chain.filter ChainNode.isTested) tests := by
  obtain ⟨s, d', hs, hbind, -, hpending⟩ := compile_eq_ok h
  obtain ⟨aggregates, d, js, hwalk, -, rfl, hstatement⟩ := rootStatement_eq_ok hs
  obtain ⟨tests, before, more, hfilters, hmore, hbefore, hsub, hall⟩ :=
    hwalk.tested rfl (Draft.Aside.refl _).adds hpending
  -- nothing is pending where the walk starts
  obtain rfl : before = [] := List.map_eq_nil_iff.1 hbefore.symm
  have hown := (starts_statement rfl hstatement).filters
  have hrequired : ∀ n ∈ r.chain.filter ChainNode.isTested, n.requirement = .required := by
    intro n hn
    have htested := (List.mem_filter.1 hn).2
    simp only [ChainNode.isTested, decide_eq_true_eq] at htested
    exact htested.2.2
  have hagree := ((List.forall₂_and_left _ _).2 ⟨hrequired, hall⟩).imp
    fun n x hx => And.intro hx.2 (hx.2.agree hx.1)
  rw [hfilters] at hown
  exact ⟨s, _, tests, hs, hbind, hown, hmore ▸ hsub, hagree⟩

end Request

namespace Library

/-- Two books of one author, the first of them with a chapter. -/
def database : Database where
  rows name :=
    if name = "books" then [[.int 1, .int 7], [.int 2, .int 7]]
    else if name = "chapters" then [[.int 3, .int 1]]
    else [[.int 7, .text "Ada"]]
  sameKey v w :=
    match v.key, w.key with
    | some k, some l => some (k = l)
    | _, _ => none
  holds _ _ := some true
  sameKey_comm v w := by cases v.key <;> cases w.key <;> simp [eq_comm]
  sameKey_null _ := nofun

/-- The first book, as a row of the base statement. -/
def firstBook : DecodedRow where
  layout := .ofWidth 2
  names := ["id", "authorId"]
  row := ⟨["id", "authorId"], [.int 1, .int 7]⟩

end Library

namespace Request

/-- A book of the library is listed if chapters are fetched for it. -/
theorem existence_agrees_library :
    ∃ (q : CompiledQuery) (s : Statement) (x : SubQuery) (p : PrefetchPlan),
      Library.request.compile = .ok q ∧ s.filters = [.existence x] ∧ p ∈ q.prefetches ∧
      ((Condition.existence x).truth Library.database
          (fun _ => ⟨Library.books, Library.firstBook.row.values⟩) = some true ↔
        p.statement.combinations Library.database (p.parentKeys [Library.firstBook]) ≠ []) := by
  obtain ⟨q, hq⟩ := Library.exists_compile
  obtain ⟨s, d, tests, -, -, hfilters, hsub, hall⟩ := existence_agrees hq
  have hchain : Library.request.chain.filter ChainNode.isTested = [Library.chaptersOfBook] :=
    rfl
  rw [hchain] at hall
  obtain ⟨⟨x, p⟩, _, ⟨-, hagree⟩, hnil, rfl⟩ := List.forall₂_cons_left_iff.1 hall
  obtain rfl := List.forall₂_nil_left_iff.1 hnil
  have halike := hagree.alike Library.database
    (fun _ => ⟨Library.books, Library.firstBook.row.values⟩) Library.firstBook rfl fun _ _ => rfl
  exact ⟨q, s, x, p, hq, hfilters, hsub.subset List.mem_cons_self, halike⟩

end Request

end AssociationQuery
