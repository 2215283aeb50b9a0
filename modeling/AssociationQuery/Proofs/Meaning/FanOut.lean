import AssociationQuery.Proofs.Meaning.Agreement
import AssociationQuery.Proofs.Meaning.Groups
import AssociationQuery.Proofs.Visibility.Aggregates
import AssociationQuery.Proofs.Visibility.LookingBack

/-!
# AssociationQuery.Proofs.Meaning.FanOut

What the aggregates of a request compute next to each other.

All associations of a request are joined in one statement, which is grouped by the key of the
base table.  What else is joined multiplies the rows of an association: each of them occurs in a
group as often as the other joins prolong the base row.  Only sums tell the difference, and they
are multiples of what they should be, `Request.compile_aggregate_values`.
-/

namespace AssociationQuery

open Draft (AggregateStep)
open Truth (conj)

/-! ## groups of combinations -/

namespace Statement

/-- The combinations of rows that a statement lets through, before it groups them. -/
def combinationsIn (db : LinkedDatabase) (keys : List (List Value)) (s : Statement) :
    List Assignment :=
  ((db.rows s.table.name).flatMap fun row =>
    Join.extendAllIn db s.aliases s.joins (s.start row)).filter fun env =>
      s.keyFilter.toList.all (fun f => f.accepts db.toDatabase keys env) &&
        conj (Condition.truthAllIn db s.aliases s.filters env) = some true

/-- Without handles these are the combinations in the database that knows nothing of them. -/
theorem combinationsIn_eq {db : LinkedDatabase} {s : Statement} (keys : List (List Value))
    (hjoins : ∀ e ∈ Join.termsAll s.joins, e.handles = [])
    (hfilters : ∀ e ∈ Condition.termsAll s.filters, e.handles = []) :
    s.combinationsIn db keys = s.combinations db.toDatabase keys := by
  rw [combinationsIn, combinations, Join.extendAllIn_eq _ hjoins,
    Condition.truthAllIn_eq _ hfilters]

/-- The combinations that are in one group with those of a base row. -/
def group (db : LinkedDatabase) (ar : Arithmetic) (s : Statement) (base : TableRow) :
    List Assignment :=
  (s.combinationsIn db []).filter fun env =>
    s.groupBy.map (fun column => ar.rank ((env s.root).value column)) =
      s.groupBy.map fun column => ar.rank (base.value column)

/-- The value of an aggregate of a table's column for a base row. -/
def aggregateOf (db : LinkedDatabase) (ar : Arithmetic) (s : Statement) (base : TableRow)
    (f : AggregateFunction) (slot : Slot) (column : String) : Option ℚ :=
  f.value ar (TableRow.bag column ((s.group db ar base).map fun env => env slot))

end Statement

/-- The value of an aggregate over the rows that hops reach from a base row; handles in their
filters stand for the base row. -/
def Hop.aggregateOf (db : LinkedDatabase) (ar : Arithmetic) (hops : List Hop) (base : TableRow)
    (f : AggregateFunction) (column : String) : Option ℚ :=
  f.value ar (TableRow.bag column (reached db (fun _ => some base) hops base))

/-- No two rows of the table have the same primary key. -/
def Table.HasKey (db : LinkedDatabase) (ar : Arithmetic) (t : Table) : Prop :=
  ((db.rows t.name).map fun row =>
    t.primaryKey.map fun column => ar.rank ((TableRow.mk t row).value column)).Nodup

/-! ## rows several times -/

namespace TableRow

variable {column : String}

/-- A row that occurs several times has its value several times. -/
theorem bag_replicate (n : ℕ) (r : TableRow) :
    bag column (List.replicate n r) = n • bag column [r] := by
  induction n with
  | zero => simp [bag]
  | succ n ih =>
    rw [List.replicate_succ, ← List.singleton_append, bag_append, ih, succ_nsmul']

/-- Repeating each row repeats all values. -/
theorem bag_flatMap_replicate (n : ℕ) (xs : List α) (f : α → TableRow) :
    bag column (xs.flatMap fun x => List.replicate n (f x)) = n • bag column (xs.map f) := by
  induction xs with
  | nil => simp [bag]
  | cons x xs ih =>
    have hmap : (x :: xs).map f = [f x] ++ xs.map f := rfl
    rw [List.flatMap_cons, bag_append, bag_replicate, ih, hmap, bag_append, nsmul_add]

/-- If each element brings the same values, once for each of its combinations, all together bring
them once for each combination. -/
theorem bag_flatMap_nsmul {xs : List α} {f : α → List TableRow} {g : α → List β}
    {own : Multiset Value} (h : ∀ x ∈ xs, bag column (f x) = (g x).length • own) :
    bag column (xs.flatMap f) = (xs.flatMap g).length • own := by
  induction xs with
  | nil => simp [bag]
  | cons x xs ih =>
    obtain ⟨hx, hxs⟩ := List.forall_mem_cons.1 h
    rw [List.flatMap_cons, bag_append, hx, ih hxs, List.flatMap_cons, List.length_append, add_nsmul]

end TableRow

/-! ## joins that nothing reads -/

/-- Neither the later joins nor the test tell combinations apart by the given tables. -/
structure Join.Unread (db : LinkedDatabase) (m : AliasMap) (hidden : List Slot)
    (after : List Join) (test : Assignment → Bool) : Prop where
  later : ∀ env env', AgreeOff hidden env env' → List.Forall₂ (AgreeOff hidden)
    (Join.extendAllIn db m after env) (Join.extendAllIn db m after env')
  test : ∀ env env', AgreeOff hidden env env' → test env = test env'
  apart : ∀ s ∈ hidden, s ∉ after.map Join.slot

namespace Join

variable {db : LinkedDatabase} {m : AliasMap} {before own after : List Join}
  {test : Assignment → Bool}

/-- Combinations that agree are let through alike. -/
theorem Unread.filter_extendAllIn {hidden : List Slot} (h : Unread db m hidden after test)
    {env env' : Assignment} (hagree : AgreeOff hidden env env') :
    List.Forall₂ (AgreeOff hidden) ((extendAllIn db m after env).filter test)
      ((extendAllIn db m after env').filter test) :=
  List.rel_filter (fun e e' he => by simp only [h.test e e' he]) (h.later env env' hagree)

/-- The later joins repeat the row of a table that they do not read. -/
theorem Unread.map_filter_extendAllIn {hidden : List Slot} (h : Unread db m hidden after test)
    {env env' : Assignment} (hagree : AgreeOff hidden env env') {s : Slot} (hs : s ∈ hidden) :
    ((extendAllIn db m after env).filter test).map (fun e => e s) =
      List.replicate ((extendAllIn db m after env').filter test).length (env s) := by
  rw [← (h.filter_extendAllIn hagree).length_eq]
  refine List.eq_replicate_iff.2 ⟨List.length_map .., List.forall_mem_map.2 fun e he => ?_⟩
  exact eq_of_mem_extendAllIn (List.mem_of_mem_filter he) (h.apart s hs)

/-- Joins change the rows of their own tables only. -/
theorem agreeOff_of_mem_extendAllIn {env e : Assignment} (h : e ∈ extendAllIn db m own env) :
    AgreeOff (own.map slot) e env := fun _ hs => eq_of_mem_extendAllIn h hs

/-- Joins that are not read give each of their rows as often as the other joins let a
combination through. -/
theorem Unread.bag_extendAllIn (h : Unread db m (own.map slot) after test) {s : Slot}
    (hs : s ∈ own.map slot) {column : String} {bag : Multiset Value} {start : Assignment}
    (hown : ∀ env ∈ extendAllIn db m before start,
      TableRow.bag column ((extendAllIn db m own env).map fun e => e s) = bag) :
    TableRow.bag column
        (((extendAllIn db m (before ++ (own ++ after)) start).filter test).map fun e => e s) =
      ((extendAllIn db m (before ++ after) start).filter test).length • bag := by
  simp only [extendAllIn_append, List.filter_flatMap, List.map_flatMap]
  refine TableRow.bag_flatMap_nsmul fun env henv => ?_
  -- from `env` the other joins go on in the same number of ways whatever the own rows are
  rw [← hown env henv, ← TableRow.bag_flatMap_replicate]
  refine TableRow.bag_flatMap_congr fun e he => ?_
  rw [h.map_filter_extendAllIn (agreeOff_of_mem_extendAllIn he) hs]

/-- Left joins that are not read drop nothing. -/
theorem Unread.filter_eq_nil_iff (h : Unread db m (own.map slot) after test)
    (hleft : ∀ j ∈ own, j.kind = .left) (start : Assignment) :
    (extendAllIn db m (before ++ (own ++ after)) start).filter test = [] ↔
      (extendAllIn db m (before ++ after) start).filter test = [] := by
  simp only [extendAllIn_append, List.filter_flatMap, List.flatMap_eq_nil_iff]
  refine forall₂_congr fun env henv => ?_
  have hsame {e : Assignment} (he : e ∈ extendAllIn db m own env) :
      (extendAllIn db m after e).filter test = [] ↔
        (extendAllIn db m after env).filter test = [] := by
    rw [← List.length_eq_zero_iff, ← List.length_eq_zero_iff,
      (h.filter_extendAllIn (agreeOff_of_mem_extendAllIn he)).length_eq]
  constructor
  · intro hnone
    obtain ⟨e, he⟩ := List.exists_mem_of_ne_nil _ (extendAllIn_ne_nil hleft env)
    exact (hsame he).1 (hnone e he)
  · intro hnone e he
    exact (hsame he).2 hnone

end Join

/-! ## groups of base rows -/

/-- Among elements that some property tells apart only the one with the property counts. -/
theorem flatMap_of_nodup_map {f : α → γ} {g : α → List β} {xs : List α} (h : (xs.map f).Nodup)
    {x : α} (hx : x ∈ xs) (hothers : ∀ y, f y ≠ f x → g y = []) : xs.flatMap g = g x := by
  induction xs with
  | nil => cases hx
  | cons y xs ih =>
    rw [List.map_cons, List.nodup_cons] at h
    rw [List.flatMap_cons]
    rcases List.mem_cons.1 hx with rfl | hx
    · have hnone : xs.flatMap g = [] := List.flatMap_eq_nil_iff.2 fun z hz =>
        hothers z fun heq => h.1 (heq ▸ List.mem_map_of_mem hz)
      rw [hnone, List.append_nil]
    · rw [hothers y fun heq => h.1 (heq ▸ List.mem_map_of_mem hx), ih h.2 hx, List.nil_append]

namespace Statement

variable {db : LinkedDatabase} {ar : Arithmetic} {s : Statement} {row : List Value}

/-- The combinations with a base row that a statement lets through. -/
def combinationsFrom (db : LinkedDatabase) (s : Statement) (row : List Value) : List Assignment :=
  (Join.extendAllIn db s.aliases s.joins (s.start row)).filter fun env =>
    conj (Condition.truthAllIn db s.aliases s.filters env) = some true

/-- Without a key filter the combinations are those from each base row. -/
theorem combinationsIn_eq_flatMap (hkey : s.keyFilter = none) :
    s.combinationsIn db [] = (db.rows s.table.name).flatMap (s.combinationsFrom db) := by
  simp only [combinationsIn, hkey, List.filter_flatMap, Option.toList_none, List.all_nil,
    Bool.true_and]
  rfl

/-- In the combinations from a base row, that row stands for the base table. -/
theorem root_of_mem_combinationsFrom (hroot : s.root ∉ s.joins.map Join.slot) {env : Assignment}
    (h : env ∈ s.combinationsFrom db row) : env s.root = ⟨s.table, row⟩ := by
  rw [Join.eq_of_mem_extendAllIn (List.mem_of_mem_filter h) hroot, start, Function.update_self]

/-- The statement reads its table under no keys and groups by the columns that identify its
rows. -/
structure GroupsByIdentity (s : Statement) : Prop where
  keyFilter : s.keyFilter = none
  groupBy : s.groupBy = Request.identity s.table
  root : s.root ∉ s.joins.map Join.slot

/-- The statement reads its table under no keys and groups by the table's own. -/
structure GroupsByKey (s : Statement) : Prop where
  keyFilter : s.keyFilter = none
  groupBy : s.groupBy = s.table.primaryKey
  root : s.root ∉ s.joins.map Join.slot

/-- With a primary key, the columns that identify rows are those of the key. -/
theorem GroupsByIdentity.groupsByKey (h : s.GroupsByIdentity) (hkey : s.table.primaryKey ≠ []) :
    s.GroupsByKey where
  keyFilter := h.keyFilter
  groupBy := by
    rw [h.groupBy, Request.identity, List.isEmpty_eq_false_iff.2 hkey, if_neg Bool.false_ne_true]
  root := h.root

namespace GroupsByKey

/-- Grouping does not depend on the joins. -/
theorem withJoins (h : s.GroupsByKey) {js : List Join} (hjs : js ⊆ s.joins) :
    { s with joins := js }.GroupsByKey where
  keyFilter := h.keyFilter
  groupBy := h.groupBy
  root := fun hmem => h.root (List.map_subset _ hjs hmem)

/-- If the rows of the base table have keys of their own, a group has the combinations with one
of these rows. -/
theorem group_eq (h : s.GroupsByKey) (hrows : s.table.HasKey db ar)
    (hrow : row ∈ db.rows s.table.name) :
    s.group db ar ⟨s.table, row⟩ = s.combinationsFrom db row := by
  rw [group, combinationsIn_eq_flatMap h.keyFilter, h.groupBy, List.filter_flatMap]
  -- the joins keep the base row, so the test on the group picks the base rows of one key
  refine (flatMap_of_nodup_map hrows hrow fun other hother => ?_).trans ?_
  · refine List.filter_eq_nil_iff.2 fun env henv => ?_
    rw [root_of_mem_combinationsFrom h.root henv]
    simpa using hother
  · refine List.filter_eq_self.2 fun env henv => ?_
    rw [root_of_mem_combinationsFrom h.root henv]
    exact decide_eq_true rfl

end GroupsByKey

/-- Some of the joins are read neither by the later ones nor by WHERE, not even through a
handle, and no handle stands for the table of a later one. -/
structure Apart (s : Statement) (before own after : List Join) : Prop where
  joins : s.joins = before ++ (own ++ after)
  left : ∀ j ∈ own, j.kind = .left
  later : ∀ j ∈ after, ∀ c ∈ j.on, c.Within (s.root :: after.map Join.slot)
  filters : ∀ c ∈ s.filters, c.Within [s.root]
  handles : ∀ a slot, s.aliases.slotOf? a = some slot → slot ∉ (own ++ after).map Join.slot

namespace Apart

variable {before own after : List Join}

/-- The other joins are joins of the statement. -/
theorem others_subset (h : s.Apart before own after) : before ++ after ⊆ s.joins := by
  rw [h.joins]
  exact List.append_subset.2 ⟨List.subset_append_left ..,
    List.subset_append_of_subset_right _ (List.subset_append_right ..)⟩

/-- No expression of the statement refers to the tables of the aggregate. -/
theorem avoids (h : s.Apart before own after) (e : Expr) :
    e.Avoids s.aliases (own.map Join.slot) := by
  intro a _ slot hslot heq
  refine h.handles a slot heq ?_
  rw [List.map_append]
  exact List.mem_append_left _ hslot

/-- The tables of the joins are no others of the statement. -/
theorem disjoint (h : s.Apart before own after) (hs : s.Scoped) :
    (own.map Join.slot).Nodup ∧ ∀ slot ∈ own.map Join.slot,
      slot ∉ s.root :: (before ++ after).map Join.slot ∧ slot ∉ s.owned := by
  have hslots : (s.slots ++ s.owned).Perm
      (own.map Join.slot ++ (s.root :: (before ++ after).map Join.slot ++ s.owned)) := by
    rw [slots, h.joins, ← List.append_assoc (own.map Join.slot)]
    simp only [List.map_append]
    exact .append_right _ ((List.perm_append_comm_assoc ..).cons _ |>.trans List.perm_middle.symm)
  have hnodup := hslots.nodup_iff.1 hs.nodup
  rw [List.nodup_append] at hnodup
  obtain ⟨hown, -, hdisjoint⟩ := hnodup
  refine ⟨hown, fun slot hslot => ⟨fun hmem => ?_, fun hmem => ?_⟩⟩
  · exact hdisjoint slot hslot slot (List.mem_append_left _ hmem) rfl
  · exact hdisjoint slot hslot slot (List.mem_append_right _ hmem) rfl

/-- What is joined after the aggregate, and what is filtered, does not read its tables. -/
theorem unread (h : s.Apart before own after) (hs : s.Scoped) :
    Join.Unread db s.aliases (own.map Join.slot) after fun env =>
      conj (Condition.truthAllIn db s.aliases s.filters env) = some true := by
  obtain ⟨-, hdisjoint⟩ := h.disjoint hs
  -- the joins behind these name the base row and one another
  have hlater : ∀ slot ∈ own.map Join.slot,
      slot ∉ s.root :: after.map Join.slot ++ Join.ownedAll after := by
    intro slot hslot hmem
    obtain ⟨hnot, hnotOwned⟩ := hdisjoint slot hslot
    rw [owned, h.joins, Join.ownedAll_append, Join.ownedAll_append] at hnotOwned
    simp only [List.map_append, List.mem_cons, List.mem_append, not_or] at hnot hnotOwned hmem
    tauto
  have hfilters : ∀ slot ∈ own.map Join.slot,
      slot ∉ [s.root] ++ Condition.ownedAll s.filters := by
    intro slot hslot hmem
    obtain ⟨hnot, hnotOwned⟩ := hdisjoint slot hslot
    rw [owned] at hnotOwned
    simp only [List.mem_cons, List.mem_append, List.not_mem_nil, not_or] at hnot hnotOwned hmem
    tauto
  exact {
    later := fun env env' hagree =>
      Join.extendAllIn_congr after h.later (fun e _ => h.avoids e) hlater hagree
    test := fun env env' hagree => by
      rw [Condition.truthAllIn_congr s.filters h.filters (fun e _ => h.avoids e) hfilters hagree]
    apart := fun slot hslot hmem =>
      hlater slot hslot (List.mem_append_left _ (List.mem_cons_of_mem _ hmem)) }

/-- The earlier joins keep the base row. -/
theorem root_of_mem_extendAllIn (h : s.Apart before own after)
    (hroot : s.root ∉ s.joins.map Join.slot) {env : Assignment}
    (henv : env ∈ Join.extendAllIn db s.aliases before (s.start row)) :
    env s.root = ⟨s.table, row⟩ := by
  rw [Join.eq_of_mem_extendAllIn henv fun hmem => hroot ?_, start, Function.update_self]
  rw [h.joins, List.map_append]
  exact List.mem_append_left _ hmem

/-- From a combination of other tables the joins give the values that the hops reach. -/
theorem bag_own (h : s.Apart before own after) (hs : s.Scoped) {hops : List Hop}
    (halong : Join.Along [] [] s.root hops own) (hkeyed : ∀ g ∈ hops, g.mapping ≠ [])
    (env : Assignment) (column : String) :
    TableRow.bag column ((Join.extendAllIn db s.aliases own env).map
        fun e => e (Join.lastSlot s.root own)) =
      TableRow.bag column (Hop.reached db (s.aliases.row? env) hops (env s.root)) := by
  obtain ⟨hnodup, hdisjoint⟩ := h.disjoint hs
  have hroot : s.root ∉ own.map Join.slot := fun hmem =>
    (hdisjoint _ hmem).1 List.mem_cons_self
  exact halong.bag_extendAllIn h.left (List.nodup_cons.2 ⟨hroot, hnodup⟩) hkeyed
    (fun _ _ e _ => ⟨h.avoids e, fun _ _ => rfl⟩) column

/-- In the group of a base row the rows of the joins occur as often as the other joins of the
statement prolong the base row. -/
theorem bag_group (h : s.Apart before own after) (hs : s.Scoped) (hkey : s.GroupsByKey)
    (hrows : s.table.HasKey db ar) (hrow : row ∈ db.rows s.table.name) {hops : List Hop}
    (halong : Join.Along [] [] s.root hops own) (hkeyed : ∀ g ∈ hops, g.mapping ≠ [])
    (hhandles : ∀ g ∈ hops, ∀ e ∈ g.filters, ∀ a ∈ e.handles, s.aliases.slotOf? a = some s.root)
    (column : String) :
    let base : TableRow := ⟨s.table, row⟩
    TableRow.bag column ((s.group db ar base).map fun env => env (Join.lastSlot s.root own)) =
      ({ s with joins := before ++ after }.group db ar base).length •
        TableRow.bag column (Hop.reached db (fun _ => some base) hops base) := by
  intro base
  rw [hkey.group_eq hrows hrow, (hkey.withJoins h.others_subset).group_eq hrows hrow,
    combinationsFrom, combinationsFrom, h.joins]
  refine (h.unread hs).bag_extendAllIn halong.lastSlot_mem fun env henv => ?_
  have hbase := h.root_of_mem_extendAllIn hkey.root henv
  rw [h.bag_own hs halong hkeyed, hbase]
  refine congrArg _ (Hop.reached_congr (fun g hg e he a ha => ?_) base)
  rw [AliasMap.row?, hhandles g hg e he a ha, Option.map_some, hbase]

/-- The joins drop no base row. -/
theorem group_eq_nil_iff (h : s.Apart before own after) (hs : s.Scoped) (hkey : s.GroupsByKey)
    (hrows : s.table.HasKey db ar) (hrow : row ∈ db.rows s.table.name) :
    s.group db ar ⟨s.table, row⟩ = [] ↔
      { s with joins := before ++ after }.group db ar ⟨s.table, row⟩ = [] := by
  rw [hkey.group_eq hrows hrow, (hkey.withJoins h.others_subset).group_eq hrows hrow,
    combinationsFrom, combinationsFrom, h.joins]
  exact (h.unread hs).filter_eq_nil_iff h.left _

end Apart

/-- For a base row, aggregates of a table are those over the rows that the hops reach, except
that sums are over these rows `n` times. -/
structure Repeats (db : LinkedDatabase) (ar : Arithmetic) (s : Statement) (base : TableRow)
    (slot : Slot) (hops : List Hop) (n : ℕ) : Prop where
  others : ∀ f column, f ≠ .sum →
    s.aggregateOf db ar base f slot column = Hop.aggregateOf db ar hops base f column
  sum : ∀ column, s.aggregateOf db ar base .sum slot column =
    (Hop.aggregateOf db ar hops base .sum column).map fun x : ℚ => n * x
  sum_eq_iff : ∀ column,
    s.aggregateOf db ar base .sum slot column = Hop.aggregateOf db ar hops base .sum column ↔
      n = 1 ∨ ∀ x ∈ Hop.aggregateOf db ar hops base .sum column, x = 0

/-- If the values of the group are those of the reached rows `n` times, aggregates repeat them. -/
theorem repeats_of_bag {base : TableRow} {slot : Slot} {hops : List Hop} {n : ℕ} (hn : 0 < n)
    (h : ∀ column, TableRow.bag column ((s.group db ar base).map fun env => env slot) =
      n • TableRow.bag column (Hop.reached db (fun _ => some base) hops base)) :
    s.Repeats db ar base slot hops n where
  others f column hf := by
    rw [aggregateOf, h, AggregateFunction.value_nsmul hf hn, Hop.aggregateOf]
  sum column := by
    rw [aggregateOf, h, AggregateFunction.sum_nsmul hn, Hop.aggregateOf]
  sum_eq_iff column := by
    rw [aggregateOf, h, Hop.aggregateOf]
    exact AggregateFunction.sum_nsmul_eq_iff hn

/-- What is rendered has a table for each aggregate. -/
theorem exists_aggregate_of_bind {d : Dialect} {keys : List (List Value)} {text : BoundSql}
    (h : s.bind d keys = .ok text) {e : Expr} (he : e ∈ s.terms) {a : Association}
    (ha : a ∈ e.writtenAggregates) :
    ∃ b slot, s.aggregates.find? (fun p => p.1.equal a) = some (b, slot) := by
  simp only [bind, bind_eq_ok] at h
  obtain ⟨ts, hrender, -⟩ := h
  obtain ⟨hidden, at', ts', he⟩ := renders_of_render hrender e he
  obtain ⟨name, hname⟩ := e.exists_aggregate_of_render he a ha
  simp only [RenderContext.resolver, RenderContext.resolveAggregate] at hname
  split at hname
  · next p hp => exact ⟨p.1, p.2, hp⟩
  · cases hname

end Statement

/-! ## aggregates of a request -/

namespace Request

open Draft (Planned)

/-- No handle is on a table that is joined for an aggregate. -/
theorem index_lt_of_handle {r : Request} {config : Config} {m : AliasMap} {d d' : Draft}
    {js : List Join}
    (hwalk : Planned config (.base r.table) r.chain
      (.start config.numbering r.table (r.table.width + r.annotations.length)) d)
    (hd' : d' = (d.withJoins js).register Draft.root r.aliases)
    (haliases : d'.aliases.allocate = .ok m) {a : TableAlias} {slot : Slot}
    (h : m.slotOf? a = some slot) : slot.index < d.next := by
  obtain ⟨hclosed, -⟩ := hwalk.closed (.start ..) List.mem_cons_self
  have hbase := hclosed.handles.register (hclosed.index_lt List.mem_cons_self) r.aliases
  obtain ⟨p, hp, rfl, -⟩ := AliasRequests.exists_registration_of_allocate haliases h
  rw [hd', Draft.registrations_register] at hp
  rw [← Draft.next_register d Draft.root r.aliases]
  refine hbase p ?_
  rw [Draft.registrations_register]
  exact hp

/-- Each association that is aggregated over is joined apart from the rest of the statement. -/
theorem exists_apart {r : Request} {config : Config} {s : Statement} {d' : Draft}
    (h : r.rootStatement config = .ok (s, d')) {a : Association} {slot : Slot}
    (ha : (a, slot) ∈ s.aggregates) :
    ∃ route before own after, a.routeFor .optional = .ok route ∧
      Join.Along [] [] s.root route.hops own ∧ slot = Join.lastSlot s.root own ∧
      s.Apart before own after := by
  obtain ⟨d, xs, hwalk, hxs, hd', haliases, hs⟩ := rootStatement_steps h
  have hstarts := starts_statement hd' hs
  have hplaces := places_statement hwalk hxs hstarts
  have hroot := hstarts.root
  have hjoins := hstarts.joins
  rw [hstarts.aggregates] at ha
  obtain ⟨x, hx, heq⟩ := List.mem_map.1 ha
  obtain ⟨rfl, rfl⟩ := Prod.mk.inj heq
  obtain ⟨hroute, -, halong⟩ := hxs.along x hx
  have hnumbered := hxs.aggregateJoins.numbered
  -- the joins of the aggregates stand behind those of the nodes, one aggregate after the other
  obtain ⟨xs₁, xs₂, rfl⟩ := List.append_of_mem hx
  rw [← hroot] at halong
  refine ⟨x.route, d.joins ++ xs₁.flatMap AggregateStep.joins, x.joins,
    xs₂.flatMap AggregateStep.joins, hroute, halong, by rw [hroot]; rfl, ?_⟩
  exact {
    joins := by rw [hjoins, List.flatMap_append, List.flatMap_cons, List.append_assoc]
    left := x.aggregateJoins.left
    later := by
      intro j hj
      obtain ⟨y, hy, hj'⟩ := List.mem_flatMap.1 hj
      refine (y.aggregateJoins.links j hj').within
        (List.mem_cons_of_mem _ (List.mem_map_of_mem hj)) ?_
      rw [hroot]
      refine List.cons_subset_cons _ (List.map_subset _ fun k hk => ?_)
      exact List.mem_flatMap.2 ⟨y, hy, hk⟩
    filters := by
      obtain ⟨tests, hfilters, htests⟩ := hplaces.filters
      rw [hfilters]
      exact List.forall_mem_append.2 ⟨Condition.within_conditionsOn (List.mem_singleton_self _) _,
        Draft.within_of_guards htests⟩
    handles := by
      intro b slot hslot hmem
      have hlt := index_lt_of_handle hwalk hd' haliases hslot
      obtain ⟨j, hj, rfl⟩ := List.mem_map.1 hmem
      have hj : j ∈ (xs₁ ++ x :: xs₂).flatMap AggregateStep.joins := by
        rw [List.flatMap_append, List.flatMap_cons]
        exact List.mem_append_right _ hj
      have hle := hnumbered.le_index hj
      exact absurd hlt (Nat.not_lt.2 hle) }

/-- Annotations are written. -/
theorem annotation_mem_terms {r : Request} {config : Config} {s : Statement} {d : Draft}
    (h : r.rootStatement config = .ok (s, d)) {p : Expr × String} (hp : p ∈ r.annotations) :
    p.1 ∈ s.terms := by
  obtain ⟨_, xs, -, -, hd, -, hs⟩ := rootStatement_steps h
  have hselect : .expr p.1 Draft.root p.2 ∈ s.select := by
    rw [(starts_statement hd hs).select]
    exact List.mem_append_left _ (List.mem_cons_of_mem _ (List.mem_map_of_mem hp))
  simp only [Statement.terms, List.append_assoc]
  exact List.mem_append_left _ (List.mem_filterMap.2 ⟨_, hselect, rfl⟩)

/-- A base statement with aggregates groups its rows by the columns that identify them. -/
theorem groupsByIdentity_rootStatement {r : Request} {config : Config} {s : Statement} {d : Draft}
    (h : r.rootStatement config = .ok (s, d)) (hscoped : s.Scoped)
    (haggregates : s.aggregates ≠ []) : s.table = r.table ∧ s.GroupsByIdentity := by
  obtain ⟨_, xs, -, -, hd, -, hs⟩ := rootStatement_steps h
  have hstarts := starts_statement hd hs
  have hgroup := hstarts.groupBy
  rw [List.isEmpty_eq_false_iff.2 haggregates, Bool.not_false, Bool.true_or, if_pos rfl,
    ← hstarts.table] at hgroup
  have hnodup := (List.nodup_append.1 hscoped.nodup).1
  exact ⟨hstarts.table, hstarts.keyFilter, hgroup, (List.nodup_cons.1 hnodup).1⟩

/-- A base statement with aggregates groups its rows by the key of the base table. -/
theorem groupsByKey_rootStatement {r : Request} {config : Config} {s : Statement} {d : Draft}
    (h : r.rootStatement config = .ok (s, d)) (hscoped : s.Scoped) (hkey : r.table.primaryKey ≠ [])
    (haggregates : s.aggregates ≠ []) : s.table = r.table ∧ s.GroupsByKey := by
  obtain ⟨htable, hgroups⟩ := groupsByIdentity_rootStatement h hscoped haggregates
  exact ⟨htable, hgroups.groupsByKey (htable ▸ hkey)⟩

/-- Next to each other, all aggregates of annotations but sums are those over the rows that their
associations reach from the base row.  A sum is multiplied by the number of combinations of the
base row with the other joins of the statement. -/
theorem compile_aggregate_values {r : Request} {config : Config} {q : CompiledQuery}
    (h : r.compile config = .ok q) (hkey : r.table.primaryKey ≠ []) :
    ∃ s d, r.rootStatement config = .ok (s, d) ∧ s.bind config.dialect [] = .ok q.root.text ∧
      ∀ p ∈ r.annotations, ∀ a ∈ p.1.writtenAggregates, ∃ b slot route before own after,
        s.aggregates.find? (fun x => x.1.equal a) = some (b, slot) ∧
        b.routeFor .optional = .ok route ∧ s.joins = before ++ (own ++ after) ∧
        Join.Along [] [] s.root route.hops own ∧ slot = Join.lastSlot s.root own ∧
        ∀ (db : LinkedDatabase) (ar : Arithmetic), r.table.HasKey db ar → b.isKeyed →
          (∀ e ∈ route.filters, ∀ x ∈ e.handles, s.aliases.slotOf? x = some s.root) →
          ∀ row ∈ db.rows r.table.name,
            let others := { s with joins := before ++ after }.group db ar ⟨r.table, row⟩
            (s.group db ar ⟨r.table, row⟩ = [] ↔ others = []) ∧
              (others ≠ [] → s.Repeats db ar ⟨r.table, row⟩ slot route.hops others.length) := by
  obtain ⟨s, d, hs, hbind, -, -⟩ := compile_eq_ok h
  have hscoped := scoped_rootStatement hs hbind
  refine ⟨s, d, hs, hbind, fun p hp a ha => ?_⟩
  have hterm := annotation_mem_terms hs hp
  obtain ⟨b, slot, hfind⟩ := Statement.exists_aggregate_of_bind hbind hterm ha
  have hmem := List.mem_of_find?_eq_some hfind
  obtain ⟨route, before, own, after, hroute, halong, hslot, hapart⟩ := exists_apart hs hmem
  obtain ⟨htable, hgroups⟩ := groupsByKey_rootStatement hs hscoped hkey (List.ne_nil_of_mem hmem)
  refine ⟨b, slot, route, before, own, after, hfind, hroute, hapart.joins, halong, hslot, ?_⟩
  rw [← htable]
  intro db ar hrows hkeyed hhandles row hrow
  refine ⟨hapart.group_eq_nil_iff hscoped hgroups hrows hrow, fun hothers => ?_⟩
  -- every row that is reached stands in the group once for each row of the other joins
  refine Statement.repeats_of_bag (List.length_pos_iff.2 hothers) fun column => ?_
  rw [hslot]
  exact hapart.bag_group hscoped hgroups hrows hrow halong
    (b.mapping_ne_nil_of_isKeyed hkeyed hroute)
    (fun g hg e he => hhandles e (List.mem_flatMap.2 ⟨g, hg, he⟩)) column

end Request

namespace Library

def awards : Table := ⟨"awards", ["id", "authorId", "amount"], ["id"]⟩

def awardsOfAuthor : Association :=
  .direct .hasMany "awards" authors awards [("id", "authorId")] [] [] none

/-- Authors with the total of their awards and the number of their books. -/
def honoured : Request where
  table := authors
  annotations :=
    [(awardsOfAuthor.sum "amount", "won"), (booksOfAuthor.association.count, "written")]

/-- The request compiles. -/
theorem exists_compile_honoured : ∃ q, honoured.compile = .ok q :=
  exists_of_isOk (by decide +kernel)

/-- An author of two books, with one award. -/
def shelf : LinkedDatabase where
  toDatabase := { database with
    rows := fun name =>
      if name = "authors" then [[.int 7, .text "Ada"]]
      else if name = "books" then [[.int 1, .int 7], [.int 2, .int 7]]
      else if name = "awards" then [[.int 3, .int 7, .int 30]]
      else [] }
  tells _ _ _ := some true
  tells_congr _ _ := rfl
  tells_eq_holds _ _ _ := rfl

def wholeNumbers : Arithmetic where
  number v := v.toInt?.getD 0
  rank v := v.toInt?.getD 0

def ada : TableRow := ⟨authors, [.int 7, .text "Ada"]⟩

/-- What the statement computes for the author, and what the hops reach. -/
theorem computed_honoured {s : Statement} {d : Draft} (h : honoured.rootStatement {} = .ok (s, d))
    {b : Association} {slot : Slot}
    (hb : s.aggregates.find? (fun x => x.1.equal awardsOfAuthor) = some (b, slot)) {route : Route}
    (hroute : b.routeFor .optional = .ok route) :
    b.isKeyed ∧ route.filters = [] ∧ s.group shelf wholeNumbers ada ≠ [] ∧
      Join.termsAll s.joins = [] ∧ Condition.termsAll s.filters = [] ∧
      s.aggregateOf shelf wholeNumbers ada .sum slot "amount" = some 60 ∧
      Hop.aggregateOf shelf wholeNumbers route.hops ada .sum "amount" = some 30 := by
  have hcomputed : (honoured.rootStatement {}).toOption.any (fun p =>
      (p.1.aggregates.find? fun x => x.1.equal awardsOfAuthor).any fun x =>
        (x.1.routeFor .optional).toOption.any fun route =>
          x.1.isKeyed && route.filters.isEmpty && !(p.1.group shelf wholeNumbers ada).isEmpty &&
            (Join.termsAll p.1.joins).isEmpty && (Condition.termsAll p.1.filters).isEmpty &&
            p.1.aggregateOf shelf wholeNumbers ada .sum x.2 "amount" = some 60 &&
            Hop.aggregateOf shelf wholeNumbers route.hops ada .sum "amount" = some 30) = true := by
    decide +kernel
  rw [h, Except.toOption, Option.any_some, hb, Option.any_some, hroute, Except.toOption,
    Option.any_some] at hcomputed
  simpa [and_assoc] using hcomputed

end Library

/-- An award of 30 makes a total of 60 for an author with two books.  No condition of the
statement has a handle, so what it combines is known without the links. -/
theorem Request.compile_aggregate_values_honoured :
    ∃ (q : CompiledQuery) (s : Statement) (slot : Slot) (route : Route),
      Library.honoured.compile = .ok q ∧ s.bind .postgres [] = .ok q.root.text ∧
      s.combinationsIn Library.shelf [] = s.combinations Library.shelf.toDatabase [] ∧
      s.Repeats Library.shelf Library.wholeNumbers Library.ada slot route.hops 2 ∧
      s.aggregateOf Library.shelf Library.wholeNumbers Library.ada .sum slot "amount" = some 60 ∧
      Hop.aggregateOf Library.shelf Library.wholeNumbers route.hops Library.ada .sum "amount" =
        some 30 := by
  obtain ⟨q, hq⟩ := Library.exists_compile_honoured
  obtain ⟨s, d, hs, hbind, hvalues⟩ := compile_aggregate_values hq (by decide)
  obtain ⟨b, slot, route, before, own, after, hfind, hroute, -, -, -, hrows⟩ :=
    hvalues _ List.mem_cons_self Library.awardsOfAuthor List.mem_cons_self
  obtain ⟨hkeyed, hfilters, hgroup, hjoined, hfiltered, hsixty, hthirty⟩ :=
    Library.computed_honoured hs hfind hroute
  have hkey : Library.authors.HasKey Library.shelf Library.wholeNumbers := by
    rw [Table.HasKey]
    decide +kernel
  obtain ⟨hnone, hothers⟩ := hrows Library.shelf Library.wholeNumbers hkey hkeyed
    (by rw [hfilters]; exact List.forall_mem_nil _) Library.ada.values List.mem_cons_self
  have hrepeats : s.Repeats _ _ Library.ada slot route.hops _ := hothers (mt hnone.2 hgroup)
  have htwice := hrepeats.sum "amount"
  rw [hsixty, hthirty] at htwice
  -- the factor is 2, since the two sums are known
  have hsixty' : (60 : ℚ) = (2 : ℕ) * 30 := by decide +kernel
  have htwo := mul_right_cancel₀ (by decide +kernel) ((Option.some.inj htwice).symm.trans hsixty')
  rw [Nat.cast_injective htwo] at hrepeats
  have hplain : s.combinationsIn Library.shelf [] = s.combinations Library.shelf.toDatabase [] :=
    Statement.combinationsIn_eq [] (hjoined ▸ List.forall_mem_nil _)
      (hfiltered ▸ List.forall_mem_nil _)
  exact ⟨q, s, slot, route, hq, hbind, hplain, hrepeats, hsixty, hthirty⟩

end AssociationQuery
