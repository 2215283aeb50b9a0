import AssociationQuery.Proofs.Building.Equality
import AssociationQuery.Proofs.Meaning.FanOut
import Mathlib.Data.Finset.Card

/-!
# AssociationQuery.Proofs.Meaning.Counts

How many rows an association reaches from a base row.

What else is joined repeats the rows of an association, but adds and drops none:
`Statement.Apart.mem_bag_group`.  So a count that tells rows apart is right whatever stands next
to it.  It looks at the first column of the primary key only.  Rows that share it count once,
and the number is right just if there are none, `Request.compile_counts`; a key of one column
always tells rows apart.  Whether there is a row at all is told rightly for keys of any length.
-/

namespace AssociationQuery

open Truth (conj)

deriving instance DecidableEq for TableRow

/-! ## values of several rows -/

namespace TableRow

variable {ar : Arithmetic} {column : String} {rows : List TableRow} {v : Value}

/-- The values of a column are those in some row, without NULL. -/
theorem mem_bag : v ∈ bag column rows ↔ (∃ r ∈ rows, r.value column = v) ∧ v.isNull = false := by
  simp [bag]

/-- Which values there are depends on which rows there are. -/
theorem mem_bag_map_congr {xs ys : List α} (h : ∀ x, x ∈ xs ↔ x ∈ ys) (f : α → TableRow) :
    v ∈ bag column (xs.map f) ↔ v ∈ bag column (ys.map f) := by
  simp only [mem_bag, List.mem_map, h]

/-- The values in several lists of rows are those in some of them. -/
theorem mem_bag_flatMap {xs : List α} {f : α → List TableRow} :
    v ∈ bag column (xs.flatMap f) ↔ ∃ x ∈ xs, v ∈ bag column (f x) := by
  simp only [mem_bag, List.mem_flatMap]
  grind

/-- The column is not NULL in any of the rows. -/
def Filled (column : String) (rows : List TableRow) : Prop :=
  ∀ r ∈ rows, (r.value column).isNull = false

/-- Without NULL, the different values are those of the different rows. -/
theorem toFinset_map_bag (h : Filled column rows) :
    ((bag column rows).map ar.rank).toFinset =
      rows.toFinset.image fun r => ar.rank (r.value column) := by
  ext x
  simp only [Multiset.mem_toFinset, Multiset.mem_map, mem_bag, Finset.mem_image, List.mem_toFinset]
  constructor
  · rintro ⟨_, ⟨⟨r, hr, rfl⟩, -⟩, rfl⟩
    exact ⟨r, hr, rfl⟩
  · rintro ⟨r, hr, rfl⟩
    exact ⟨_, ⟨⟨r, hr, rfl⟩, h r hr⟩, rfl⟩

/-- No two of the rows agree in the column. -/
def ToldApart (ar : Arithmetic) (column : String) (rows : List TableRow) : Prop :=
  ∀ r ∈ rows, ∀ r' ∈ rows, ar.rank (r.value column) = ar.rank (r'.value column) → r = r'

/-- There are as many values as rows if the column tells the rows apart. -/
theorem card_image_eq_iff :
    (rows.toFinset.image fun r => ar.rank (r.value column)).card = rows.toFinset.card ↔
      ToldApart ar column rows := by
  rw [Finset.card_image_iff, Set.InjOn, List.coe_toFinset]
  exact ⟨fun h r hr r' hr' => h hr hr', fun h r hr r' hr' => h r hr r' hr'⟩

end TableRow

/-! ## primary keys -/

namespace Table

/-- The rows of the table have primary keys: unique ones, without NULL. -/
structure HasPrimaryKey (db : LinkedDatabase) (ar : Arithmetic) (t : Table) : Prop where
  columns : t.primaryKey ≠ []
  unique : t.HasKey db ar
  filled : ∀ row ∈ db.rows t.name, ∀ column ∈ t.primaryKey,
    ((TableRow.mk t row).value column).isNull = false

/-- Rows of the table that agree in the columns that identify them are the same. -/
def Identified (db : LinkedDatabase) (ar : Arithmetic) (t : Table) : Prop :=
  ∀ row ∈ db.rows t.name, ∀ row' ∈ db.rows t.name,
    (Request.identity t).map (fun column => ar.rank ((TableRow.mk t row).value column)) =
      (Request.identity t).map (fun column => ar.rank ((TableRow.mk t row').value column)) →
    row = row'

/-- All of the rows are rows of the table. -/
def Lists (db : LinkedDatabase) (t : Table) (rows : List TableRow) : Prop :=
  ∀ r ∈ rows, ∃ row ∈ db.rows t.name, r = ⟨t, row⟩

variable {db : LinkedDatabase} {ar : Arithmetic} {t : Table} {rows : List TableRow}

/-- What is counted is a column of the primary key. -/
theorem countedColumn_mem (h : t.primaryKey ≠ []) : t.countedColumn ∈ t.primaryKey := by
  rw [countedColumn, List.head?_eq_some_head h]
  exact List.head_mem h

namespace HasPrimaryKey

/-- It is not NULL in any row of the table. -/
theorem filled_countedColumn (h : t.HasPrimaryKey db ar) (hrows : t.Lists db rows) :
    TableRow.Filled t.countedColumn rows := by
  intro r hr
  obtain ⟨row, hrow, rfl⟩ := hrows r hr
  exact h.filled row hrow _ (countedColumn_mem h.columns)

/-- A key of one column tells rows apart. -/
theorem toldApart (h : t.HasPrimaryKey db ar) (hlength : t.primaryKey.length = 1)
    (hrows : t.Lists db rows) : TableRow.ToldApart ar t.countedColumn rows := by
  obtain ⟨column, hcolumn⟩ := List.length_eq_one_iff.1 hlength
  have hcounted : t.countedColumn = column := by
    rw [countedColumn, hcolumn]
    rfl
  intro r hr r' hr' heq
  obtain ⟨row, hrow, rfl⟩ := hrows r hr
  obtain ⟨row', hrow', rfl⟩ := hrows r' hr'
  have hsame := List.inj_on_of_nodup_map h.unique hrow hrow'
  rw [hcolumn, List.map_singleton, List.map_singleton, ← hcounted, heq] at hsame
  rw [hsame rfl]

end HasPrimaryKey

end Table

namespace Hop

variable {db : LinkedDatabase} {handles : TableAlias → Option TableRow}

/-- What hops reach are rows of the table that the last of them leads to. -/
theorem lists_reached {hs : List Hop} {g : Hop} (hlast : hs.getLast? = some g) (r : TableRow) :
    g.destination.Lists db (reached db handles hs r) := by
  induction hs generalizing r with
  | nil => cases hlast
  | cons h hs ih =>
    intro x hx
    rw [reached, List.mem_flatMap] at hx
    obtain ⟨t, ht, hx⟩ := hx
    cases hs with
    | nil =>
      obtain rfl := Option.some.inj hlast
      obtain rfl := List.mem_singleton.1 hx
      obtain ⟨row, hrow, rfl⟩ := List.mem_map.1 (List.mem_of_mem_filter ht)
      exact ⟨row, hrow, rfl⟩
    | cons h' hs => exact ih (by rwa [List.getLast?_cons_cons] at hlast) t x hx

end Hop

/-! ## rows of a group -/

/-- Left joins that are not read give a combination of the others each of their rows. -/
theorem Join.Unread.mem_bag_extendAllIn {db : LinkedDatabase} {m : AliasMap}
    {own after : List Join} {test : Assignment → Bool}
    (h : Unread db m (own.map slot) after test) (hleft : ∀ j ∈ own, j.kind = .left) {s : Slot}
    (hs : s ∈ own.map slot) {column : String} {env : Assignment} {v : Value} :
    v ∈ TableRow.bag column
        (((extendAllIn db m (own ++ after) env).filter test).map fun e => e s) ↔
      (extendAllIn db m (own ++ after) env).filter test ≠ [] ∧
        v ∈ TableRow.bag column ((extendAllIn db m own env).map fun e => e s) := by
  have hbag : TableRow.bag column
        (((extendAllIn db m ([] ++ (own ++ after)) env).filter test).map fun e => e s) =
      ((extendAllIn db m ([] ++ after) env).filter test).length •
        TableRow.bag column ((extendAllIn db m own env).map fun e => e s) :=
    h.bag_extendAllIn hs (List.forall_mem_singleton.2 rfl)
  have hnil : (extendAllIn db m ([] ++ (own ++ after)) env).filter test = [] ↔
      (extendAllIn db m ([] ++ after) env).filter test = [] := h.filter_eq_nil_iff hleft env
  rw [List.nil_append, List.nil_append] at hbag hnil
  rw [hbag, Multiset.mem_nsmul, ne_eq, ne_eq, List.length_eq_zero_iff, hnil]

namespace Statement

/-- The rows that hops reach from a base row in the combinations of its group.  Handles in their
filters stand for rows of the combination. -/
def reached (db : LinkedDatabase) (ar : Arithmetic) (s : Statement) (base : TableRow)
    (hops : List Hop) : List TableRow :=
  (s.group db ar base).flatMap fun env => Hop.reached db (s.aliases.row? env) hops base

/-- The combinations to which joins prolong one, if the statement lets them through. -/
def prolonged (db : LinkedDatabase) (s : Statement) (js : List Join) (env : Assignment) :
    List Assignment :=
  (Join.extendAllIn db s.aliases js env).filter fun e =>
    conj (Condition.truthAllIn db s.aliases s.filters e) = some true

variable {db : LinkedDatabase} {ar : Arithmetic} {s : Statement} {row : List Value}

/-- What hops reach are rows of the table that the last one leads to. -/
theorem lists_reached {base : TableRow} {hops : List Hop} {g : Hop}
    (hlast : hops.getLast? = some g) : g.destination.Lists db (s.reached db ar base hops) := by
  intro x hx
  obtain ⟨env, -, hx⟩ := List.mem_flatMap.1 hx
  exact Hop.lists_reached hlast base x hx

/-- A group has the combinations with the base rows that agree in the columns grouped by. -/
theorem mem_group_iff (hkey : s.keyFilter = none) (hroot : s.root ∉ s.joins.map Join.slot)
    {base : TableRow} {env : Assignment} :
    env ∈ s.group db ar base ↔ ∃ row ∈ db.rows s.table.name,
      (s.groupBy.map fun column => ar.rank ((TableRow.mk s.table row).value column)) =
        (s.groupBy.map fun column => ar.rank (base.value column)) ∧
      env ∈ s.combinationsFrom db row := by
  rw [group, combinationsIn_eq_flatMap hkey, List.mem_filter, List.mem_flatMap, decide_eq_true_iff]
  constructor
  · rintro ⟨⟨row, hrow, henv⟩, hsame⟩
    rw [root_of_mem_combinationsFrom hroot henv] at hsame
    exact ⟨row, hrow, hsame, henv⟩
  · rintro ⟨row, hrow, hsame, henv⟩
    refine ⟨⟨row, hrow, henv⟩, ?_⟩
    rw [root_of_mem_combinationsFrom hroot henv]
    exact hsame

/-- If columns identify the base rows, a group has the combinations with one of them. -/
theorem GroupsByIdentity.mem_group_iff (h : s.GroupsByIdentity)
    (hrows : s.table.Identified db ar) (hrow : row ∈ db.rows s.table.name) {env : Assignment} :
    env ∈ s.group db ar ⟨s.table, row⟩ ↔ env ∈ s.combinationsFrom db row := by
  rw [Statement.mem_group_iff h.keyFilter h.root, h.groupBy]
  constructor
  · rintro ⟨row', hrow', hsame, henv⟩
    rwa [hrows row hrow row' hrow' hsame.symm]
  · exact fun henv => ⟨row, hrow, rfl, henv⟩

/-- If the filters read the base row only, the rows that hops reach are the same in all
combinations. -/
theorem GroupsByIdentity.mem_reached_iff (h : s.GroupsByIdentity)
    (hrows : s.table.Identified db ar) (hrow : row ∈ db.rows s.table.name) {hops : List Hop}
    (hhandles : ∀ g ∈ hops, ∀ e ∈ g.filters, ∀ a ∈ e.handles, s.aliases.slotOf? a = some s.root)
    (hgroup : s.group db ar ⟨s.table, row⟩ ≠ []) {x : TableRow} :
    x ∈ s.reached db ar ⟨s.table, row⟩ hops ↔
      x ∈ Hop.reached db (fun _ => some ⟨s.table, row⟩) hops ⟨s.table, row⟩ := by
  -- handles can name the base row only, which is the same all over the group
  have hsame {env : Assignment} (henv : env ∈ s.group db ar ⟨s.table, row⟩) :
      Hop.reached db (s.aliases.row? env) hops ⟨s.table, row⟩ =
        Hop.reached db (fun _ => some ⟨s.table, row⟩) hops ⟨s.table, row⟩ := by
    refine Hop.reached_congr (fun g hg e he a ha => ?_) _
    rw [AliasMap.row?, hhandles g hg e he a ha, Option.map_some,
      root_of_mem_combinationsFrom h.root ((h.mem_group_iff hrows hrow).1 henv)]
  rw [reached, List.mem_flatMap]
  constructor
  · rintro ⟨env, henv, hx⟩
    rwa [hsame henv] at hx
  · intro hx
    obtain ⟨env, henv⟩ := List.exists_mem_of_ne_nil _ hgroup
    exact ⟨env, henv, by rwa [hsame henv]⟩

namespace Apart

variable {before own after : List Join}

/-- The combinations from a base row are those of the joins before, prolonged by all others. -/
theorem combinationsFrom_eq (h : s.Apart before own after) :
    s.combinationsFrom db row = (Join.extendAllIn db s.aliases before (s.start row)).flatMap
      (s.prolonged db (own ++ after)) := by
  rw [combinationsFrom, h.joins, Join.extendAllIn_append, List.filter_flatMap]
  rfl

/-- The joins leave the rows of all handles as they are. -/
theorem row?_eq (h : s.Apart before own after) {env e : Assignment}
    (he : e ∈ Join.extendAllIn db s.aliases (own ++ after) env) :
    s.aliases.row? e = s.aliases.row? env := by
  funext a
  exact AliasMap.row?_congr fun slot hslot =>
    Join.eq_of_mem_extendAllIn he (h.handles a slot hslot)

/-- The rows of the joins in the group of a base row are those that the hops reach from it. -/
theorem mem_bag_group (h : s.Apart before own after) (hs : s.Scoped)
    (hgroups : s.GroupsByIdentity) (hrows : s.table.Identified db ar)
    (hrow : row ∈ db.rows s.table.name) {hops : List Hop}
    (halong : Join.Along [] [] s.root hops own) (hkeyed : ∀ g ∈ hops, g.mapping ≠ [])
    {column : String} {v : Value} :
    v ∈ TableRow.bag column
        ((s.group db ar ⟨s.table, row⟩).map fun env => env (Join.lastSlot s.root own)) ↔
      v ∈ TableRow.bag column (s.reached db ar ⟨s.table, row⟩ hops) := by
  have hgroup (env : Assignment) : env ∈ s.group db ar ⟨s.table, row⟩ ↔
      env ∈ s.combinationsFrom db row := hgroups.mem_group_iff hrows hrow
  rw [TableRow.mem_bag_map_congr hgroup, reached]
  -- a combination of the earlier joins goes on to all its own rows, or is dropped with them
  have hjoined : v ∈ TableRow.bag column ((s.combinationsFrom db row).map
        fun env => env (Join.lastSlot s.root own)) ↔
      ∃ env ∈ Join.extendAllIn db s.aliases before (s.start row),
        s.prolonged db (own ++ after) env ≠ [] ∧
          v ∈ TableRow.bag column (Hop.reached db (s.aliases.row? env) hops ⟨s.table, row⟩) := by
    rw [h.combinationsFrom_eq, List.map_flatMap, TableRow.mem_bag_flatMap]
    refine exists_congr fun env => and_congr_right fun henv => ?_
    rw [prolonged, (h.unread hs).mem_bag_extendAllIn h.left halong.lastSlot_mem,
      h.bag_own hs halong hkeyed,
      h.root_of_mem_extendAllIn hgroups.root henv]
  rw [hjoined, TableRow.mem_bag_flatMap]
  constructor
  · rintro ⟨env, henv, hgoes, hv⟩
    obtain ⟨e, he⟩ := List.exists_mem_of_ne_nil _ hgoes
    refine ⟨e, (hgroup e).2 ?_, by rwa [h.row?_eq (List.mem_of_mem_filter he)]⟩
    rw [h.combinationsFrom_eq]
    exact List.mem_flatMap.2 ⟨env, henv, he⟩
  · rintro ⟨e, he, hv⟩
    rw [hgroup, h.combinationsFrom_eq] at he
    obtain ⟨env, henv, he⟩ := List.mem_flatMap.1 he
    rw [h.row?_eq (List.mem_of_mem_filter he)] at hv
    exact ⟨env, henv, List.ne_nil_of_mem he, hv⟩

end Apart

/-- For a base row, counting a column gives the number of different values that it has in the
rows, and there are none just if there are no rows. -/
structure Counts (db : LinkedDatabase) (ar : Arithmetic) (s : Statement) (base : TableRow)
    (slot : Slot) (column : String) (rows : List TableRow) : Prop where
  isEmpty : s.aggregateOf db ar base .isEmpty slot column = some (if rows = [] then 1 else 0)
  count : ∃ n : ℕ, s.aggregateOf db ar base .count slot column = some (n : ℚ) ∧
    n ≤ rows.toFinset.card ∧ (n = rows.toFinset.card ↔ TableRow.ToldApart ar column rows)

/-- Counting depends on which values there are. -/
theorem counts_of_bag {base : TableRow} {slot : Slot} {column : String} {rows : List TableRow}
    (hfilled : TableRow.Filled column rows)
    (h : ∀ v, v ∈ TableRow.bag column ((s.group db ar base).map fun env => env slot) ↔
      v ∈ TableRow.bag column rows) : s.Counts db ar base slot column rows := by
  have hranks : ((TableRow.bag column ((s.group db ar base).map fun env => env slot)).map
      ar.rank).toFinset = rows.toFinset.image fun r => ar.rank (r.value column) := by
    rw [← TableRow.toFinset_map_bag hfilled]
    ext x
    simp only [Multiset.mem_toFinset, Multiset.mem_map, h]
  constructor
  · rw [aggregateOf, AggregateFunction.value, hranks]
    simp only [Finset.card_eq_zero, Finset.image_eq_empty, List.toFinset_eq_empty_iff]
  · refine ⟨_, ?_, Finset.card_image_le, TableRow.card_image_eq_iff⟩
    rw [aggregateOf, AggregateFunction.value, hranks]

end Statement

namespace Request

/-- Whatever else the request asks for, counting the rows of an association counts the values of
the first column of their primary key.  This is the number of rows that the association reaches
from the base row just if this column tells them apart, and less otherwise.  Whether the
association reaches any row is told rightly. -/
theorem compile_counts {r : Request} {config : Config} {q : CompiledQuery}
    (h : r.compile config = .ok q) :
    ∃ s d, r.rootStatement config = .ok (s, d) ∧ s.bind config.dialect [] = .ok q.root.text ∧
      ∀ e ∈ s.terms, ∀ a ∈ e.writtenAggregates, ∃ b slot route,
        s.aggregates.find? (fun x => x.1.equal a) = some (b, slot) ∧
        b.routeFor .optional = .ok route ∧
        ∀ (db : LinkedDatabase) (ar : Arithmetic), r.table.Identified db ar → b.isKeyed →
          a.destination.HasPrimaryKey db ar → ∀ row ∈ db.rows r.table.name,
            let base : TableRow := ⟨r.table, row⟩
            let column := a.destination.countedColumn
            let rows := s.reached db ar base route.hops
            s.Counts db ar base slot column rows ∧
              (a.destination.primaryKey.length = 1 →
                s.aggregateOf db ar base .count slot column = some (rows.toFinset.card : ℚ)) ∧
              ((∀ x ∈ route.filters, ∀ y ∈ x.handles, s.aliases.slotOf? y = some s.root) →
                s.group db ar base ≠ [] → ∀ x,
                  x ∈ rows ↔ x ∈ Hop.reached db (fun _ => some base) route.hops base) := by
  obtain ⟨s, d, hs, hbind, -, -⟩ := compile_eq_ok h
  have hscoped := scoped_rootStatement hs hbind
  refine ⟨s, d, hs, hbind, fun e he a ha => ?_⟩
  obtain ⟨b, slot, hfind⟩ := Statement.exists_aggregate_of_bind hbind he ha
  have hmem := List.mem_of_find?_eq_some hfind
  obtain ⟨route, before, own, after, hroute, halong, hslot, hapart⟩ := exists_apart hs hmem
  obtain ⟨htable, hgroups⟩ :=
    groupsByIdentity_rootStatement hs hscoped (List.ne_nil_of_mem hmem)
  refine ⟨b, slot, route, hfind, hroute, ?_⟩
  rw [← htable]
  intro db ar hrows hkeyed hkey row hrow base column rows
  -- the aggregate that was joined equals the one written, so both lead to one table
  have hdestination : route.last.destination = a.destination := by
    have hequal := List.find?_some hfind
    rw [b.destination_last_routeFor hroute]
    exact b.destination_eq_of_equal hequal
  have hlists : a.destination.Lists db rows := by
    rw [← hdestination]
    exact Statement.lists_reached route.getLast?_hops
  -- other joins repeat the values but add none
  have hcounts : s.Counts db ar base slot column rows := by
    refine Statement.counts_of_bag (hkey.filled_countedColumn hlists) fun v => ?_
    rw [hslot]
    exact hapart.mem_bag_group hscoped hgroups hrows hrow halong
      (b.mapping_ne_nil_of_isKeyed hkeyed hroute)
  refine ⟨hcounts, fun hlength => ?_, fun hhandles hgroup x => ?_⟩
  · obtain ⟨n, hn, -, hiff⟩ := hcounts.count
    rw [hn, hiff.2 (hkey.toldApart hlength hlists)]
  · exact hgroups.mem_reached_iff hrows hrow
      (fun g hg e he => hhandles e (List.mem_flatMap.2 ⟨g, hg, he⟩)) hgroup

end Request

namespace Library

def editions : Table := ⟨"editions", ["bookId", "number", "year"], ["bookId", "number"]⟩

def editionsOfBook : Association :=
  .direct .hasMany "editions" books editions [("id", "bookId")] [] [] none

/-- Books with the number of their editions. -/
def published : Request where
  table := books
  annotations := [(editionsOfBook.count, "editions")]

/-- The request compiles. -/
theorem exists_compile_published : ∃ q, published.compile = .ok q :=
  exists_of_isOk (by decide +kernel)

/-- A book of two editions. -/
def press : LinkedDatabase :=
  { shelf with
    rows := fun name =>
      if name = "books" then [[.int 1, .int 7]]
      else if name = "editions" then
        [[.int 1, .int 1, .int 1843], [.int 1, .int 2, .int 1889]]
      else [] }

def sketch : TableRow := ⟨books, [.int 1, .int 7]⟩

/-- What the statement computes for the book, and what the hops reach. -/
theorem computed_published {s : Statement} {d : Draft}
    (h : published.rootStatement {} = .ok (s, d)) {b : Association} {slot : Slot}
    (hb : s.aggregates.find? (fun x => x.1.equal editionsOfBook) = some (b, slot)) {route : Route}
    (hroute : b.routeFor .optional = .ok route) :
    b.isKeyed ∧
      s.aggregateOf press wholeNumbers sketch .count slot editions.countedColumn = some 1 ∧
      (s.reached press wholeNumbers sketch route.hops).toFinset.card = 2 := by
  have hcomputed : (published.rootStatement {}).toOption.any (fun p =>
      (p.1.aggregates.find? fun x => x.1.equal editionsOfBook).any fun x =>
        (x.1.routeFor .optional).toOption.any fun route =>
          x.1.isKeyed &&
            p.1.aggregateOf press wholeNumbers sketch .count x.2 editions.countedColumn = some 1 &&
            (p.1.reached press wholeNumbers sketch route.hops).toFinset.card = 2) = true := by
    decide +kernel
  rw [h, Except.toOption, Option.any_some, hb, Option.any_some, hroute, Except.toOption,
    Option.any_some] at hcomputed
  simpa [and_assoc] using hcomputed

end Library

/-- A book with two editions is said to have one, since both have the key column of the book. -/
theorem Request.compile_counts_published :
    ∃ (q : CompiledQuery) (s : Statement) (slot : Slot) (route : Route),
      Library.published.compile = .ok q ∧ s.bind .postgres [] = .ok q.root.text ∧
      s.Counts Library.press Library.wholeNumbers Library.sketch slot
        Library.editions.countedColumn
        (s.reached Library.press Library.wholeNumbers Library.sketch route.hops) ∧
      s.aggregateOf Library.press Library.wholeNumbers Library.sketch .count slot
        Library.editions.countedColumn = some 1 ∧
      (s.reached Library.press Library.wholeNumbers Library.sketch route.hops).toFinset.card =
        2 := by
  obtain ⟨q, hq⟩ := Library.exists_compile_published
  obtain ⟨s, d, hs, hbind, hcounts⟩ := compile_counts hq
  have hterm : Library.editionsOfBook.count ∈ s.terms :=
    annotation_mem_terms (p := (_, "editions")) hs List.mem_cons_self
  obtain ⟨b, slot, route, hfind, hroute, hrows⟩ :=
    hcounts _ hterm Library.editionsOfBook List.mem_cons_self
  obtain ⟨hkeyed, hone, htwo⟩ := Library.computed_published hs hfind hroute
  have hidentified : Library.books.Identified Library.press Library.wholeNumbers := by
    rw [Table.Identified]
    decide +kernel
  have hkey : Library.editions.HasPrimaryKey Library.press Library.wholeNumbers := by
    refine ⟨by decide, ?_, by decide +kernel⟩
    rw [Table.HasKey]
    decide +kernel
  obtain ⟨hvalues, -, -⟩ := hrows Library.press Library.wholeNumbers hidentified hkeyed hkey
    Library.sketch.values List.mem_cons_self
  exact ⟨q, s, slot, route, hq, hbind, hvalues, hone, htwo⟩

end AssociationQuery
