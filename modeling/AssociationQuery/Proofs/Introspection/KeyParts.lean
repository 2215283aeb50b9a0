import AssociationQuery.Proofs.Keys.Independence
import AssociationQuery.Proofs.Session
import AssociationQuery.Schema.Introspection
import Mathlib.Data.List.Sort

/-!
# AssociationQuery.Proofs.Introspection.KeyParts

Foreign keys that are told column by column.

A database in a file tells one row for each column of a foreign key, with the number of the key and
the position of the column in it.  The rows may come in any order: `Sqlite.foreignKeys_grouped` says
that the columns of each key are put together by these two numbers alone.  A key whose references
are left open keeps as many empty names, so that the catalogue that holds it can pair it with the
primary key.
-/

namespace AssociationQuery

/-- A key that leaves all its references open is reported, in its place, with the primary key of the
table that it references, if that has as many columns. -/
theorem Schema.getElem?_foreignKeys_of_open {S : Schema} {holder referenced : String}
    {t u : TableInfo} (ht : S.table? holder = some t) (hu : S.table? referenced = some u)
    {k : ForeignKey} {i : Nat} (hk : (t.keysTo referenced)[i]? = some k)
    (hne : k.foreignColumns ≠ []) (hopen : ∀ c ∈ k.foreignColumns, c = "")
    (hlength : k.columns.length = u.primaryKey.length) :
    ∃ reported, S.foreignKeys holder referenced = .ok reported ∧
      reported[i]? = some { k with foreignColumns := u.primaryKey } := by
  have hkey : S.primaryKey referenced = .ok u.primaryKey := by
    rw [primaryKey, require, hu]
    rfl
  have hmem : "" ∈ k.foreignColumns := by
    obtain ⟨c, hc⟩ := List.exists_mem_of_ne_nil _ hne
    exact hopen c hc ▸ hc
  have hcomplete : completeKey u.primaryKey k = { k with foreignColumns := u.primaryKey } := by
    rw [completeKey, if_pos]
    simpa [hlength] using hopen
  refine ⟨_, foreignKeys_eq_report ht hkey, ?_⟩
  rw [report_of_open ⟨k, List.mem_of_getElem? hk, hmem⟩, List.getElem?_map, hk, Option.map_some,
    hcomplete]

namespace Introspection.Sqlite

variable {rows : List Row} {parts : List Part} {table : String}

/-! ## rows -/

/-- The row tells one column of a foreign key. -/
structure Tells (r : Row) (p : Part) : Prop where
  id : r.readNamed "id" = .ok p.id
  seq : r.readNamed "seq" = .ok p.seq
  foreignTable : r.readNamed "table" = .ok p.foreignTable
  column : r.readNamed "from" = .ok p.column
  /-- Where the row has no text, as for NULL, the referenced column is left open. -/
  foreignColumn : r.readNamed "to" = .ok p.foreignColumn ∨
    p.foreignColumn = "" ∧ ∀ c : String, r.readNamed "to" ≠ .ok c

/-- A row that tells a part is read as that part. -/
theorem Tells.part?_eq {r : Row} {p : Part} (h : Tells r p) : part? r = some p := by
  have hto : (textOf? r "to").getD "" = p.foreignColumn := by
    rcases h.foreignColumn with hto | ⟨hempty, hnone⟩
    · rw [textOf?, hto]
      rfl
    · rw [textOf?, hempty]
      cases hread : r.readNamed (α := String) "to" with
      | ok c => exact absurd hread (hnone c)
      | error => rfl
  simp only [part?, textOf?, numberOf, h.foreignTable, h.column, h.id, h.seq] at hto ⊢
  rw [hto]
  rfl

/-- Rows that tell parts are read as these. -/
theorem filterMap_part? (h : List.Forall₂ Tells rows parts) : rows.filterMap part? = parts := by
  induction h with
  | nil => rfl
  | cons hr _ ih => rw [List.filterMap_cons_some hr.part?_eq, ih]

/-! ## groups -/

/-- The columns of each key, by its number. -/
structure Grouped (parts : List Part) (groups : List (Int64 × List Part)) : Prop where
  /-- Each key comes once, in the order of the numbers. -/
  increasing : (groups.map Prod.fst).Pairwise (· < ·)
  numbers : ∀ id, id ∈ groups.map Prod.fst ↔ ∃ p ∈ parts, p.id = id
  /-- The columns of a key come in the order of their positions. -/
  ordered : ∀ g ∈ groups, g.2.Pairwise fun a b => a.seq < b.seq
  members : ∀ g ∈ groups, ∀ p, p ∈ g.2 ↔ p ∈ parts ∧ p.id = g.1

/-- The columns of one key in the order of their positions. -/
def group (parts : List Part) (id : Int64) : List Part :=
  (parts.filter (·.id == id)).mergeSort fun a b => a.seq ≤ b.seq

def groups (parts : List Part) : List (Int64 × List Part) :=
  (ids parts).map fun id => (id, group parts id)

/-- Nothing occurs twice once duplicates are erased. -/
theorem nodup_eraseDups (xs : List Int64) : xs.eraseDups.Nodup := by
  induction hn : xs.length using Nat.strong_induction_on generalizing xs with
  | _ n ih =>
    cases xs with
    | nil => simp
    | cons x xs =>
      rw [List.eraseDups_cons, List.nodup_cons]
      have hlt : (xs.filter fun y => !y == x).length < n := by
        have := List.length_filter_le (fun y => !y == x) xs
        rw [← hn, List.length_cons]
        omega
      exact ⟨by simp, ih _ hlt _ rfl⟩

/-- Sorting by a number turns distinct numbers into increasing ones. -/
theorem pairwise_lt_mergeSort {α : Type} (f : α → Int64) {xs : List α} (h : (xs.map f).Nodup) :
    (xs.mergeSort fun a b => f a ≤ f b).Pairwise fun a b => f a < f b := by
  have htrans : ∀ a b c, decide (f a ≤ f b) → decide (f b ≤ f c) → decide (f a ≤ f c) := by
    simpa using fun a b c => Int64.le_trans
  have htotal : ∀ a b, decide (f a ≤ f b) || decide (f b ≤ f a) := by
    simpa using fun a b => Int64.le_total (f a) (f b)
  have hle := List.pairwise_mergeSort htrans htotal xs
  simp only [decide_eq_true_iff] at hle
  have hne : (xs.mergeSort fun a b => f a ≤ f b).Pairwise fun a b => f a ≠ f b :=
    List.pairwise_map.1 (((List.mergeSort_perm xs _).map f).nodup_iff.2 h)
  exact hle.imp₂ (fun a b => Int64.lt_of_le_of_ne) hne

/-- The numbers of keys increase. -/
theorem increasing_ids (parts : List Part) : (ids parts).Pairwise (· < ·) :=
  pairwise_lt_mergeSort id (by simpa using nodup_eraseDups _)

/-- They are the numbers that occur in parts. -/
theorem mem_ids {id : Int64} : id ∈ ids parts ↔ ∃ p ∈ parts, p.id = id := by
  simp [ids, List.mem_mergeSort]

/-- A group has the parts with its number. -/
theorem mem_group {id : Int64} {p : Part} : p ∈ group parts id ↔ p ∈ parts ∧ p.id = id := by
  simp [group, List.mem_mergeSort]

section

variable (hdistinct : (parts.map fun p => (p.id, p.seq)).Nodup)

include hdistinct

/-- They stand in the order of their positions. -/
theorem ordered_group (id : Int64) : (group parts id).Pairwise fun a b => a.seq < b.seq := by
  refine pairwise_lt_mergeSort Part.seq ?_
  -- columns of one key differ in their positions
  have hsub := (hdistinct.of_map _).filter (·.id == id)
  refine (List.nodup_map_iff_inj_on hsub).2 fun a ha b hb hseq => ?_
  simp only [List.mem_filter, beq_iff_eq] at ha hb
  exact List.inj_on_of_nodup_map hdistinct ha.1 hb.1 (Prod.ext (ha.2.trans hb.2.symm) hseq)

/-- The groups that are read group the parts. -/
theorem grouped_groups : Grouped parts (groups parts) where
  increasing := by
    rw [groups, List.map_map]
    exact (List.map_id _).symm ▸ increasing_ids parts
  numbers id := by simp [groups, mem_ids]
  ordered := by
    simp only [groups, List.forall_mem_map]
    exact fun id _ => ordered_group hdistinct id
  members := by
    simp only [groups, List.forall_mem_map]
    exact fun id _ p => mem_group

/-- There is only one way to group columns by key and position. -/
theorem Grouped.eq_groups {gs : List (Int64 × List Part)} (h : Grouped parts gs) :
    gs = groups parts := by
  have hirrefl : Std.Irrefl fun a b : Part => a.seq < b.seq := ⟨fun _ => Int64.lt_irrefl⟩
  have hantisymm : Std.Antisymm fun a b : Part => a.seq < b.seq :=
    ⟨fun _ _ hab hba => absurd hba (Int64.lt_asymm hab)⟩
  have hids : gs.map Prod.fst = ids parts :=
    h.increasing.eq_of_mem_iff (increasing_ids parts) fun id => by rw [h.numbers, mem_ids]
  have hgroup : ∀ g ∈ gs, (g.1, group parts g.1) = g := by
    intro g hg
    have hsame : group parts g.1 = g.2 :=
      (ordered_group hdistinct g.1).eq_of_mem_iff (h.ordered g hg) fun p => by
        rw [mem_group, h.members g hg]
    rw [hsame]
  rw [groups, ← hids, List.map_map]
  exact ((List.map_congr_left hgroup).trans (List.map_id' gs)).symm

/-- The order in which the columns are told does not matter. -/
theorem groups_eq_of_perm {parts' : List Part} (h : parts'.Perm parts) :
    groups parts' = groups parts := by
  have hdistinct' := (h.map fun p => (p.id, p.seq)).nodup_iff.2 hdistinct
  obtain ⟨increasing, numbers, ordered, members⟩ := grouped_groups hdistinct'
  refine Grouped.eq_groups hdistinct ⟨increasing, fun id => ?_, ordered, fun g hg p => ?_⟩
  · simp only [numbers, h.mem_iff]
  · rw [members g hg, h.mem_iff]

end

/-! ## keys -/

/-- The foreign key whose columns are these, in this order. -/
structure IsKeyOf (table : String) (ps : List Part) (k : ForeignKey) : Prop where
  name : k.name = none
  table : k.table = table
  columns : k.columns = ps.map (·.column)
  foreignColumns : k.foreignColumns = ps.map (·.foreignColumn)
  /-- The column that comes first tells which table is referenced. -/
  foreignTable : ∃ first ∈ ps.head?, k.foreignTable = first.foreignTable

namespace IsKeyOf

variable {ps : List Part} {k : ForeignKey}

/-- There are as many references as columns. -/
theorem length_columns (h : IsKeyOf table ps k) : k.columns.length = k.foreignColumns.length := by
  rw [h.columns, h.foreignColumns, List.length_map, List.length_map]

/-- A key references something. -/
theorem foreignColumns_ne_nil (h : IsKeyOf table ps k) : k.foreignColumns ≠ [] := by
  obtain ⟨first, hfirst, -⟩ := h.foreignTable
  rw [h.foreignColumns]
  simpa using List.ne_nil_of_mem (List.mem_of_mem_head? hfirst)

end IsKeyOf

def keyOf? (table : String) (ps : List Part) : Option ForeignKey :=
  ps.head?.map fun first =>
    { table
      columns := ps.map (·.column)
      foreignTable := first.foreignTable
      foreignColumns := ps.map (·.foreignColumn) }

/-- The keys that are read are those of the groups. -/
theorem foreignKeys_eq (table : String) (rows : List Row) :
    foreignKeys table rows =
      (groups (rows.filterMap part?)).filterMap fun g => keyOf? table g.2 := by
  rw [foreignKeys, groups, List.filterMap_map]
  rfl

/-- The key that is read for a group is the key of its parts. -/
theorem IsKeyOf.of_keyOf? {ps : List Part} {k : ForeignKey} (h : keyOf? table ps = some k) :
    IsKeyOf table ps k := by
  obtain ⟨first, hfirst, rfl⟩ := Option.map_eq_some_iff.1 h
  exact ⟨rfl, rfl, rfl, rfl, first, hfirst, rfl⟩

/-- There is one key for each group. -/
theorem forall₂_keys (table : String) {gs : List (Int64 × List Part)} (h : ∀ g ∈ gs, g.2 ≠ []) :
    List.Forall₂ (fun g k => IsKeyOf table g.2 k) gs (gs.filterMap fun g => keyOf? table g.2) := by
  induction gs with
  | nil => exact .nil
  | cons g gs ih =>
    obtain ⟨hg, hgs⟩ := List.forall_mem_cons.1 h
    obtain ⟨first, ps, hps⟩ := List.exists_cons_of_ne_nil hg
    have hk : keyOf? table g.2 = some ⟨none, table, g.2.map (·.column), first.foreignTable,
        g.2.map (·.foreignColumn)⟩ := by
      rw [keyOf?, hps]
      rfl
    rw [List.filterMap_cons, hk]
    exact .cons (.of_keyOf? hk) (ih hgs)

/-- No group is empty. -/
theorem Grouped.ne_nil {gs : List (Int64 × List Part)} (h : Grouped parts gs) :
    ∀ g ∈ gs, g.2 ≠ [] := by
  intro g hg
  obtain ⟨p, hp, hid⟩ := (h.numbers g.1).1 (List.mem_map_of_mem hg)
  exact List.ne_nil_of_mem ((h.members g hg p).2 ⟨hp, hid⟩)

/-- The keys that are read of a table are those that the answer tells. -/
theorem foreignKeys_of_answer {σ ρ : Type} {c : Connection σ ρ} {s s' : σ}
    (h : c.query ⟨foreignKeysSql table, []⟩ s = (.ok rows, s')) :
    Introspection.foreignKeys .sqlite c table s = (.ok (foreignKeys table rows), s') := by
  simp only [Introspection.foreignKeys, Session.bind_eq_ok, Session.pure_eq_ok]
  exact ⟨rows, s', h, rfl, rfl⟩

/-- Let the rows tell columns of foreign keys, no two for the same position of the same key.  In
whatever order a connection answers them, the keys of the table are the same: one for each number,
in the order of the numbers, with its columns in the order of their positions and beside each the
column that it references.  A key that leaves all its references open is reported by a catalogue
that holds it with the primary key of the table that it references, if that has as many columns. -/
theorem foreignKeys_grouped (table : String) (hrows : List.Forall₂ Tells rows parts)
    (hdistinct : (parts.map fun p => (p.id, p.seq)).Nodup) :
    ∃ gs keys, Grouped parts gs ∧ List.Forall₂ (fun g k => IsKeyOf table g.2 k) gs keys ∧
      (∀ k ∈ keys, k.columns.length = k.foreignColumns.length) ∧
      (∀ rows', rows'.Perm rows → ∀ {σ ρ : Type} (c : Connection σ ρ) (s s' : σ),
        c.query ⟨foreignKeysSql table, []⟩ s = (.ok rows', s') →
          Introspection.foreignKeys .sqlite c table s = (.ok keys, s')) ∧
      ∀ k ∈ keys, (∀ c ∈ k.foreignColumns, c = "") →
        ∀ (S : Schema) (holder referenced : String) (t u : TableInfo) (i : Nat),
          S.table? holder = some t → S.table? referenced = some u →
          (t.keysTo referenced)[i]? = some k → k.columns.length = u.primaryKey.length →
          ∃ reported, S.foreignKeys holder referenced = .ok reported ∧
            reported[i]? = some { k with foreignColumns := u.primaryKey } := by
  have hgrouped := grouped_groups hdistinct
  have hkey : ∀ k ∈ (groups parts).filterMap fun g => keyOf? table g.2,
      ∃ ps, IsKeyOf table ps k := by
    intro k hk
    obtain ⟨g, -, hg⟩ := List.mem_filterMap.1 hk
    exact ⟨g.2, .of_keyOf? hg⟩
  refine ⟨groups parts, _, hgrouped, forall₂_keys table hgrouped.ne_nil, fun k hk => ?_,
    fun rows' hperm σ ρ c s s' hquery => ?_,
    fun k hk hopen S holder referenced t u i ht hu hi hlength => ?_⟩
  · obtain ⟨ps, h⟩ := hkey k hk
    exact h.length_columns
  -- id and seq are distinct and decide the order, so that of the rows is lost
  · have hparts := hperm.filterMap part?
    rw [filterMap_part? hrows] at hparts
    rw [foreignKeys_of_answer hquery, foreignKeys_eq, groups_eq_of_perm hdistinct hparts]
  · obtain ⟨ps, h⟩ := hkey k hk
    exact Schema.getElem?_foreignKeys_of_open ht hu hi h.foreignColumns_ne_nil hopen hlength

end Introspection.Sqlite

namespace Library

open Introspection.Sqlite (Part Grouped)

/-- A connection that gives the same answer to every statement. -/
def answering (rows : List Row) : Connection Unit := ⟨fun _ s => (.ok rows, s)⟩

/-- The columns of two foreign keys of reviews, mixed up: that to the edition in two columns, and
that to the author, which leaves its reference open. -/
def reviewRows : List Row :=
  let columns := ["id", "seq", "table", "from", "to"]
  [⟨columns, [.bigInt 3, .bigInt 1, .text "editions", .text "number", .text "no"]⟩,
    ⟨columns, [.bigInt 0, .bigInt 0, .text "authors", .text "authorId", .null]⟩,
    ⟨columns, [.bigInt 3, .bigInt 0, .text "editions", .text "bookId", .text "bookId"]⟩]

/-- The columns that these rows tell. -/
def reviewParts : List Part := [
  ⟨3, 1, "editions", "number", "no"⟩, ⟨0, 0, "authors", "authorId", ""⟩,
  ⟨3, 0, "editions", "bookId", "bookId"⟩]

/-- The parts of reviews fall into two groups. -/
theorem grouped_reviewParts : Grouped reviewParts [
    (0, [⟨0, 0, "authors", "authorId", ""⟩]),
    (3, [⟨3, 0, "editions", "bookId", "bookId"⟩, ⟨3, 1, "editions", "number", "no"⟩])] where
  increasing := by decide
  numbers := by
    simp [reviewParts]
    grind
  ordered := by decide
  members := by
    simp [reviewParts]
    grind

/-- The foreign keys of reviews. -/
def reviewKeys : List ForeignKey := [
  ⟨none, "reviews", ["authorId"], "authors", [""]⟩,
  ⟨none, "reviews", ["bookId", "number"], "editions", ["bookId", "no"]⟩]

/-- Authors, and reviews with their foreign keys. -/
def reviewed : Schema where
  tables := [
    ("authors", (TableInfo.ofColumns "authors" ["id", "name"]).withPrimaryKey ["id"]),
    ("reviews", { TableInfo.ofColumns "reviews" ["authorId", "bookId", "number"] with
      foreignKeys := reviewKeys })]

end Library

/-- However the rows are turned around, the two keys of reviews are read, and the open one is
reported with the primary key of authors. -/
theorem Introspection.Sqlite.foreignKeys_grouped_reviews :
    Introspection.foreignKeys .sqlite (Library.answering Library.reviewRows.reverse) "reviews" () =
        (.ok Library.reviewKeys, ()) ∧
      ∃ reported, Library.reviewed.foreignKeys "reviews" "authors" = .ok reported ∧
        reported[0]? = some ⟨none, "reviews", ["authorId"], "authors", ["id"]⟩ := by
  have hrows : List.Forall₂ Tells Library.reviewRows Library.reviewParts :=
    .cons ⟨rfl, rfl, rfl, rfl, .inl rfl⟩ <|
      .cons ⟨rfl, rfl, rfl, rfl, .inr ⟨rfl, nofun⟩⟩ <|
      .cons ⟨rfl, rfl, rfl, rfl, .inl rfl⟩ .nil
  have hdistinct : (Library.reviewParts.map fun p => (p.id, p.seq)).Nodup := by decide
  obtain ⟨-, keys, -, -, -, hanswer, hreport⟩ := foreignKeys_grouped "reviews" hrows hdistinct
  -- what is read from the rows as they stand tells which keys these are
  obtain rfl : keys = Library.reviewKeys := by
    have hread := hanswer _ .rfl (Library.answering Library.reviewRows) () () rfl
    rw [foreignKeys_of_answer rfl, foreignKeys_eq, filterMap_part? hrows,
      ← Library.grouped_reviewParts.eq_groups hdistinct] at hread
    exact (Outcome.ok.inj (congrArg Prod.fst hread)).symm
  exact ⟨hanswer _ (List.reverse_perm _) _ () () rfl,
    hreport ⟨none, "reviews", ["authorId"], "authors", [""]⟩ (by decide) (by decide)
      Library.reviewed "reviews" "authors" _ _ 0 rfl rfl rfl rfl⟩

end AssociationQuery
