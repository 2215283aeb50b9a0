import AssociationQuery.Proofs.Session
import AssociationQuery.Schema.Introspection
import Mathlib.Data.List.Nodup

/-!
# AssociationQuery.Proofs.Introspection.Tables

Whose columns and keys the tables of a catalogue get.

A database in a file is asked about one table after the other, by statements in which only the plain
characters of a name are left; what it answers is taken for the table of the full name.
`Sqlite.schema_describes_iff` says that every table gets what is told of the table of the reduced
name, and that this is its own, whatever the tables hold, exactly if all names are plain.
-/

namespace AssociationQuery

namespace Introspection.Sqlite

open Identifier (sanitize isPlain)

/-! ## tables of a database -/

structure StoredColumn where
  name : String
  sqlType : String
  notNull : Bool
  /-- The position in the primary key, counted from one; zero when it is not part of it. -/
  position : Int64
  deriving DecidableEq, Repr

/-- A column holds NULL unless that is excluded, be it by the primary key. -/
def StoredColumn.column (c : StoredColumn) : Column :=
  { name := c.name, sqlType := c.sqlType, nullable := !c.notNull && c.position == 0 }

/-- The row tells the column completely. -/
structure TellsColumn (r : Row) (c : StoredColumn) : Prop where
  name : r.readNamed "name" = .ok c.name
  sqlType : r.readNamed "type" = .ok c.sqlType
  notNull : ∃ n : Int64, r.readNamed "notnull" = .ok n ∧ (c.notNull ↔ n ≠ 0)
  position : r.readNamed "pk" = .ok c.position

/-- A table with the rows that the database tells of it. -/
structure StoredTable where
  name : String
  columns : List StoredColumn
  columnRows : List Row
  keyRows : List Row
  told : List.Forall₂ TellsColumn columnRows columns

/-- The catalogue has the table's own columns in their order, its own primary key in the order of
the positions, and its own foreign keys. -/
structure StoredTable.Described (t : StoredTable) (info : TableInfo) : Prop where
  name : info.name = t.name
  columns : info.columns = t.columns.map (·.column)
  primaryKey : ∃ keyed : List (Int64 × String),
    keyed.Perm ((t.columns.filter fun c => 0 < c.position).map fun c => (c.position, c.name)) ∧
      keyed.Pairwise (fun a b => a.1 ≤ b.1) ∧ info.primaryKey = keyed.map Prod.snd
  foreignKeys : info.foreignKeys = foreignKeys t.name t.keyRows

/-- Tables with different names. -/
structure Database where
  tables : List StoredTable
  distinct : (tables.map (·.name)).Nodup

/-! ## what is told of one table -/

/-- The table that rows are taken to tell of. -/
def infoOf (name : String) (columnRows keyRows : List Row) : TableInfo :=
  { name
    columns := (columns columnRows).1
    primaryKey := (columns columnRows).2
    foreignKeys := foreignKeys name keyRows }

/-- Rows that tell columns are read as these, with their positions. -/
theorem filterMap_column? {rows : List Row} {cs : List StoredColumn}
    (h : List.Forall₂ TellsColumn rows cs) :
    rows.filterMap column? = cs.map fun c => (c.position, c.column) := by
  induction h with
  | nil => rfl
  | @cons r c _ _ hr _ ih =>
    obtain ⟨n, hn, hnull⟩ := hr.notNull
    have hnullable : decide (n = 0 ∧ c.position = 0) = (!c.notNull && c.position == 0) := by
      have hflag : c.notNull = !decide (n = 0) := by
        rw [Bool.eq_iff_iff, hnull]
        simp
      rw [hflag, Bool.not_not, Bool.decide_and, beq_eq_decide]
    have hcolumn : column? r = some (c.position, c.column) := by
      simp only [column?, textOf?, numberOf, hr.name, hr.sqlType, hn, hr.position]
      exact congrArg (fun b => some (c.position, Column.mk c.name c.sqlType b)) hnullable
    rw [List.filterMap_cons_some hcolumn, ih, List.map_cons]

/-- Orders of positions follow each other. -/
theorem keyOrder_trans (a b c : Int64 × Column) (hab : keyOrder a b) (hbc : keyOrder b c) :
    keyOrder a c := by
  simp only [keyOrder, Bool.or_eq_true, Bool.and_eq_true, decide_eq_true_iff, beq_iff_eq] at *
  rcases hab with hab | ⟨hab, hab'⟩
  · rcases hbc with hbc | ⟨hbc, -⟩
    · exact .inl (Int64.lt_trans hab hbc)
    · exact .inl (hbc ▸ hab)
  · rcases hbc with hbc | ⟨hbc, hbc'⟩
    · exact .inl (hab ▸ hbc)
    · exact .inr ⟨hab.trans hbc, String.le_trans hab' hbc'⟩

/-- Any two positions are in order. -/
theorem keyOrder_total (a b : Int64 × Column) : keyOrder a b || keyOrder b a := by
  simp only [keyOrder, Bool.or_eq_true, Bool.and_eq_true, decide_eq_true_iff, beq_iff_eq]
  by_cases h : a.1 = b.1
  · rcases String.le_total a.2.name b.2.name with hname | hname
    · exact .inl (.inr ⟨h, hname⟩)
    · exact .inr (.inr ⟨h.symm, hname⟩)
  · rcases Int64.le_total a.1 b.1 with hle | hle
    · exact .inl (.inl (Int64.lt_of_le_of_ne hle h))
    · exact .inr (.inl (Int64.lt_of_le_of_ne hle (Ne.symm h)))

/-- Columns in order have increasing positions. -/
theorem le_of_keyOrder {a b : Int64 × Column} (h : keyOrder a b) : a.1 ≤ b.1 := by
  simp only [keyOrder, Bool.or_eq_true, Bool.and_eq_true, decide_eq_true_iff, beq_iff_eq] at h
  rcases h with h | ⟨h, -⟩
  · exact Int64.le_of_lt h
  · exact h ▸ Int64.le_refl a.1

/-- The primary key is read in the order of the positions. -/
theorem exists_keyed {rows : List Row} {cs : List StoredColumn}
    (h : List.Forall₂ TellsColumn rows cs) :
    ∃ keyed : List (Int64 × String),
      keyed.Perm ((cs.filter fun c => 0 < c.position).map fun c => (c.position, c.name)) ∧
        keyed.Pairwise (fun a b => a.1 ≤ b.1) ∧ (columns rows).2 = keyed.map Prod.snd := by
  let keys := (cs.filter fun c => 0 < c.position).map fun c => (c.position, c.column)
  have hkeys : (rows.filterMap column?).filter (fun c => 0 < c.1) = keys := by
    rw [filterMap_column? h]
    exact List.filter_map ..
  refine ⟨(keys.mergeSort keyOrder).map fun c => (c.1, c.2.name), ?_, ?_, ?_⟩
  · have hperm := (List.mergeSort_perm keys keyOrder).map fun c => (c.1, c.2.name)
    rwa [List.map_map] at hperm
  · have hsorted := List.pairwise_mergeSort keyOrder_trans keyOrder_total keys
    exact List.pairwise_map.2 (hsorted.imp le_of_keyOrder)
  · rw [columns, hkeys, List.map_map]
    rfl

/-- Rows of the table itself describe it. -/
theorem StoredTable.described_infoOf (t : StoredTable) :
    t.Described (infoOf t.name t.columnRows t.keyRows) where
  name := rfl
  columns := by
    rw [infoOf, Sqlite.columns, filterMap_column? t.told, List.map_map]
    rfl
  primaryKey := exists_keyed t.told
  foreignKeys := rfl

/-! ## asking for tables -/

/-- The statement that asks for the columns of the table of that very name. -/
def columnsPragma (name : String) : String := "PRAGMA table_info(" ++ name ++ ")"

/-- The statement that asks for the foreign keys of the table of that very name. -/
def keysPragma (name : String) : String := "PRAGMA foreign_key_list(" ++ name ++ ")"

/-- Different names are asked for in different statements. -/
theorem columnsPragma_inj {a b : String} : columnsPragma a = columnsPragma b ↔ a = b := by
  unfold columnsPragma
  rw [String.append_left_inj, String.append_right_inj]

/-- So it is with the keys. -/
theorem keysPragma_inj {a b : String} : keysPragma a = keysPragma b ↔ a = b := by
  unfold keysPragma
  rw [String.append_left_inj, String.append_right_inj]

/-- The statement for columns begins like this. -/
theorem take_columnsPragma (a : String) :
    (columnsPragma a).toList.take 8 = ['P', 'R', 'A', 'G', 'M', 'A', ' ', 't'] := by
  unfold columnsPragma
  rw [String.toList_append, String.toList_append, List.append_assoc]
  rfl

/-- The one for keys begins otherwise. -/
theorem take_keysPragma (a : String) :
    (keysPragma a).toList.take 8 = ['P', 'R', 'A', 'G', 'M', 'A', ' ', 'f'] := by
  unfold keysPragma
  rw [String.toList_append, String.toList_append, List.append_assoc]
  rfl

/-- Columns and keys are asked for in different statements. -/
theorem columnsPragma_ne_keysPragma (a b : String) : columnsPragma a ≠ keysPragma b := by
  intro h
  have hstart := take_columnsPragma a
  rw [h, take_keysPragma] at hstart
  exact absurd hstart (by decide)

/-- No table is asked for in the statement for the names. -/
theorem columnsPragma_ne_tablesSql (a : String) : columnsPragma a ≠ tablesSql := by
  intro h
  have hstart := take_columnsPragma a
  rw [h] at hstart
  exact absurd hstart (by decide)

/-- Neither are its keys. -/
theorem keysPragma_ne_tablesSql (a : String) : keysPragma a ≠ tablesSql := by
  intro h
  have hstart := take_keysPragma a
  rw [h] at hstart
  exact absurd hstart (by decide)

namespace Database

variable {db : Database}

def names (db : Database) : List String := db.tables.map (·.name)

def table? (db : Database) (name : String) : Option StoredTable :=
  db.tables.find? (·.name == name)

/-- The rows of the columns of the table of that very name; none if there is no such table. -/
def columnRows (db : Database) (name : String) : List Row :=
  (db.table? name).elim [] (·.columnRows)

/-- The rows of the foreign keys of the table of that very name; none if there is no such table. -/
def keyRows (db : Database) (name : String) : List Row :=
  (db.table? name).elim [] (·.keyRows)

/-- A table of the database is found by its name. -/
theorem table?_of_mem {t : StoredTable} (h : t ∈ db.tables) : db.table? t.name = some t := by
  obtain ⟨u, hu⟩ : ∃ u, db.table? t.name = some u :=
    Option.isSome_iff_exists.1 (List.find?_isSome.2 ⟨t, h, beq_self_eq_true t.name⟩)
  have hname : u.name = t.name := by simpa using List.find?_some hu
  rw [hu, List.inj_on_of_nodup_map db.distinct (List.mem_of_find?_eq_some hu) h hname]

/-- The connection answers with the names of all tables, and to the statements about a table with
the rows of the table of that very name. -/
structure AnsweredBy {σ ρ : Type} (db : Database) (c : Connection σ ρ) : Prop where
  names : ∀ s, ∃ rows s', c.query ⟨tablesSql, []⟩ s = (.ok rows, s') ∧
    List.Forall₂ (fun r t => r.get? 0 = some (.text t.name)) rows db.tables
  columns : ∀ name s, ∃ s', c.query ⟨columnsPragma name, []⟩ s = (.ok (db.columnRows name), s')
  keys : ∀ name s, ∃ s', c.query ⟨keysPragma name, []⟩ s = (.ok (db.keyRows name), s')

/-- A connection that answers so. -/
def connection (db : Database) : Connection Unit where
  query statement s :=
    let rows :=
      if statement.sql = tablesSql then db.tables.map fun t => ⟨["name"], [.text t.name]⟩
      else match db.tables.find? (columnsPragma ·.name = statement.sql) with
        | some t => t.columnRows
        | none =>
          (db.tables.find? (keysPragma ·.name = statement.sql)).elim [] (·.keyRows)
    (.ok rows, s)

/-- By the statement for columns a table is found as by its name. -/
theorem find?_columnsPragma (db : Database) (name : String) :
    db.tables.find? (columnsPragma ·.name = columnsPragma name) = db.table? name := by
  simp only [columnsPragma_inj, table?, beq_eq_decide]

/-- So it is by the statement for keys. -/
theorem find?_keysPragma (db : Database) (name : String) :
    db.tables.find? (keysPragma ·.name = keysPragma name) = db.table? name := by
  simp only [keysPragma_inj, table?, beq_eq_decide]

/-- The statement for keys asks for the columns of no table. -/
theorem find?_columnsPragma_of_keys (db : Database) (name : String) :
    db.tables.find? (columnsPragma ·.name = keysPragma name) = none := by
  simp only [columnsPragma_ne_keysPragma, decide_false, List.find?_eq_none, Bool.false_eq_true,
    not_false_eq_true, implies_true]

/-- The one for columns asks for the keys of none. -/
theorem find?_keysPragma_of_columns (db : Database) (name : String) :
    db.tables.find? (keysPragma ·.name = columnsPragma name) = none := by
  simp only [(columnsPragma_ne_keysPragma _ _).symm, decide_false, List.find?_eq_none,
    Bool.false_eq_true, not_false_eq_true, implies_true]

/-- The connection answers for the database. -/
theorem answeredBy_connection (db : Database) : db.AnsweredBy db.connection where
  names s := by
    refine ⟨_, s, rfl, ?_⟩
    rw [if_pos rfl, List.forall₂_map_left_iff, List.forall₂_same]
    exact fun _ _ => rfl
  columns name s := by
    refine ⟨s, Prod.ext (congrArg Outcome.ok ?_) rfl⟩
    dsimp only
    rw [if_neg (columnsPragma_ne_tablesSql name), find?_columnsPragma,
      find?_keysPragma_of_columns, columnRows]
    cases db.table? name <;> rfl
  keys name s := by
    refine ⟨s, Prod.ext (congrArg Outcome.ok ?_) rfl⟩
    dsimp only
    rw [if_neg (keysPragma_ne_tablesSql name), find?_columnsPragma_of_keys, find?_keysPragma,
      keyRows]

/-- What is taken to be told of the table of that name: what is told of the table of the name that
only has its plain characters. -/
def read (db : Database) (name : String) : TableInfo :=
  infoOf name (db.columnRows (sanitize name)) (db.keyRows (sanitize name))

/-- Under a plain name the table of that name is read. -/
theorem read_of_plain {t : StoredTable} (h : t ∈ db.tables) (hplain : sanitize t.name = t.name) :
    db.read t.name = infoOf t.name t.columnRows t.keyRows := by
  rw [read, hplain, columnRows, keyRows, table?_of_mem h]
  rfl

/-- The catalogue has exactly the tables of the database, each described as it is. -/
structure DescribedBy (db : Database) (S : Schema) : Prop where
  names : S.tableNames.Perm db.names
  described : ∀ t ∈ db.tables, ∃ info, S.tables.lookup t.name = some info ∧ t.Described info

end Database

/-! ## the whole catalogue -/

/-- The names of the tables are read. -/
theorem firstTexts_eq {rows : List Row} {ts : List StoredTable}
    (h : List.Forall₂ (fun r t => r.get? 0 = some (.text t.name)) rows ts) :
    firstTexts rows = ts.map (·.name) := by
  rw [firstTexts]
  induction h with
  | nil => rfl
  | cons hr _ ih =>
    rw [List.filterMap_cons, hr, List.map_cons, ih]
    rfl

/-- The catalogue with what is read under each of the names. -/
def Database.readAll (db : Database) (S : Schema) (names : List String) : Schema :=
  names.foldl (fun S name => S.insert (db.read name)) S

namespace Database.AnsweredBy

variable {σ ρ : Type} {db : Database} {c : Connection σ ρ} (hc : db.AnsweredBy c)

include hc

/-- The connection is asked for the names of the tables and gives them. -/
theorem tableNames (s : σ) :
    ∃ s', Introspection.tableNames .sqlite c s = (.ok db.names, s') := by
  obtain ⟨rows, s', hquery, hrows⟩ := hc.names s
  simp only [Introspection.tableNames, Session.bind_eq_ok, Session.pure_eq_ok]
  exact ⟨s', rows, s', hquery, firstTexts_eq hrows, rfl⟩

/-- Asked for a table, it gives what is read under its name. -/
theorem tableInfo (name : String) (s : σ) :
    ∃ s', Introspection.tableInfo .sqlite c name s = (.ok (db.read name), s') := by
  obtain ⟨s₁, hcolumns⟩ := hc.columns (sanitize name) s
  obtain ⟨s₂, hkeys⟩ := hc.keys (sanitize name) s₁
  simp only [Introspection.tableInfo, Introspection.columns, Introspection.foreignKeys,
    Session.bind_eq_ok, Session.pure_eq_ok]
  exact ⟨s₂, _, s₁, ⟨_, s₁, hcolumns, rfl, rfl⟩, _, s₂, ⟨_, s₂, hkeys, rfl, rfl⟩, rfl, rfl⟩

/-- Every table gets what is read under its name. -/
theorem schema (s : σ) :
    ∃ s', Introspection.schema .sqlite c s = (.ok (db.readAll {} db.names), s') := by
  obtain ⟨s₁, hnames⟩ := hc.tableNames s
  have hstep : ∀ S name s, ∃ s', (do
      return Schema.insert S (← Introspection.tableInfo .sqlite c name) : Session σ ρ Schema) s =
        (.ok (S.insert (db.read name)), s') := by
    intro S name s
    obtain ⟨s', hinfo⟩ := hc.tableInfo name s
    exact ⟨s', Session.bind_eq_ok.2 ⟨_, s', hinfo, rfl⟩⟩
  obtain ⟨s', hall⟩ := Session.foldlM_of_forall hstep db.names {} s₁
  exact ⟨s', Session.bind_eq_ok.2 ⟨_, s₁, hnames, hall⟩⟩

end Database.AnsweredBy

/-! ## which tables the catalogue has -/

/-- A new member adds its name. -/
theorem perm_names_insertMember {α : Type} {name : String} {members : List (String × α)}
    (h : name ∉ members.map Prod.fst) (value : α) :
    ((Json.insertMember name value members).map Prod.fst).Perm (name :: members.map Prod.fst) := by
  induction members with
  | nil => exact .refl _
  | cons m rest ih =>
    rw [List.map_cons, List.mem_cons, not_or] at h
    rw [Json.insertMember]
    split
    · exact .refl _
    · rw [if_neg h.1]
      exact ((ih h.2).cons m.1).trans (.swap name m.1 _)

namespace Database

variable (db : Database)

/-- Reading adds the names of the tables that are read. -/
theorem perm_tableNames_readAll {S : Schema} {names : List String} (hnames : names.Nodup)
    (hnew : ∀ name ∈ names, name ∉ S.tableNames) :
    (db.readAll S names).tableNames.Perm (names ++ S.tableNames) := by
  induction names generalizing S with
  | nil => exact .refl _
  | cons name names ih =>
    obtain ⟨hname, hnames⟩ := List.nodup_cons.1 hnames
    obtain ⟨hfirst, hrest⟩ := List.forall_mem_cons.1 hnew
    have hinsert : (S.insert (db.read name)).tableNames.Perm (name :: S.tableNames) :=
      perm_names_insertMember hfirst (db.read name)
    have hnew' : ∀ n ∈ names, n ∉ (S.insert (db.read name)).tableNames := by
      intro n hn hmem
      rcases List.mem_cons.1 (hinsert.mem_iff.1 hmem) with rfl | hmem
      · exact hname hn
      · exact hrest n hn hmem
    exact (ih hnames hnew').trans ((hinsert.append_left names).trans List.perm_middle)

/-- Under each name there is what has been read under it last. -/
theorem lookup_readAll (S : Schema) (names : List String) (name : String) :
    (db.readAll S names).tables.lookup name =
      if name ∈ names then some (db.read name) else S.tables.lookup name := by
  induction names generalizing S with
  | nil => rfl
  | cons n names ih =>
    rw [readAll, List.foldl_cons]
    change (db.readAll _ names).tables.lookup name = _
    rw [ih, Schema.lookup_insert]
    change (if name ∈ names then _ else if name = n then _ else _) = _
    by_cases hname : name ∈ names
    · rw [if_pos hname, if_pos (List.mem_cons_of_mem n hname)]
    · by_cases hn : name = n
      · subst hn
        rw [if_neg hname, if_pos rfl, if_pos List.mem_cons_self]
      · rw [if_neg hname, if_neg hn, if_neg (by simp [hname, hn])]

/-- What is read describes the database exactly if what is read under each name describes the table
of that name. -/
theorem describedBy_readAll_iff :
    db.DescribedBy (db.readAll {} db.names) ↔ ∀ t ∈ db.tables, t.Described (db.read t.name) := by
  have hlookup : ∀ t ∈ db.tables,
      (db.readAll {} db.names).tables.lookup t.name = some (db.read t.name) := by
    intro t ht
    have hname : t.name ∈ db.names := List.mem_map_of_mem ht
    rw [lookup_readAll, if_pos hname]
  constructor
  · rintro ⟨-, h⟩ t ht
    obtain ⟨info, hinfo, hdescribed⟩ := h t ht
    rw [hlookup t ht] at hinfo
    exact Option.some.inj hinfo ▸ hdescribed
  · intro h
    refine ⟨?_, fun t ht => ⟨_, hlookup t ht, h t ht⟩⟩
    have hperm : (db.readAll {} db.names).tableNames.Perm (db.names ++ []) :=
      db.perm_tableNames_readAll db.distinct fun _ _ => List.not_mem_nil
    rwa [List.append_nil] at hperm

end Database

/-! ## names -/

/-- A name stays as it is if all its characters are plain. -/
theorem sanitize_eq_self_iff {name : String} :
    sanitize name = name ↔ ∀ c ∈ name.toList, isPlain c := by
  rw [sanitize, ← String.toList_inj, String.toList_ofList, List.filter_eq_self]

/-- A row that tells the column. -/
def StoredColumn.row (c : StoredColumn) : Row :=
  ⟨["name", "type", "notnull", "pk"],
    [.text c.name, .text c.sqlType, .bigInt (if c.notNull then 1 else 0), .bigInt c.position]⟩

/-- The row of a column tells it. -/
theorem tellsColumn_row (c : StoredColumn) : TellsColumn c.row c where
  name := rfl
  sqlType := rfl
  notNull := ⟨_, congrArg Except.ok (Int64.ofInt_toInt _), by cases c.notNull <;> decide⟩
  position := congrArg Except.ok (Int64.ofInt_toInt c.position)

/-- A table with these columns and without foreign keys. -/
def StoredTable.ofColumns (name : String) (columns : List StoredColumn) : StoredTable where
  name
  columns
  columnRows := columns.map (·.row)
  keyRows := []
  told := List.forall₂_map_left_iff.2 (List.forall₂_same.2 fun c _ => tellsColumn_row c)

/-- A table with one column, of the table's own name. -/
def StoredTable.ofName (name : String) : StoredTable := .ofColumns name [⟨name, "", false, 0⟩]

/-- Tables made from names have these. -/
theorem map_name_ofName (names : List String) :
    (names.map StoredTable.ofName).map (·.name) = names := by
  rw [List.map_map]
  exact List.map_id names

def Database.ofNames (names : List String) (h : names.Nodup) : Database where
  tables := names.map StoredTable.ofName
  distinct := (map_name_ofName names).symm ▸ h

/-- A name with other than plain characters gets another table's columns, or none. -/
theorem plain_of_described {names : List String} (h : names.Nodup) {name : String}
    (hdescribed : (StoredTable.ofName name).Described ((Database.ofNames names h).read name)) :
    sanitize name = name := by
  have hcolumns := hdescribed.columns
  rw [Database.read, infoOf, Database.columnRows] at hcolumns
  cases hfound : (Database.ofNames names h).table? (sanitize name) with
  | none =>
    rw [hfound] at hcolumns
    exact absurd hcolumns (by simp [columns, StoredTable.ofName, StoredTable.ofColumns])
  | some t =>
    obtain ⟨m, -, rfl⟩ := List.mem_map.1 (List.mem_of_find?_eq_some hfound)
    have hm : (m == sanitize name) = true :=
      List.find?_some (p := fun t : StoredTable => t.name == sanitize name) hfound
    rw [hfound] at hcolumns
    have hnames := congrArg (List.map Column.name) hcolumns
    exact (beq_iff_eq.1 hm).symm.trans (List.singleton_inj.1 hnames)

/-- Let a connection answer for the tables of a database, to each statement about a table with the
rows of the table of the very name that stands in it.  Then a catalogue is read, and it has exactly
these tables as they are if and only if what is told of the table of each reduced name is so of the
table of the full name.  This is so whatever the tables hold exactly if all their names are made of
plain characters. -/
theorem schema_describes_iff {σ ρ : Type} {db : Database} {c : Connection σ ρ}
    (hc : db.AnsweredBy c) (s : σ) :
    (∃ S s', Introspection.schema .sqlite c s = (.ok S, s') ∧
        (db.DescribedBy S ↔ ∀ t ∈ db.tables, t.Described (db.read t.name))) ∧
      ((∀ db' : Database, db'.names = db.names → ∀ {σ' ρ' : Type} (c' : Connection σ' ρ') (s : σ'),
          db'.AnsweredBy c' → ∃ S s', Introspection.schema .sqlite c' s = (.ok S, s') ∧
            db'.DescribedBy S) ↔
        ∀ name ∈ db.names, ∀ ch ∈ name.toList, isPlain ch) := by
  obtain ⟨s', hschema⟩ := hc.schema s
  refine ⟨⟨_, s', hschema, db.describedBy_readAll_iff⟩, fun h name hname => ?_,
    fun hplain db' hnames σ' ρ' c' s hc' => ?_⟩
  -- of the tables only the names are given, so empty tables of these names will do
  · let db' := Database.ofNames db.names db.distinct
    have hnames : db'.names = db.names := map_name_ofName db.names
    obtain ⟨S, s₁, hS, hdescribed⟩ := h db' hnames db'.connection () db'.answeredBy_connection
    obtain ⟨s₂, hS'⟩ := db'.answeredBy_connection.schema ()
    obtain rfl := Outcome.ok.inj (Prod.mk.inj (hS.symm.trans hS')).1
    have hread := db'.describedBy_readAll_iff.1 hdescribed _ (List.mem_map_of_mem hname)
    exact sanitize_eq_self_iff.1 (plain_of_described db.distinct hread)
  · obtain ⟨s', hschema'⟩ := hc'.schema s
    refine ⟨_, s', hschema', db'.describedBy_readAll_iff.2 fun t ht => ?_⟩
    have hname : t.name ∈ db.names := hnames ▸ List.mem_map_of_mem ht
    rw [Database.read_of_plain ht (sanitize_eq_self_iff.2 (hplain t.name hname))]
    exact t.described_infoOf

end Introspection.Sqlite

namespace Library

open Introspection.Sqlite (Database StoredTable)

/-- Lost books, and a table of the same name without the hyphen. -/
def losses : Database where
  tables := [
    .ofColumns "lost-books" [⟨"bookId", "INTEGER", true, 1⟩, ⟨"lostOn", "TEXT", false, 0⟩],
    .ofColumns "lostbooks" [⟨"code", "TEXT", true, 1⟩]]
  distinct := by decide

end Library

/-- Lost books get the columns of the other table. -/
theorem Introspection.Sqlite.misread_beside_reduced_name :
    ∃ S, Introspection.schema .sqlite Library.losses.connection () = (.ok S, ()) ∧
      S.tables.map (fun t => (t.1, t.2.columns.map (·.name))) =
        [("lost-books", ["code"]), ("lostbooks", ["code"])] ∧
      ¬Library.losses.DescribedBy S := by
  obtain ⟨⟨S, s', hS, hdescribed⟩, -⟩ :=
    schema_describes_iff Library.losses.answeredBy_connection ()
  refine ⟨S, hS, ?_, fun h => ?_⟩
  · obtain ⟨s'', hread⟩ := Library.losses.answeredBy_connection.schema ()
    rw [← Outcome.ok.inj (congrArg Prod.fst (hread.symm.trans hS))]
    decide +kernel
  · have hcolumns := (hdescribed.1 h _ List.mem_cons_self).columns
    exact absurd hcolumns (by decide)

end AssociationQuery
