import AssociationQuery.Proofs.Session
import AssociationQuery.Schema.Introspection
import Mathlib.Data.List.Forall2
import Mathlib.Data.List.ProdSigma

/-!
# AssociationQuery.Proofs.Introspection.Constraints

Foreign keys of a server with an information schema.

The view of the referenced columns of a constraint does not tell which column references which, so
the foreign-key query answers every combination of a referencing and a referenced column of a
constraint.  Each of these rows is read as one more pair of key columns:
`Postgres.foreignKeys_constraints_iff` says that there is one key for each constraint, but with all
combinations, and that the keys are those of the constraints exactly if each has a single column.
-/

namespace AssociationQuery.Introspection.Postgres

variable {rows : List Row} {table : String}

/-! ## constraints -/

/-- A foreign-key constraint of a table. -/
structure Constraint where
  name : String
  foreignTable : String
  /-- The referencing columns in their order, each with the column that it references. -/
  pairs : List (String × String)
  deriving DecidableEq, Repr

namespace Constraint

def columns (k : Constraint) : List String := k.pairs.map Prod.fst

def references (k : Constraint) : List String := k.pairs.map Prod.snd

/-- The foreign key that the constraint is. -/
def key (table : String) (k : Constraint) : ForeignKey :=
  ⟨some k.name, table, k.columns, k.foreignTable, k.references⟩

def part (k : Constraint) (column reference : String) : Part :=
  ⟨k.name, column, k.foreignTable, reference⟩

/-- One row for each referencing column, in this order, and each referenced one, in any order. -/
inductive Combines (k : Constraint) : List String → List Part → Prop
  | nil : Combines k [] []
  | cons {c : String} {cs references : List String} {ps : List Part}
      (h : references.Perm k.references) (rest : Combines k cs ps) :
      Combines k (c :: cs) (references.map (k.part c) ++ ps)

end Constraint

/-- What the foreign-key query denotes: the combinations of one constraint after the other. -/
inductive Combined : List Constraint → List Part → Prop
  | nil : Combined [] []
  | cons {k : Constraint} {ks : List Constraint} {ps qs : List Part}
      (own : k.Combines k.columns ps) (rest : Combined ks qs) : Combined (k :: ks) (ps ++ qs)

/-- The row tells one combination of columns of a constraint. -/
structure Tells (r : Row) (p : Part) : Prop where
  constraint : r.readNamed "constraint_name" = .ok p.constraint
  column : r.readNamed "column_name" = .ok p.column
  foreignTable : r.readNamed "foreign_table_name" = .ok p.foreignTable
  foreignColumn : r.readNamed "foreign_column_name" = .ok p.foreignColumn

/-- Rows that tell parts are read as these. -/
theorem filterMap_part?_of_tells {parts : List Part} (h : List.Forall₂ Tells rows parts) :
    rows.filterMap part? = parts := by
  induction h with
  | nil => rfl
  | @cons r p _ _ hr _ ih =>
    have hp : part? r = some p := by
      simp only [part?, textOf?, hr.constraint, hr.column, hr.foreignTable, hr.foreignColumn]
      rfl
    rw [List.filterMap_cons_some hp, ih]

/-! ## reading the combinations -/

/-- The key of a constraint as it is read: each column as often as there are referenced ones, beside
each of these. -/
structure Constraint.ReadAs (table : String) (k : Constraint) (key : ForeignKey) : Prop where
  name : key.name = some k.name
  table : key.table = table
  foreignTable : key.foreignTable = k.foreignTable
  columns : key.columns = k.columns.flatMap (List.replicate k.pairs.length)
  foreignColumns : key.foreignColumns.length = key.columns.length
  pairs : key.pairs.Perm (k.columns ×ˢ k.references)

/-- The key that rows of one constraint are read as. -/
def keyOf (table : String) (k : Constraint) (ps : List Part) : ForeignKey :=
  ⟨some k.name, table, ps.map (·.column), k.foreignTable, ps.map (·.foreignColumn)⟩

namespace Constraint.Combines

variable {k : Constraint} {cs : List String} {ps : List Part}

/-- All parts are of the constraint. -/
theorem same (h : k.Combines cs ps) :
    ∀ p ∈ ps, p.constraint = k.name ∧ p.foreignTable = k.foreignTable := by
  induction h with
  | nil => nofun
  | cons _ _ ih =>
    rw [List.forall_mem_append, List.forall_mem_map]
    exact ⟨fun _ _ => ⟨rfl, rfl⟩, ih⟩

/-- Each column comes as often as there are pairs. -/
theorem columns_eq (h : k.Combines cs ps) :
    ps.map (·.column) = cs.flatMap (List.replicate k.pairs.length) := by
  induction h with
  | nil => rfl
  | @cons c cs references ps hperm _ ih =>
    have hlength : references.length = k.pairs.length := by
      rw [hperm.length_eq, Constraint.references, List.length_map]
    rw [List.map_append, List.map_map, ih, List.flatMap_cons, ← hlength]
    exact congrArg (· ++ _) (List.map_const' ..)

/-- The parts are all combinations of columns and references. -/
theorem perm_product (h : k.Combines cs ps) :
    (ps.map fun p => (p.column, p.foreignColumn)).Perm (cs ×ˢ k.references) := by
  induction h with
  | nil => exact .refl _
  | @cons c cs references ps hperm _ ih =>
    rw [List.map_append, List.map_map, List.product_cons]
    exact (hperm.map _).append ih

/-- The parts of a constraint are read as one key with all combinations. -/
theorem readAs (h : k.Combines k.columns ps) : k.ReadAs table (keyOf table k ps) where
  name := rfl
  table := rfl
  foreignTable := rfl
  columns := h.columns_eq
  foreignColumns := by simp [keyOf]
  pairs := by
    rw [ForeignKey.pairs, keyOf, List.zip_map']
    exact h.perm_product

end Constraint.Combines

/-- Combined, there are as many columns as pairs times pairs. -/
theorem Constraint.length_columns_flatMap (k : Constraint) :
    (k.columns.flatMap (List.replicate k.pairs.length)).length =
      k.pairs.length * k.pairs.length := by
  rw [List.length_flatMap]
  simp only [List.length_replicate, List.map_const', List.sum_replicate_nat, columns,
    List.length_map]

/-- All combinations make up the key of the constraint exactly if there is only one. -/
theorem Constraint.ReadAs.eq_key_iff {k : Constraint} {key : ForeignKey}
    (h : k.ReadAs table key) (hne : k.pairs ≠ []) : key = k.key table ↔ k.pairs.length = 1 := by
  constructor
  · rintro rfl
    -- every column stands beside every reference, which makes `n * n` of them
    have hlength := congrArg List.length h.columns
    rw [length_columns_flatMap, Constraint.key, Constraint.columns, List.length_map] at hlength
    exact (Nat.mul_eq_left (mt List.length_eq_zero_iff.1 hne)).1 hlength.symm
  · intro hone
    obtain ⟨⟨c, r⟩, hpair⟩ := List.length_eq_one_iff.1 hone
    have hcolumns : key.columns = [c] := by
      rw [h.columns, Constraint.columns, hpair]
      rfl
    have hpairs : key.pairs = [(c, r)] := by
      have hperm := h.pairs
      rw [Constraint.columns, Constraint.references, hpair] at hperm
      exact List.perm_singleton.1 hperm
    have hforeign : key.foreignColumns = [r] := by
      obtain ⟨r', hr⟩ := List.length_eq_one_iff.1 (h.foreignColumns.trans (by rw [hcolumns]; rfl))
      rw [ForeignKey.pairs, hcolumns, hr] at hpairs
      rw [hr]
      simpa using hpairs
    obtain ⟨name, table, columns, foreignTable, foreignColumns⟩ := key
    obtain ⟨rfl, rfl, rfl, -, -, -⟩ := h
    subst hcolumns hforeign
    simp [Constraint.key, Constraint.columns, Constraint.references, hpair]

/-- If each constraint has one pair, the keys are read as they are. -/
theorem Constraint.ReadAs.eq_map_key {ks : List Constraint} {read : List ForeignKey}
    (h : List.Forall₂ (Constraint.ReadAs table) ks read) (hone : ∀ k ∈ ks, k.pairs.length = 1) :
    read = ks.map (Constraint.key table) := by
  induction h with
  | nil => rfl
  | @cons k _ _ _ hk _ ih =>
    obtain ⟨hown, hrest⟩ := List.forall_mem_cons.1 hone
    have hne : k.pairs ≠ [] := List.ne_nil_of_length_pos (hown ▸ Nat.one_pos)
    rw [List.map_cons, (hk.eq_key_iff hne).2 hown, ih hrest]

/-! ## one constraint after the other -/

/-- Rows of one constraint are read one after the other into one key. -/
theorem foldl_addPart_own {k : Constraint} (ps qs : List Part) (keys : List ForeignKey)
    (h : ∀ p ∈ qs, p.constraint = k.name) :
    qs.foldl (addPart table) (keys ++ [keyOf table k ps]) = keys ++ [keyOf table k (ps ++ qs)] := by
  induction qs generalizing ps with
  | nil => rw [List.append_nil, List.foldl_nil]
  | cons q qs ih =>
    obtain ⟨hq, hqs⟩ := List.forall_mem_cons.1 h
    have hstep : addPart table (keys ++ [keyOf table k ps]) q =
        keys ++ [keyOf table k (ps ++ [q])] := by
      simp [addPart, keyOf, hq]
    rw [List.foldl_cons, hstep, ih (ps ++ [q]) hqs, List.append_assoc, List.singleton_append]

/-- A row of another constraint than the one read last starts a new key. -/
theorem addPart_of_new {p : Part} {keys : List ForeignKey}
    (h : ∀ key ∈ keys.getLast?, key.name ≠ some p.constraint) :
    addPart table keys p =
      keys ++ [⟨some p.constraint, table, [p.column], p.foreignTable, [p.foreignColumn]⟩] := by
  rw [addPart]
  cases hlast : keys.getLast? with
  | none =>
    obtain rfl := List.getLast?_eq_none_iff.1 hlast
    rfl
  | some key => exact if_neg (h key hlast)

/-- Rows of a constraint that is read first add one key. -/
theorem foldl_addPart_block {k : Constraint} {ps : List Part} {keys : List ForeignKey}
    (hps : ps ≠ []) (hsame : ∀ p ∈ ps, p.constraint = k.name ∧ p.foreignTable = k.foreignTable)
    (hnew : ∀ key ∈ keys.getLast?, key.name ≠ some k.name) :
    ps.foldl (addPart table) keys = keys ++ [keyOf table k ps] := by
  obtain ⟨p, ps, rfl⟩ := List.exists_cons_of_ne_nil hps
  obtain ⟨⟨hname, htable⟩, hrest⟩ := List.forall_mem_cons.1 hsame
  rw [List.foldl_cons, addPart_of_new (by rwa [hname]), hname, htable]
  exact foldl_addPart_own [p] ps keys fun q hq => (hrest q hq).1

/-- Reading goes on with one key for each constraint that has columns. -/
theorem exists_foldl_addPart (table : String) {ks : List Constraint} {parts : List Part}
    (h : Combined ks parts) (hnames : (ks.map (·.name)).Nodup) (keys : List ForeignKey)
    (hnew : ∀ k ∈ ks, ∀ key ∈ keys.getLast?, key.name ≠ some k.name) :
    ∃ read, parts.foldl (addPart table) keys = keys ++ read ∧
      List.Forall₂ (Constraint.ReadAs table) (ks.filter fun k => k.pairs ≠ []) read := by
  induction h generalizing keys with
  | nil => exact ⟨[], (List.append_nil keys).symm, .nil⟩
  | @cons k ks ps qs own rest ih =>
    obtain ⟨hnot, hnames⟩ := List.nodup_cons.1 hnames
    obtain ⟨hk, hks⟩ := List.forall_mem_cons.1 hnew
    have hlength : ps.length = k.pairs.length * k.pairs.length := by
      rw [← k.length_columns_flatMap, ← own.columns_eq, List.length_map]
    rw [List.foldl_append]
    by_cases hnone : k.pairs = []
    · -- no row at all comes from the constraint
      obtain rfl : ps = [] := List.length_eq_zero_iff.1 (by rw [hlength, hnone]; rfl)
      rw [List.filter_cons_of_neg (by simpa using hnone)]
      exact ih hnames keys hks
    · have hps : ps ≠ [] := by
        have hpos := List.length_pos_iff.2 hnone
        exact List.length_pos_iff.1 (hlength ▸ Nat.mul_pos hpos hpos)
      rw [foldl_addPart_block hps own.same hk, List.filter_cons_of_pos (by simpa using hnone)]
      have hnew' : ∀ k' ∈ ks, ∀ key ∈ (keys ++ [keyOf table k ps]).getLast?,
          key.name ≠ some k'.name := by
        intro k' hk' key hkey heq
        rw [List.getLast?_concat, Option.mem_some_iff] at hkey
        subst hkey
        exact hnot (List.mem_map.2 ⟨k', hk', (Option.some.inj heq).symm⟩)
      obtain ⟨read, hread, hkeys⟩ := ih hnames _ hnew'
      have hfirst : keys ++ [keyOf table k ps] ++ read = keys ++ keyOf table k ps :: read :=
        List.append_assoc keys [keyOf table k ps] read
      exact ⟨keyOf table k ps :: read, hread.trans hfirst, .cons own.readAs hkeys⟩

/-- The keys that are read of a table are those that the answer tells. -/
theorem foreignKeys_of_answer {σ ρ : Type} {c : Connection σ ρ} {s s' : σ}
    (h : c.query ⟨foreignKeysSql, [.text table]⟩ s = (.ok rows, s')) :
    Introspection.foreignKeys .postgres c table s = (.ok (foreignKeys table rows), s') := by
  simp only [Introspection.foreignKeys, Session.bind_eq_ok, Session.pure_eq_ok]
  exact ⟨rows, s', h, rfl, rfl⟩

/-- Let a connection answer the foreign-key query with all combinations of the columns of each
constraint.  Then one key is read for each constraint that has columns, but with all combinations;
so the keys that are read are those of the constraints exactly if each has a single column. -/
theorem foreignKeys_constraints_iff {ks : List Constraint} {parts : List Part} {σ ρ : Type}
    {c : Connection σ ρ} {s s' : σ} (hnames : (ks.map (·.name)).Nodup) (hparts : Combined ks parts)
    (hrows : List.Forall₂ Tells rows parts)
    (hquery : c.query ⟨foreignKeysSql, [.text table]⟩ s = (.ok rows, s')) :
    (∃ read, Introspection.foreignKeys .postgres c table s = (.ok read, s') ∧
        List.Forall₂ (Constraint.ReadAs table) (ks.filter fun k => k.pairs ≠ []) read) ∧
      (Introspection.foreignKeys .postgres c table s = (.ok (ks.map (Constraint.key table)), s') ↔
        ∀ k ∈ ks, k.pairs.length = 1) := by
  obtain ⟨read, hread, hkeys⟩ := exists_foldl_addPart table hparts hnames [] nofun
  have hforeign : foreignKeys table rows = read := by
    rw [foreignKeys, filterMap_part?_of_tells hrows, hread, List.nil_append]
  rw [foreignKeys_of_answer hquery, hforeign]
  refine ⟨⟨read, rfl, hkeys⟩, ?_⟩
  have hsame : ((Outcome.ok read : Outcome (List ForeignKey) ρ), s') =
      (.ok (ks.map (Constraint.key table)), s') ↔ read = ks.map (Constraint.key table) := by
    simp
  rw [hsame]
  constructor
  · rintro rfl
    -- none was left out for having no columns, or the two lists would differ in length
    have hall : ks.filter (fun k => k.pairs ≠ []) = ks := by
      refine List.filter_eq_self.2 (List.length_filter_eq_length_iff.1 ?_)
      rw [hkeys.length_eq, List.length_map]
    rw [hall, List.forall₂_map_right_iff, List.forall₂_same] at hkeys
    intro k hk
    -- `n` pairs come back as `n * n`, which are the declared ones for one pair only
    have hne : k.pairs ≠ [] := by simpa using List.filter_eq_self.1 hall k hk
    exact ((hkeys k hk).eq_key_iff hne).1 rfl
  · intro hone
    have hall : ks.filter (fun k => k.pairs ≠ []) = ks := by
      refine List.filter_eq_self.2 fun k hk => ?_
      simpa using List.ne_nil_of_length_pos (hone k hk ▸ Nat.one_pos)
    rw [hall] at hkeys
    exact Constraint.ReadAs.eq_map_key hkeys hone

end AssociationQuery.Introspection.Postgres

namespace AssociationQuery

open Introspection.Postgres (Constraint)

namespace Library

/-- The constraint by which prints reference editions, in two columns. -/
def printConstraint : Constraint :=
  ⟨"prints_edition", "editions", [("bookId", "book"), ("number", "no")]⟩

/-- The combinations of its columns. -/
def printRows : List Row :=
  let columns := ["constraint_name", "column_name", "foreign_table_name", "foreign_column_name"]
  [⟨columns, [.text "prints_edition", .text "bookId", .text "editions", .text "book"]⟩,
    ⟨columns, [.text "prints_edition", .text "bookId", .text "editions", .text "no"]⟩,
    ⟨columns, [.text "prints_edition", .text "number", .text "editions", .text "no"]⟩,
    ⟨columns, [.text "prints_edition", .text "number", .text "editions", .text "book"]⟩]

def printServer : Connection Unit := ⟨fun _ s => (.ok printRows, s)⟩

end Library

/-- The two columns of the key are read as four. -/
theorem Introspection.Postgres.columns_of_prints_repeated :
    Introspection.foreignKeys .postgres Library.printServer "prints" () =
        (.ok [⟨some "prints_edition", "prints", ["bookId", "bookId", "number", "number"],
          "editions", ["book", "no", "no", "book"]⟩], ()) ∧
      Introspection.foreignKeys .postgres Library.printServer "prints" () ≠
        (.ok [Library.printConstraint.key "prints"], ()) := by
  refine ⟨rfl, fun h => ?_⟩
  let k := Library.printConstraint
  -- the rows of the second column come in the other order
  have hnumber : k.Combines ["number"] (["no", "book"].map (k.part "number") ++ []) :=
    .cons (.swap "book" "no" []) .nil
  have hown : k.Combines k.columns _ := .cons (c := "bookId") (.refl ["book", "no"]) hnumber
  have hparts := Combined.cons hown .nil
  have hrows : List.Forall₂ Tells Library.printRows
      [k.part "bookId" "book", k.part "bookId" "no", k.part "number" "no",
        k.part "number" "book"] :=
    .cons ⟨rfl, rfl, rfl, rfl⟩ <| .cons ⟨rfl, rfl, rfl, rfl⟩ <| .cons ⟨rfl, rfl, rfl, rfl⟩ <|
      .cons ⟨rfl, rfl, rfl, rfl⟩ .nil
  have hone := (foreignKeys_constraints_iff (c := Library.printServer) (s := ()) (by decide)
    hparts hrows rfl).2.1 h
  exact absurd (hone _ List.mem_cons_self) (by decide)

end AssociationQuery
