import AssociationQuery.Proofs.Keys.Associations

/-!
# AssociationQuery.Proofs.Keys.Mappings

How much of a foreign key an association is joined by.

Building an association settles on one foreign key: the one that is given in full, the declared one
with the given columns, the given columns with a primary key, or the only declared one.  The pairs
of key columns are taken from its two lists of columns side by side.  Every pair is complete and
names columns that exist; but of two lists of different lengths the longer one is cut off.
`AssociationBuilder.build_pairs_iff` says that all columns are paired exactly if the lists of the
key have the same length.
-/

namespace AssociationQuery

open Text.Casing (sameIgnoringCase)

/-- The table has the column, up to the case of letters, as far as its columns are known. -/
def Table.Allows (t : Table) (column : String) : Prop :=
  t.columns ≠ [] → ∃ c ∈ t.columns, sameIgnoringCase c column

/-- A table allows each column that it does not lack. -/
theorem Table.allows_of_lacks {t : Table} {column : String}
    (h : AssociationBuilder.lacks t column = false) : t.Allows column := by
  intro hknown
  rw [← Table.isSome_columnIndex?]
  simpa [AssociationBuilder.lacks, hknown] using h

/-! ## the two sides of a pair -/

namespace DirectKind

/-- The column of the table that holds the foreign key. -/
def holding : DirectKind → String × String → String
  | belongsTo, p => p.1
  | hasOne, p | hasMany, p => p.2

/-- The column of the table that the foreign key references. -/
def referenced : DirectKind → String × String → String
  | belongsTo, p => p.2
  | hasOne, p | hasMany, p => p.1

/-- The pairs have all the columns on the side that holds the key, and all the references on the
other one, in their order. -/
structure PairsAll (kind : DirectKind) (mapping : List (String × String))
    (columns references : List String) : Prop where
  holding : mapping.map kind.holding = columns
  referenced : mapping.map kind.referenced = references

end DirectKind

namespace AssociationBuilder

/-- The table that holds the foreign key. -/
def holder (b : AssociationBuilder) : String :=
  match b.kind with
  | .belongsTo => b.origin
  | .hasOne | .hasMany => b.destination

/-- The table that the foreign key references. -/
def referenced (b : AssociationBuilder) : String :=
  match b.kind with
  | .belongsTo => b.destination
  | .hasOne | .hasMany => b.origin

/-- The columns and the references of the foreign key that the builder settles on. -/
inductive Settles (S : Schema) (b : AssociationBuilder) : List String → List String → Prop
  /-- The key is given in full. -/
  | given {columns references : List String} (key : b.key = some (.pairs columns references)) :
      Settles S b columns references
  /-- The first declared key with the given columns. -/
  | selected {columns : List String} {declared : List ForeignKey} {k : ForeignKey}
      (key : b.key = some (.columns columns))
      (keys : S.foreignKeys b.holder b.referenced = .ok declared)
      (first : declared.find? (·.hasColumns columns) = some k) :
      Settles S b k.columns k.foreignColumns
  /-- The given columns, which no declared key has, reference the primary key. -/
  | primary {columns primaryKey : List String} {declared : List ForeignKey}
      (key : b.key = some (.columns columns))
      (keys : S.foreignKeys b.holder b.referenced = .ok declared)
      (unmatched : ∀ k ∈ declared, k.hasColumns columns = false)
      (references : S.primaryKey b.referenced = .ok primaryKey) :
      Settles S b columns primaryKey
  /-- The only declared key. -/
  | only {k : ForeignKey} (key : b.key = none)
      (keys : S.foreignKeys b.holder b.referenced = .ok [k]) :
      Settles S b k.columns k.foreignColumns

variable {S : Schema} {b : AssociationBuilder}

/-- The builder settles on one key at most. -/
theorem Settles.unique {columns references columns' references' : List String}
    (h : b.Settles S columns references) (h' : b.Settles S columns' references') :
    columns' = columns ∧ references' = references := by
  -- the ways exclude each other: a declared key is found or it is not
  cases h with
  | given key => cases h' <;> simp_all
  | selected key keys first =>
    cases h' with
    | primary key' keys' unmatched =>
      have hmem := List.mem_of_find?_eq_some first
      have hfound := List.find?_some first
      simp_all
    | _ => simp_all
  | primary key keys unmatched references =>
    cases h' with
    | selected key' keys' first =>
      have hmem := List.mem_of_find?_eq_some first
      have hfound := List.find?_some first
      simp_all
    | _ => simp_all
  | only key keys => cases h' <;> simp_all

/-- Zipped and turned, a key has all its columns and references if there are as many of both. -/
theorem pairsAll_orient_iff (kind : DirectKind) (columns references : List String) :
    kind.PairsAll (orient kind (columns.zip references)) columns references ↔
      columns.length = references.length := by
  have hholding : (orient kind (columns.zip references)).map kind.holding =
      (columns.zip references).map Prod.fst := by
    cases kind with
    | belongsTo => rfl
    | hasOne | hasMany => exact List.map_map
  have hreferenced : (orient kind (columns.zip references)).map kind.referenced =
      (columns.zip references).map Prod.snd := by
    cases kind with
    | belongsTo => rfl
    | hasOne | hasMany => exact List.map_map
  -- the shorter list bounds the pairs, so both are read off only if they are equally long
  constructor
  · rintro ⟨hcolumns, hreferences⟩
    have hshorter := congrArg List.length (hholding.symm.trans hcolumns)
    have hlonger := congrArg List.length (hreferenced.symm.trans hreferences)
    rw [List.length_map, List.length_zip] at hshorter hlonger
    omega
  · intro heq
    exact ⟨hholding.trans (List.map_fst_zip (Nat.le_of_eq heq)),
      hreferenced.trans (List.map_snd_zip (Nat.le_of_eq heq.symm))⟩

/-- The pairs are chosen from the lists of the key that the builder settles on. -/
theorem settles_of_choosePairs {holder referenced : Table} {pairs : List (String × String)}
    (hholder : holder.name = b.holder) (hreferenced : referenced.name = b.referenced)
    (hprimary : S.primaryKey b.referenced = .ok referenced.primaryKey)
    (h : choosePairs S b.name holder referenced b.key = .ok pairs) :
    ∃ columns references, b.Settles S columns references ∧ pairs = columns.zip references := by
  -- the branches are the ways to settle a key: given in full, given by its columns and declared,
  -- given by its columns alone, or the only one declared
  unfold choosePairs at h
  rw [hholder, hreferenced] at h
  split at h
  · next columns references hkey =>
    split at h
    · cases h
    · exact ⟨columns, references, .given hkey, (Except.ok.inj h).symm⟩
  · next columns hkey =>
    obtain ⟨declared, hdeclared, h⟩ := bind_eq_ok.1 h
    split at h
    · next k hk =>
      exact ⟨k.columns, k.foreignColumns, .selected hkey hdeclared hk, (pure_eq_ok.1 h).symm⟩
    · next hnone =>
      have hunmatched : ∀ k ∈ declared, k.hasColumns columns = false := by
        simpa using List.find?_eq_none.1 hnone
      split at h
      · exact ⟨columns, referenced.primaryKey, .primary hkey hdeclared hunmatched hprimary,
          (pure_eq_ok.1 h).symm⟩
      · cases h
  · next hkey =>
    obtain ⟨declared, hdeclared, h⟩ := bind_eq_ok.1 h
    split at h
    · next k =>
      exact ⟨k.columns, k.foreignColumns, .only hkey hdeclared, (pure_eq_ok.1 h).symm⟩
    · cases h
    · cases h

/-- Pairs that pass the check are there, and complete. -/
theorem complete_of_checkPairs {name : String} {holder referenced : Table}
    {pairs : List (String × String)} (h : checkPairs name holder referenced pairs = .ok ()) :
    pairs ≠ [] ∧ ∀ p ∈ pairs, p.1 ≠ "" ∧ p.2 ≠ "" := by
  rw [checkPairs] at h
  split at h
  · cases h
  · next hcomplete =>
    simpa [not_or] using hcomplete

/-- Turning pairs leaves them complete, with columns of the tables that they are turned to. -/
theorem complete_orient {kind : DirectKind} {origin destination : Table}
    {pairs : List (String × String)} (hcomplete : ∀ p ∈ pairs, p.1 ≠ "" ∧ p.2 ≠ "")
    (hlacks : ∀ p ∈ pairs, lacks (roles kind origin destination).1 p.1 = false ∧
      lacks (roles kind origin destination).2 p.2 = false) :
    ∀ p ∈ orient kind pairs, p.1 ≠ "" ∧ p.2 ≠ "" ∧ origin.Allows p.1 ∧ destination.Allows p.2 := by
  cases kind with
  | belongsTo =>
    intro p hp
    exact ⟨(hcomplete p hp).1, (hcomplete p hp).2, Table.allows_of_lacks (hlacks p hp).1,
      Table.allows_of_lacks (hlacks p hp).2⟩
  | hasOne | hasMany =>
    refine List.forall_mem_map.2 fun p hp => ?_
    exact ⟨(hcomplete p hp).2, (hcomplete p hp).1, Table.allows_of_lacks (hlacks p hp).2,
      Table.allows_of_lacks (hlacks p hp).1⟩

/-- A described table has the name that it was asked for by. -/
theorem name_of_describe {name : String} {t : Table} (h : S.describe name = .ok t) :
    t.name = name := by
  obtain ⟨info, -, rfl⟩ := Schema.describe_eq_ok.1 h
  rfl

/-- It has the primary key of the catalogue. -/
theorem primaryKey_of_describe {name : String} {t : Table} (h : S.describe name = .ok t) :
    S.primaryKey name = .ok t.primaryKey := by
  simp only [Schema.describe, bind_eq_ok, pure_eq_ok] at h
  obtain ⟨_, -, primaryKey, hprimary, rfl⟩ := h
  exact hprimary

/-- The two tables in their roles have the names that the builder gives them, and the primary key
that may be referenced is that of the second one. -/
theorem roles_of_describe {origin destination : Table} (horigin : S.describe b.origin = .ok origin)
    (hdestination : S.describe b.destination = .ok destination) :
    (roles b.kind origin destination).1.name = b.holder ∧
      (roles b.kind origin destination).2.name = b.referenced ∧
      S.primaryKey b.referenced = .ok (roles b.kind origin destination).2.primaryKey := by
  have ho := name_of_describe horigin
  have hd := name_of_describe hdestination
  unfold roles holder referenced
  cases b.kind with
  | belongsTo => exact ⟨ho, hd, primaryKey_of_describe hdestination⟩
  | hasOne | hasMany => exact ⟨hd, ho, primaryKey_of_describe horigin⟩

/-- The mapping of an association that is built has some pair, and in every pair the names of two
columns that the tables have as far as that is known.  The columns of the key that the builder
settles on are paired with the key's references, as far as there are both: all columns and all
references are in the mapping exactly if the key has as many of the ones as of the others. -/
theorem build_pairs_iff {a : Association} (h : b.build S = .ok a) :
    S.describe b.origin = .ok a.origin ∧ S.describe b.destination = .ok a.destination ∧
      a.mapping ≠ [] ∧
      (∀ p ∈ a.mapping, p.1 ≠ "" ∧ p.2 ≠ "" ∧ a.origin.Allows p.1 ∧ a.destination.Allows p.2) ∧
      (∃ columns references, b.Settles S columns references) ∧
      ∀ columns references, b.Settles S columns references →
        a.mapping = orient b.kind (columns.zip references) ∧
          (b.kind.PairsAll a.mapping columns references ↔ columns.length = references.length) := by
  simp only [build, mapping, bind_eq_ok, pure_eq_ok, mapError_eq_ok] at h
  obtain ⟨origin, horigin, destination, hdestination, _, ⟨pairs, hpairs, _, hcheck, rfl⟩, rfl⟩ := h
  obtain ⟨hholder, hreferenced, hprimary⟩ := roles_of_describe horigin hdestination
  obtain ⟨columns, references, hsettles, rfl⟩ :=
    settles_of_choosePairs hholder hreferenced hprimary hpairs
  obtain ⟨hne, hcomplete⟩ := complete_of_checkPairs hcheck
  refine ⟨horigin, hdestination, ?_, complete_orient hcomplete (forall_not_lacks hcheck),
    ⟨columns, references, hsettles⟩, fun columns' references' hsettles' => ?_⟩
  · show orient b.kind (columns.zip references) ≠ []
    cases b.kind with
    | belongsTo => exact hne
    | hasOne | hasMany => exact fun hnil => hne (List.map_eq_nil_iff.1 hnil)
  · obtain ⟨rfl, rfl⟩ := hsettles.unique hsettles'
    exact ⟨rfl, pairsAll_orient_iff b.kind _ _⟩

end AssociationBuilder

namespace Library

/-- Editions of books, and prints of these.  The key of prints is declared with too few references.
-/
def misdeclared : Schema where
  tables := [
    ("editions", (TableInfo.ofColumns "editions" ["bookId", "number"]).withPrimaryKey
      ["bookId", "number"]),
    ("prints", ((TableInfo.ofColumns "prints" ["id", "bookId", "number"]).withPrimaryKey
      ["id"]).withForeignKey ["bookId", "number"] "editions" ["bookId"] none)]

def editionOfPrint : AssociationBuilder := ⟨.belongsTo, "edition", "prints", "editions", none⟩

end Library

/-- A print is joined with every edition of its book. -/
theorem AssociationBuilder.declared_key_shortened :
    ∃ a, Library.editionOfPrint.build Library.misdeclared = .ok a ∧
      Library.editionOfPrint.Settles Library.misdeclared ["bookId", "number"] ["bookId"] ∧
      a.mapping = [("bookId", "bookId")] ∧
      ¬DirectKind.belongsTo.PairsAll a.mapping ["bookId", "number"] ["bookId"] := by
  obtain ⟨a, ha⟩ : ∃ a, Library.editionOfPrint.build Library.misdeclared = .ok a := ⟨_, rfl⟩
  have hsettles :
      Library.editionOfPrint.Settles Library.misdeclared ["bookId", "number"] ["bookId"] :=
    .only (k := ⟨none, "prints", ["bookId", "number"], "editions", ["bookId"]⟩) rfl rfl
  obtain ⟨-, -, -, -, -, hpairs⟩ := build_pairs_iff ha
  obtain ⟨hmapping, hall⟩ := hpairs _ _ hsettles
  exact ⟨a, ha, hsettles, hmapping, fun h => absurd (hall.1 h) nofun⟩

end AssociationQuery
