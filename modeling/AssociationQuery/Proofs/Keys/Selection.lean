import AssociationQuery.Association.Keys
import AssociationQuery.Proofs.Keys.Independence

/-!
# AssociationQuery.Proofs.Keys.Selection

Which of the declared keys of a table are reported for another one.

A name stands for the table that is listed under it, and only without such a table for one whose
name differs in case.  Keys are selected by the case-insensitive comparison alone, so that a key to
one of two tables whose names differ in case only is reported for the other one as well.
`Schema.selectsDenoted_iff` says that nothing else goes wrong: keys are selected by the table that
they reference, whatever keys there are, exactly if no other table has the name of the referenced
one in another case.
-/

namespace AssociationQuery

open Text.Casing (sameIgnoringCase sameIgnoringCase_iff sameIgnoringCase_self)

namespace Schema

variable {S : Schema} {t u : TableInfo} {holder referenced name : String}

/-! ## tables that names stand for -/

/-- The table that a name stands for, with the name under which it is listed. -/
def listing? (S : Schema) (name : String) : Option (String × TableInfo) :=
  S.tables.find? (fun p => p.1 == name)
    <|> S.tables.find? fun p => sameIgnoringCase p.2.name name

/-- The table that a name stands for is the one that is listed for it. -/
theorem table?_eq_map_listing? (S : Schema) (name : String) :
    S.table? name = (S.listing? name).map Prod.snd := by
  have hlookup : S.tables.lookup name = (S.tables.find? fun p => p.1 == name).map Prod.snd := by
    induction S.tables with
    | nil => rfl
    | cons p ps ih =>
      rw [List.lookup_cons, List.find?_cons, ih, BEq.comm (a := name)]
      cases p.1 == name <;> rfl
  rw [table?, listing?, hlookup, List.find?_map]
  cases S.tables.find? fun p => p.1 == name <;> rfl

/-- Changed tables are listed under the same names. -/
theorem listing?_mapTables {f : TableInfo → TableInfo} (hf : ∀ t, (f t).name = t.name) (S : Schema)
    (name : String) :
    (S.mapTables f).listing? name = (S.listing? name).map fun p => (p.1, f p.2) := by
  have hnames : (fun p => sameIgnoringCase p.2.name name) ∘
      (fun p : String × TableInfo => (p.1, f p.2)) = fun p => sameIgnoringCase p.2.name name :=
    funext fun p => by rw [Function.comp_apply, hf]
  rw [listing?, listing?, mapTables, List.find?_map, List.find?_map, hnames]
  change (Option.map _ (S.tables.find? fun p => p.1 == name) <|> _) = _
  cases S.tables.find? fun p => p.1 == name <;> rfl

/-- A table that is listed under a name is the one that the name stands for. -/
theorem fst_listing?_of_mem {p : String × TableInfo} (h : p ∈ S.tables) :
    (S.listing? p.1).map Prod.fst = some p.1 := by
  obtain ⟨q, hq⟩ : ∃ q, S.tables.find? (fun q => q.1 == p.1) = some q :=
    Option.isSome_iff_exists.1 (List.find?_isSome.2 ⟨p, h, beq_self_eq_true p.1⟩)
  have hname : q.1 = p.1 := by simpa using List.find?_some hq
  rw [listing?, hq]
  exact congrArg some hname

/-- Both names stand for the table that is listed under one and the same name, or for none. -/
def SameTable (S : Schema) (a b : String) : Prop :=
  (S.listing? a).map Prod.fst = (S.listing? b).map Prod.fst

instance : DecidableRel S.SameTable := fun a b =>
  inferInstanceAs (Decidable ((S.listing? a).map Prod.fst = (S.listing? b).map Prod.fst))

/-- Declaring other keys does not change which names stand for the same table. -/
theorem sameTable_redeclare {keys : List ForeignKey} {a b : String} :
    (S.redeclare t keys).SameTable a b ↔ S.SameTable a b := by
  have hf : ∀ u : TableInfo,
      (if u = t then { t with foreignKeys := keys } else u).name = u.name := by
    intro u
    split <;> simp_all
  rw [SameTable, redeclare, listing?_mapTables hf, listing?_mapTables hf, Option.map_map,
    Option.map_map]
  rfl

/-- Each table is listed under its own name. -/
def ListsOwnNames (S : Schema) : Prop := ∀ p ∈ S.tables, p.1 = p.2.name

namespace ListsOwnNames

variable (hS : S.ListsOwnNames)

include hS

/-- A name differs at most in case from the one under which its table is listed. -/
theorem same_of_listing? {p : String × TableInfo} (h : S.listing? name = some p) :
    p ∈ S.tables ∧ sameIgnoringCase p.1 name := by
  rw [listing?, Option.orElse_eq_orElse, Option.orElse_eq_or, Option.or_eq_some_iff] at h
  rcases h with h | ⟨-, h⟩
  · have hname : p.1 = name := by simpa using List.find?_some h
    exact ⟨List.mem_of_find?_eq_some h, hname ▸ sameIgnoringCase_self p.1⟩
  · have hmem := List.mem_of_find?_eq_some h
    have hsame := List.find?_some h
    exact ⟨hmem, hS p hmem ▸ hsame⟩

/-- A name that differs from that of a table at most in case stands for some table. -/
theorem exists_listing? {p : String × TableInfo} (h : p ∈ S.tables) {name : String}
    (hsame : sameIgnoringCase p.1 name) : ∃ q, S.listing? name = some q := by
  have hfound : (S.tables.find? fun p => sameIgnoringCase p.2.name name).isSome :=
    List.find?_isSome.2 ⟨p, h, hS p h ▸ hsame⟩
  rw [← Option.isSome_iff_exists, listing?, Option.orElse_eq_orElse, Option.orElse_eq_or,
    Option.isSome_or, hfound, Bool.or_true]

/-- Selecting by case alone is right, whatever names keys may give, exactly if no other table has
the name of the referenced one in another case. -/
theorem forall_same_iff {p : String × TableInfo} (hp : S.listing? referenced = some p) :
    (∀ a, sameIgnoringCase a referenced ↔ S.SameTable a referenced) ↔
      ∀ q ∈ S.tables, sameIgnoringCase q.1 p.1 → q.1 = p.1 := by
  obtain ⟨hmem, hsame⟩ := hS.same_of_listing? hp
  rw [sameIgnoringCase_iff] at hsame
  constructor
  · intro h q hq hqp
    have hqr : sameIgnoringCase q.1 referenced := by
      rw [sameIgnoringCase_iff] at hqp ⊢
      exact hqp.trans hsame
    have hsameTable := (h q.1).1 hqr
    rw [SameTable, fst_listing?_of_mem hq, hp] at hsameTable
    exact Option.some.inj hsameTable
  · intro h a
    rw [SameTable, hp, Option.map_some]
    constructor
    · intro ha
      rw [sameIgnoringCase_iff] at ha
      -- a table has the name up to case, and there is only one
      obtain ⟨q, hq⟩ := hS.exists_listing? hmem (sameIgnoringCase_iff.2 (hsame.trans ha.symm))
      obtain ⟨hqmem, hqa⟩ := hS.same_of_listing? hq
      have hqp : sameIgnoringCase q.1 p.1 := by
        rw [sameIgnoringCase_iff] at hqa ⊢
        exact hqa.trans (ha.trans hsame.symm)
      rw [hq, Option.map_some, h q hqmem hqp]
    · intro ha
      obtain ⟨q, hq, hqp⟩ := Option.map_eq_some_iff.1 ha
      have hqa := (hS.same_of_listing? hq).2
      rw [sameIgnoringCase_iff] at hqa ⊢
      exact hqa.symm.trans (hqp ▸ hsame)

end ListsOwnNames

/-! ## selection -/

/-- A key is reported as it is declared, or completed with a primary key. -/
def ReportedAs (primaryKey : List String) (k k' : ForeignKey) : Prop :=
  k' = k ∨ k' = completeKey primaryKey k

/-- A key is reported with the table that it gives. -/
theorem ReportedAs.foreignTable_eq {primaryKey : List String} {k k' : ForeignKey}
    (h : ReportedAs primaryKey k k') : k'.foreignTable = k.foreignTable := by
  rcases h with rfl | rfl
  · rfl
  · rw [completeKey]
    split <;> rfl

/-- All keys are reported, completed or not. -/
theorem reportedAs_report (primaryKey : List String) (keys : List ForeignKey) :
    List.Forall₂ (ReportedAs primaryKey) keys (report primaryKey keys) := by
  rw [report]
  split
  · exact List.forall₂_map_right_iff.2 (List.forall₂_same.2 fun _ _ => .inr rfl)
  · exact List.forall₂_same.2 fun _ _ => .inl rfl

/-- Between two tables those keys are reported, in the order in which they are declared, whose
table is the referenced one. -/
def SelectsDenoted (S : Schema) (holder referenced : String) : Prop :=
  ∃ t u reported, S.table? holder = some t ∧ S.table? referenced = some u ∧
    S.foreignKeys holder referenced = .ok reported ∧
    List.Forall₂ (ReportedAs u.primaryKey)
      (t.foreignKeys.filter fun k => S.SameTable k.foreignTable referenced) reported

/-- Names that two selections tell apart are told apart by what is reported. -/
theorem reportedAs_filter_iff (primaryKey : List String) (keys : List ForeignKey)
    (p q : String → Bool) :
    List.Forall₂ (ReportedAs primaryKey) (keys.filter fun k => p k.foreignTable)
        (report primaryKey (keys.filter fun k => q k.foreignTable)) ↔
      ∀ k ∈ keys, q k.foreignTable ↔ p k.foreignTable := by
  constructor
  · intro h
    have hselected : (keys.filter fun k => p k.foreignTable).map (·.foreignTable) =
        (keys.filter fun k => q k.foreignTable).map (·.foreignTable) := by
      have hnames {ks ks' : List ForeignKey} (h : List.Forall₂ (ReportedAs primaryKey) ks ks') :
          ks'.map (·.foreignTable) = ks.map (·.foreignTable) := by
        induction h with
        | nil => rfl
        | cons hk _ ih => rw [List.map_cons, List.map_cons, ih, hk.foreignTable_eq]
      exact (hnames h).symm.trans (hnames (reportedAs_report primaryKey _))
    -- a selected name is that of some key on the other side, and only names decide
    have hin (r : String → Bool) {k : ForeignKey} (hk : k ∈ keys) :
        r k.foreignTable = true ↔
          k.foreignTable ∈ (keys.filter fun k => r k.foreignTable).map (·.foreignTable) := by
      simp only [List.mem_map, List.mem_filter]
      exact ⟨fun h => ⟨k, ⟨hk, h⟩, rfl⟩, fun ⟨_, ⟨_, h⟩, heq⟩ => heq ▸ h⟩
    intro k hk
    rw [hin q hk, hin p hk, hselected]
  · intro h
    rw [List.filter_congr fun k hk => Bool.eq_iff_iff.2 (h k hk)]
    exact reportedAs_report primaryKey _

/-- Selecting by case is right if each declared key of that name stands for the referenced table,
and no other. -/
theorem selectsDenoted_iff_of_table? (ht : S.table? holder = some t)
    (hu : S.table? referenced = some u) :
    S.SelectsDenoted holder referenced ↔
      ∀ k ∈ t.foreignKeys,
        sameIgnoringCase k.foreignTable referenced ↔ S.SameTable k.foreignTable referenced := by
  have hkey : S.primaryKey referenced = .ok u.primaryKey := by
    rw [primaryKey, require, hu]
    rfl
  have hfilter := reportedAs_filter_iff u.primaryKey t.foreignKeys
    (fun a => decide (S.SameTable a referenced)) (fun a => sameIgnoringCase a referenced)
  simp only [decide_eq_true_iff] at hfilter
  rw [← hfilter]
  constructor
  · rintro ⟨t', u', reported, ht', hu', hreported, hselected⟩
    obtain rfl := Option.some.inj (ht.symm.trans ht')
    obtain rfl := Option.some.inj (hu.symm.trans hu')
    rw [foreignKeys_eq_report ht hkey] at hreported
    obtain rfl := Except.ok.inj hreported
    exact hselected
  · intro hselected
    exact ⟨t, u, _, ht, hu, foreignKeys_eq_report ht hkey, hselected⟩

/-- The keys that are reported between two tables are those whose table is the referenced one,
exactly if each declared key that gives its name up to case stands for it and no other does.  In a
catalogue that lists tables under their own names this is so, whatever keys are declared, exactly
if no other table has the name of the referenced one in another case. -/
theorem selectsDenoted_iff (ht : S.table? holder = some t) (hu : S.table? referenced = some u) :
    (S.SelectsDenoted holder referenced ↔
        ∀ k ∈ t.foreignKeys,
          sameIgnoringCase k.foreignTable referenced ↔ S.SameTable k.foreignTable referenced) ∧
      (S.ListsOwnNames →
        ((∀ keys, (S.redeclare t keys).SelectsDenoted holder referenced) ↔
          ∀ p ∈ S.tables, sameIgnoringCase p.1 u.name → p.1 = u.name)) := by
  refine ⟨selectsDenoted_iff_of_table? ht hu, fun hS => ?_⟩
  obtain ⟨p, hp, rfl⟩ :=
    Option.map_eq_some_iff.1 ((table?_eq_map_listing? S referenced).symm.trans hu)
  rw [← hS p (hS.same_of_listing? hp).1, ← hS.forall_same_iff hp]
  -- declaring other keys for a table changes no name
  have hselects (keys : List ForeignKey) : (S.redeclare t keys).SelectsDenoted holder referenced ↔
      ∀ k ∈ keys,
        sameIgnoringCase k.foreignTable referenced ↔ S.SameTable k.foreignTable referenced := by
    have ht' : (S.redeclare t keys).table? holder = some { t with foreignKeys := keys } := by
      rw [table?_redeclare, ht, Option.map_some, if_pos rfl]
    have hu' := table?_redeclare S t keys referenced
    rw [hu, Option.map_some] at hu'
    rw [selectsDenoted_iff_of_table? ht' hu']
    simp only [sameTable_redeclare]
  simp only [hselects]
  constructor
  · intro h a
    -- a single key to `a` is declared, only to be tested
    exact h [⟨none, t.name, [], a, []⟩] _ List.mem_cons_self
  · intro h keys k _
    exact h k.foreignTable

end Schema

/-- Two tables of authors whose names differ in case only, and books with a key to each. -/
def Library.twofold : Schema where
  tables := [
    ("Authors", (TableInfo.ofColumns "Authors" ["id", "name"]).withPrimaryKey ["id"]),
    ("authors", (TableInfo.ofColumns "authors" ["id", "name"]).withPrimaryKey ["id"]),
    ("books", (((TableInfo.ofColumns "books" ["id", "authorId", "editorId"]).withPrimaryKey
      ["id"]).withForeignKey ["authorId"] "Authors" ["id"] none).withForeignKey
      ["editorId"] "authors" ["id"] none)]

/-- The key to the one table is reported for the other one, so that it is not clear how editors are
joined. -/
theorem Schema.misattributed_beside_variant :
    ¬Library.twofold.SameTable "Authors" "authors" ∧
      Library.twofold.foreignKeys "books" "authors" = .ok [
        ⟨none, "books", ["authorId"], "Authors", ["id"]⟩,
        ⟨none, "books", ["editorId"], "authors", ["id"]⟩] ∧
      AssociationBuilder.build ⟨.belongsTo, "editor", "books", "authors", none⟩ Library.twofold =
        .error (.association (.severalForeignKeys "editor" 2 "books" "authors")) ∧
      ¬Library.twofold.SelectsDenoted "books" "authors" := by
  obtain ⟨t, ht⟩ : ∃ t, Library.twofold.table? "books" = some t := ⟨_, rfl⟩
  obtain ⟨u, hu⟩ : ∃ u, Library.twofold.table? "authors" = some u := ⟨_, rfl⟩
  obtain rfl := Option.some.inj ht
  obtain rfl := Option.some.inj hu
  have hother : ¬Library.twofold.SameTable "Authors" "authors" := by decide +kernel
  refine ⟨hother, by decide +kernel, by rfl, fun h => hother ?_⟩
  exact ((selectsDenoted_iff ht hu).1.1 h ⟨none, "books", ["authorId"], "Authors", ["id"]⟩
    (by decide +kernel)).1 (by decide +kernel)

end AssociationQuery
