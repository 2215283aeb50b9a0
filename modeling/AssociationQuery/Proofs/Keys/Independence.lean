import AssociationQuery.Proofs.Result
import AssociationQuery.Schema.Basic

/-!
# AssociationQuery.Proofs.Keys.Independence

Whether the declared keys of a table have a say in each other.

A key that leaves its references open is reported with the primary key of the table that it
references.  The reports on the keys of one table are made in one go, and a key that lists no
references at all only counts as open when one of the others is.  `Schema.independent_iff` says
that a key of that kind, beside an open one, is all that keeps the reports from being made key by
key.
-/

namespace AssociationQuery

open Text.Casing (sameIgnoringCase)

/-- The declared keys that reference the table of the given name. -/
def TableInfo.keysTo (t : TableInfo) (referenced : String) : List ForeignKey :=
  t.foreignKeys.filter fun k => sameIgnoringCase k.foreignTable referenced

namespace Schema

variable {S : Schema} {t u : TableInfo} {holder referenced : String}

/-! ## other keys on a table -/

/-- Every table changed, under the name by which it is listed. -/
def mapTables (f : TableInfo → TableInfo) (S : Schema) : Schema :=
  ⟨S.tables.map fun p => (p.1, f p.2)⟩

/-- Names stand for the same tables, changed. -/
theorem table?_mapTables {f : TableInfo → TableInfo} (hf : ∀ t, (f t).name = t.name) (S : Schema)
    (name : String) : (S.mapTables f).table? name = (S.table? name).map f := by
  have hlookup : (S.mapTables f).tables.lookup name = (S.tables.lookup name).map f := by
    rw [mapTables, List.lookup_eq_findSome?, List.lookup_eq_findSome?, List.findSome?_map,
      List.map_findSome?]
    congr 1
    funext p
    dsimp only [Function.comp_apply]
    split <;> rfl
  have htables : (S.mapTables f).tables.map Prod.snd = (S.tables.map Prod.snd).map f := by
    rw [mapTables, List.map_map, List.map_map]
    rfl
  have hnames :
      (fun t => sameIgnoringCase t.name name) ∘ f = fun t => sameIgnoringCase t.name name :=
    funext fun t => by rw [Function.comp_apply, hf]
  rw [table?, table?, hlookup, htables, List.find?_map, hnames]
  cases S.tables.lookup name <;> rfl

/-- The catalogue in which a table declares the given foreign keys instead of its own. -/
def redeclare (S : Schema) (t : TableInfo) (keys : List ForeignKey) : Schema :=
  S.mapTables fun u => if u = t then { t with foreignKeys := keys } else u

/-- Names stand for the same tables, but for the one that declares other keys. -/
theorem table?_redeclare (S : Schema) (t : TableInfo) (keys : List ForeignKey) (name : String) :
    (S.redeclare t keys).table? name =
      (S.table? name).map fun u => if u = t then { t with foreignKeys := keys } else u :=
  table?_mapTables (fun u => by split <;> simp_all) S name

/-- The keys on a table have nothing to do with the primary keys. -/
theorem primaryKey_redeclare (S : Schema) (t : TableInfo) (keys : List ForeignKey)
    (name : String) : (S.redeclare t keys).primaryKey name = S.primaryKey name := by
  rw [primaryKey, primaryKey, require, require, table?_redeclare]
  cases S.table? name with
  | none => rfl
  | some u =>
    by_cases h : u = t
    · subst h
      simp
    · simp [h]

/-! ## reports -/

/-- What is reported of keys, where the table that they reference has the given primary key. -/
def report (primaryKey : List String) (keys : List ForeignKey) : List ForeignKey :=
  if keys.any fun k => k.foreignColumns.any String.isEmpty then keys.map (completeKey primaryKey)
  else keys

/-- The keys between two tables are those that are reported of the declared ones. -/
theorem foreignKeys_eq_report (ht : S.table? holder = some t) {primaryKey : List String}
    (hkey : S.primaryKey referenced = .ok primaryKey) :
    S.foreignKeys holder referenced = .ok (report primaryKey (t.keysTo referenced)) := by
  have hholder : S.require holder = .ok t := by rw [require, ht]
  rw [foreignKeys, hholder, hkey, report]
  change (if (t.keysTo referenced).any _ then _ else _) = _
  split <;> rfl

/-- The table that declares the given keys instead of its own reports on these. -/
theorem foreignKeys_redeclare (ht : S.table? holder = some t) {primaryKey : List String}
    (hkey : S.primaryKey referenced = .ok primaryKey) (keys : List ForeignKey) :
    (S.redeclare t keys).foreignKeys holder referenced =
      .ok (report primaryKey (keys.filter fun k => sameIgnoringCase k.foreignTable referenced)) := by
  have ht' : (S.redeclare t keys).table? holder = some { t with foreignKeys := keys } := by
    rw [table?_redeclare, ht, Option.map_some, if_pos rfl]
  exact foreignKeys_eq_report ht' ((primaryKey_redeclare S t keys referenced).trans hkey)

/-- Some key is open if it names an empty column. -/
theorem any_open_iff {keys : List ForeignKey} :
    (keys.any fun k => k.foreignColumns.any String.isEmpty) ↔ ∃ k ∈ keys, "" ∈ k.foreignColumns := by
  simp

/-- With an open key every key is completed. -/
theorem report_of_open {keys : List ForeignKey} (h : ∃ k ∈ keys, "" ∈ k.foreignColumns)
    (primaryKey : List String) : report primaryKey keys = keys.map (completeKey primaryKey) :=
  if_pos (any_open_iff.2 h)

/-- With none all stay as they are declared. -/
theorem report_of_closed {keys : List ForeignKey} (h : ∀ k ∈ keys, "" ∉ k.foreignColumns)
    (primaryKey : List String) : report primaryKey keys = keys :=
  if_neg fun hopen => by
    obtain ⟨k, hk, hmem⟩ := any_open_iff.1 hopen
    exact h k hk hmem

/-- A key on its own is completed if it is open. -/
theorem report_singleton (primaryKey : List String) (k : ForeignKey) :
    report primaryKey [k] = [if "" ∈ k.foreignColumns then completeKey primaryKey k else k] := by
  split
  · next hopen => exact report_of_open ⟨k, List.mem_cons_self, hopen⟩ primaryKey
  · next hclosed => exact report_of_closed (List.forall_mem_singleton.2 hclosed) primaryKey

/-- A key that is not open stays as it is among open ones unless it lists no references at all and
has as many columns as the primary key. -/
theorem completeKey_eq_self_iff {primaryKey : List String} {k : ForeignKey}
    (hclosed : "" ∉ k.foreignColumns) :
    completeKey primaryKey k = k ↔
      (k.foreignColumns = [] → k.columns ≠ [] → k.columns.length ≠ primaryKey.length) := by
  -- no column is open, so all of them are only if there is none
  have hall : k.foreignColumns.all String.isEmpty ↔ k.foreignColumns = [] := by
    cases hcolumns : k.foreignColumns with
    | nil => simp
    | cons c cs =>
      have hne : c ≠ "" := fun heq => hclosed (hcolumns ▸ heq ▸ List.mem_cons_self)
      simp [hne]
  simp only [completeKey, Bool.and_eq_true, hall, beq_iff_eq]
  split
  · next h =>
    obtain ⟨hnone, hlength⟩ := h
    have hsame : { k with foreignColumns := primaryKey } = k ↔ primaryKey = [] := by
      rw [← hnone]
      exact ⟨congrArg ForeignKey.foreignColumns, fun heq => by rw [heq]⟩
    rw [hsame, ← List.length_eq_zero_iff, hlength, List.length_eq_zero_iff]
    exact ⟨fun hnil _ hne => absurd hnil hne, fun h => by_contra fun hne => h hnone hne rfl⟩
  · next h => exact iff_of_true rfl fun hnone _ heq => h ⟨hnone, heq.symm⟩

/-- Keys are reported one by one exactly if there is no open one, or none that lists no references
and that the primary key could complete. -/
theorem report_eq_flatMap_iff {primaryKey : List String} {keys : List ForeignKey} :
    report primaryKey keys = keys.flatMap (fun k => report primaryKey [k]) ↔
      ∀ k ∈ keys, "" ∈ k.foreignColumns → ∀ k' ∈ keys, k'.foreignColumns = [] →
        k'.columns ≠ [] → k'.columns.length ≠ primaryKey.length := by
  have hsingle : keys.flatMap (fun k => report primaryKey [k]) =
      keys.map fun k => if "" ∈ k.foreignColumns then completeKey primaryKey k else k := by
    simp only [report_singleton, List.map_eq_flatMap]
  rw [hsingle]
  by_cases hopen : ∃ k ∈ keys, "" ∈ k.foreignColumns
  · rw [report_of_open hopen, List.map_inj_left]
    constructor
    · intro h _ _ _ k hk hnone
      -- a key without references is not open, so alone it stays as it is
      have hclosed : "" ∉ k.foreignColumns := hnone ▸ List.not_mem_nil
      have hself := h k hk
      rw [if_neg hclosed] at hself
      exact (completeKey_eq_self_iff hclosed).1 hself hnone
    · intro h k hk
      obtain ⟨k₀, hk₀, hmem⟩ := hopen
      split
      · rfl
      · next hclosed => exact (completeKey_eq_self_iff hclosed).2 (h k₀ hk₀ hmem k hk)
  · have hclosed : ∀ k ∈ keys, "" ∉ k.foreignColumns := fun k hk hmem => hopen ⟨k, hk, hmem⟩
    rw [report_of_closed hclosed]
    refine iff_of_true ?_ fun k hk hmem => absurd hmem (hclosed k hk)
    exact (List.map_id' keys).symm.trans
      (List.map_congr_left fun k hk => (if_neg (hclosed k hk)).symm)

/-! ## independence -/

/-- What is reported of each key is what would be reported of it if the table declared no other,
also after some of the keys have been taken away. -/
def Independent (S : Schema) (holder referenced : String) (t : TableInfo) : Prop :=
  ∃ alone : ForeignKey → List ForeignKey,
    (∀ k ∈ t.foreignKeys, (S.redeclare t [k]).foreignKeys holder referenced = .ok (alone k)) ∧
      S.foreignKeys holder referenced = .ok (t.foreignKeys.flatMap alone) ∧
      ∀ keys, keys.Sublist t.foreignKeys →
        (S.redeclare t keys).foreignKeys holder referenced = .ok (keys.flatMap alone)

/-- Keys are reported one by one if those among them are that reference the table. -/
theorem report_filter_eq_flatMap {primaryKey : List String} {keys : List ForeignKey}
    (p : ForeignKey → Bool) :
    keys.flatMap (fun k => report primaryKey ([k].filter p)) =
      (keys.filter p).flatMap fun k => report primaryKey [k] := by
  induction keys with
  | nil => rfl
  | cons k keys ih =>
    rw [List.flatMap_cons, ih]
    cases hk : p k with
    | true => simp [hk]
    | false => simp [hk, report]

/-- Between two tables the keys are reported independently of each other exactly if no open key
stands beside one that lists no references at all, though it has as many columns as the primary
key. -/
theorem independent_iff (ht : S.table? holder = some t) (hu : S.table? referenced = some u) :
    S.Independent holder referenced t ↔
      ∀ k ∈ t.keysTo referenced, "" ∈ k.foreignColumns → ∀ k' ∈ t.keysTo referenced,
        k'.foreignColumns = [] → k'.columns ≠ [] → k'.columns.length ≠ u.primaryKey.length := by
  have hkey : S.primaryKey referenced = .ok u.primaryKey := by
    rw [primaryKey, require, hu]
    rfl
  rw [← report_eq_flatMap_iff]
  constructor
  · rintro ⟨alone, halone, hall, -⟩
    have hone : ∀ k ∈ t.foreignKeys, alone k =
        report u.primaryKey ([k].filter fun k => sameIgnoringCase k.foreignTable referenced) := by
      intro k hk
      exact (Except.ok.inj ((foreignKeys_redeclare ht hkey [k]).symm.trans (halone k hk))).symm
    rw [foreignKeys_eq_report ht hkey] at hall
    rw [Except.ok.inj hall, List.flatMap_congr hone, report_filter_eq_flatMap]
    rfl
  · intro h
    refine ⟨fun k => report u.primaryKey
        ([k].filter fun k => sameIgnoringCase k.foreignTable referenced),
      fun k _ => foreignKeys_redeclare ht hkey [k], ?_, fun keys hkeys => ?_⟩
    · rw [foreignKeys_eq_report ht hkey, report_filter_eq_flatMap]
      exact congrArg Except.ok h
    · rw [foreignKeys_redeclare ht hkey, report_filter_eq_flatMap, report_eq_flatMap_iff.2]
      -- what is left of the keys has no such pair either
      intro k hk hopen k' hk'
      have hsub := (hkeys.filter fun k => sameIgnoringCase k.foreignTable referenced).subset
      exact report_eq_flatMap_iff.1 h k (hsub hk) hopen k' (hsub hk')

end Schema

/-- Books with two keys to authors, of which one leaves its reference open and the other lists
none. -/
def Library.edited : Schema where
  tables := [
    ("authors", (TableInfo.ofColumns "authors" ["id", "name"]).withPrimaryKey ["id"]),
    ("books", (((TableInfo.ofColumns "books" ["id", "authorId", "editorId"]).withPrimaryKey
      ["id"]).withForeignKey ["authorId"] "authors" [""] none).withForeignKey
      ["editorId"] "authors" [] none)]

/-- The key for the editor is completed because of the key for the author. -/
theorem Schema.completed_beside_open :
    ∃ t, Library.edited.table? "books" = some t ∧
      (Library.edited.redeclare t [⟨none, "books", ["editorId"], "authors", []⟩]).foreignKeys
        "books" "authors" = .ok [⟨none, "books", ["editorId"], "authors", []⟩] ∧
      Library.edited.foreignKeys "books" "authors" = .ok [
        ⟨none, "books", ["authorId"], "authors", ["id"]⟩,
        ⟨none, "books", ["editorId"], "authors", ["id"]⟩] ∧
      ¬Library.edited.Independent "books" "authors" t := by
  obtain ⟨t, ht⟩ : ∃ t, Library.edited.table? "books" = some t := ⟨_, rfl⟩
  obtain ⟨u, hu⟩ : ∃ u, Library.edited.table? "authors" = some u := ⟨_, rfl⟩
  obtain rfl := Option.some.inj ht
  obtain rfl := Option.some.inj hu
  refine ⟨_, ht, by decide +kernel, by decide +kernel, fun h => ?_⟩
  exact (independent_iff ht hu).1 h ⟨none, "books", ["authorId"], "authors", [""]⟩
    (by decide +kernel) (by decide) ⟨none, "books", ["editorId"], "authors", []⟩
    (by decide +kernel) rfl (by decide) rfl

end AssociationQuery
