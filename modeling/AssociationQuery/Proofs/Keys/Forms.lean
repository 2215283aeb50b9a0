import AssociationQuery.Proofs.Keys.Mappings

/-!
# AssociationQuery.Proofs.Keys.Forms

One foreign key, read in both directions and given in different ways.

Which pairs of columns an association gets is settled between the table that holds the key and the
table that it references; the kind of the association only turns the pairs.  So an association
that leads back has the same pairs, turned, `AssociationBuilder.build_converse`, and it does not
matter how a declared key is pointed out, `AssociationBuilder.build_key_forms`.
-/

namespace AssociationQuery

open Text.Casing (sameIgnoringCase)

/-- The key has the columns if each of its own differs from the given one at most in case. -/
theorem ForeignKey.hasColumns_iff {k : ForeignKey} {columns : List String} :
    k.hasColumns columns ↔ List.Forall₂ (fun a b => sameIgnoringCase a b) k.columns columns := by
  rw [hasColumns, Bool.and_eq_true, beq_iff_eq, List.all_eq_true, List.forall₂_iff_zip]
  exact and_congr_right fun _ => ⟨fun h _ _ hp => h _ hp, fun h p hp => h hp⟩

namespace AssociationBuilder

variable {S : Schema}

/-! ## pairs before they are turned -/

/-- Pairs of referencing and referenced columns that have passed the check. -/
def checkedPairs (S : Schema) (name : String) (key : Option KeyChoice) (holder referenced : Table) :
    Except Error (List (String × String)) := do
  let pairs ← choosePairs S name holder referenced key
  (checkPairs name holder referenced pairs).mapError .association
  return pairs

/-- The kind of an association tells which table holds the key, and which way the pairs go. -/
theorem mapping_eq_map (b : AssociationBuilder) (S : Schema) (origin destination : Table) :
    b.mapping S origin destination =
      (checkedPairs S b.name b.key (roles b.kind origin destination).1
        (roles b.kind origin destination).2).map (orient b.kind) := by
  rw [mapping, checkedPairs]
  obtain ⟨holder, referenced⟩ := roles b.kind origin destination
  simp only [bind, Except.bind]
  cases choosePairs S b.name holder referenced b.key with
  | error => rfl
  | ok pairs =>
    dsimp only
    cases checkPairs b.name holder referenced pairs <;> rfl

/-- Between tables that exist only the mapping can fail. -/
theorem build_of_describe {b : AssociationBuilder} {origin destination : Table}
    (horigin : S.describe b.origin = .ok origin)
    (hdestination : S.describe b.destination = .ok destination) :
    b.build S = (b.mapping S origin destination).map fun mapping =>
      .direct b.kind b.name origin destination mapping [] [] none := by
  rw [build, horigin, hdestination]
  rfl

/-! ## both directions -/

/-- Pairs are turned unless the association belongs to the other table. -/
theorem orient_of_ne {kind : DirectKind} (h : kind ≠ .belongsTo) :
    orient kind = List.map Prod.swap := by
  cases kind with
  | belongsTo => exact absurd rfl h
  | hasOne | hasMany => rfl

/-- The other table holds the key unless the association belongs to it. -/
theorem roles_of_ne {kind : DirectKind} (h : kind ≠ .belongsTo) (origin destination : Table) :
    roles kind origin destination = (destination, origin) := by
  cases kind with
  | belongsTo => exact absurd rfl h
  | hasOne | hasMany => rfl

/-- The mapping that leads back has the same pairs, turned. -/
theorem mapping_converse {kind : DirectKind} (hkind : kind ≠ .belongsTo) (S : Schema)
    (name a b : String) (key : Option KeyChoice) (s t : Table) :
    mapping ⟨kind, name, a, b, key⟩ S s t =
      (mapping ⟨.belongsTo, name, b, a, key⟩ S t s).map (List.map Prod.swap) := by
  rw [mapping_eq_map, mapping_eq_map, roles_of_ne hkind, orient_of_ne hkind]
  -- `t` holds the key, as the origin of the one association and as the destination of the other
  change _ = ((checkedPairs S name key t s).map id).map (List.map Prod.swap)
  cases checkedPairs S name key t s <;> rfl

/-- Let `a` and `b` name tables.  A belongs-to association from `b` to `a` can be built exactly
when one that leads back from `a` to `b` can, with the same errors if not; and then the one has
the pairs of the other, turned. -/
theorem build_converse {a b : String} (ha : (S.table? a).isSome) (hb : (S.table? b).isSome)
    (name : String) (key : Option KeyChoice) {kind : DirectKind} (hkind : kind ≠ .belongsTo) :
    (∀ e, build ⟨.belongsTo, name, b, a, key⟩ S = .error e ↔
        build ⟨kind, name, a, b, key⟩ S = .error e) ∧
      ((∃ u, build ⟨.belongsTo, name, b, a, key⟩ S = .ok u) ↔
        ∃ v, build ⟨kind, name, a, b, key⟩ S = .ok v) ∧
      ∀ u v, build ⟨.belongsTo, name, b, a, key⟩ S = .ok u →
        build ⟨kind, name, a, b, key⟩ S = .ok v →
        v.origin = u.destination ∧ v.destination = u.origin ∧
          v.mapping = u.mapping.map Prod.swap := by
  obtain ⟨infoA, hA⟩ := Option.isSome_iff_exists.1 ha
  obtain ⟨infoB, hB⟩ := Option.isSome_iff_exists.1 hb
  have hs := Schema.describe_eq_ok.2 ⟨infoA, hA, rfl⟩
  have ht := Schema.describe_eq_ok.2 ⟨infoB, hB, rfl⟩
  rw [build_of_describe (b := ⟨.belongsTo, name, b, a, key⟩) ht hs,
    build_of_describe (b := ⟨kind, name, a, b, key⟩) hs ht, mapping_converse hkind]
  -- both directions settle on one mapping, so they fail alike and differ in its direction only
  cases mapping ⟨.belongsTo, name, b, a, key⟩ S _ _ with
  | error e => exact ⟨fun _ => Iff.rfl, ⟨nofun, nofun⟩, nofun⟩
  | ok pairs =>
    refine ⟨fun _ => ⟨nofun, nofun⟩, ⟨fun _ => ⟨_, rfl⟩, fun _ => ⟨_, rfl⟩⟩, ?_⟩
    intro u v hu hv
    obtain rfl := Except.ok.inj hu
    obtain rfl := Except.ok.inj hv
    exact ⟨rfl, rfl, rfl⟩

end AssociationBuilder

/-- Employees, each with a manager who is one of them. -/
def Library.staff : Schema where
  tables := [
    ("employees", ((TableInfo.ofColumns "employees" ["id", "managerId"]).withPrimaryKey
      ["id"]).withForeignKey ["managerId"] "employees" [""] none)]

/-- The manager of an employee, and the employees of a manager. -/
theorem AssociationBuilder.build_converse_staff :
    ∃ u v, build ⟨.belongsTo, "staff", "employees", "Employees", none⟩ Library.staff = .ok u ∧
      build ⟨.hasMany, "staff", "Employees", "employees", none⟩ Library.staff = .ok v ∧
      u.mapping = [("managerId", "id")] ∧ v.mapping = [("id", "managerId")] := by
  have hkind : DirectKind.hasMany ≠ .belongsTo := by decide
  obtain ⟨-, hexists, hturned⟩ := build_converse (S := Library.staff) (a := "Employees")
    (b := "employees") (by decide +kernel) (by decide +kernel) "staff" none hkind
  obtain ⟨u, hu⟩ : ∃ u, build ⟨.belongsTo, "staff", "employees", "Employees", none⟩
      Library.staff = .ok u := exists_of_isOk (by decide +kernel)
  obtain ⟨v, hv⟩ := hexists.1 ⟨u, hu⟩
  have hmapping : (build ⟨.belongsTo, "staff", "employees", "Employees", none⟩
      Library.staff).toOption.map Association.mapping = some [("managerId", "id")] := by
    decide +kernel
  rw [hu] at hmapping
  have hu' : u.mapping = [("managerId", "id")] := Option.some.inj hmapping
  obtain ⟨-, -, hv'⟩ := hturned u v hu hv
  exact ⟨u, v, hu, hv, hu', by rw [hv', hu']; rfl⟩

/-! ## ways to give a key -/

namespace AssociationBuilder

variable {S : Schema} {b : AssociationBuilder}

/-- Two ways to give the key that choose the same pairs build the same. -/
theorem build_congr {key key' : Option KeyChoice}
    (h : ∀ holder referenced : Table, holder.name = b.holder → referenced.name = b.referenced →
      choosePairs S b.name holder referenced key = choosePairs S b.name holder referenced key') :
    { b with key }.build S = { b with key := key' }.build S := by
  cases horigin : S.describe b.origin with
  | error => simp only [build, horigin]; rfl
  | ok origin =>
    cases hdestination : S.describe b.destination with
    | error => simp only [build, horigin, hdestination]; rfl
    | ok destination =>
      obtain ⟨hholder, hreferenced, -⟩ := roles_of_describe horigin hdestination
      rw [build_of_describe (b := { b with key }) horigin hdestination,
        build_of_describe (b := { b with key := key' }) horigin hdestination, mapping_eq_map,
        mapping_eq_map, checkedPairs, checkedPairs, h _ _ hholder hreferenced]

section

variable {declared : List ForeignKey} {k : ForeignKey} {holder referenced : Table} {name : String}

/-- A key that is given in full has its own pairs. -/
theorem choosePairs_pairs (hne : k.columns ≠ [])
    (hlength : k.columns.length = k.foreignColumns.length) :
    choosePairs S name holder referenced (some (.pairs k.columns k.foreignColumns)) =
      .ok k.pairs := by
  simp [choosePairs, hne, hlength, ForeignKey.pairs]

/-- A key that is given by its columns has the pairs of the first that is reported with these. -/
theorem choosePairs_columns {columns : List String}
    (hkeys : S.foreignKeys holder.name referenced.name = .ok declared)
    (hfirst : declared.find? (·.hasColumns columns) = some k) :
    choosePairs S name holder referenced (some (.columns columns)) = .ok k.pairs := by
  simp only [choosePairs, hkeys]
  simp [bind, Except.bind, hfirst]

/-- A key that is not given has the pairs of the only one reported. -/
theorem choosePairs_only (hkeys : S.foreignKeys holder.name referenced.name = .ok [k]) :
    choosePairs S name holder referenced none = .ok k.pairs := by
  simp only [choosePairs, hkeys]
  rfl

end

/-- A key that is reported from the holder to the referenced table, with columns and as many
references as columns, builds one and the same association, or fails with the same error, whether
it is given in full, by its columns in any case if it is the first with these, or not at all if it
is the only one.  The association has the pairs of the key. -/
theorem build_key_forms {declared : List ForeignKey} {k : ForeignKey}
    (hkeys : S.foreignKeys b.holder b.referenced = .ok declared) (hne : k.columns ≠ [])
    (hlength : k.columns.length = k.foreignColumns.length) :
    (∀ before after columns, declared = before ++ k :: after →
        (∀ k' ∈ before, k'.hasColumns columns = false) →
        List.Forall₂ (fun a b => sameIgnoringCase a b) k.columns columns →
        (b.withKey (.columns columns)).build S =
          (b.withKey (.pairs k.columns k.foreignColumns)).build S) ∧
      (declared = [k] → { b with key := none }.build S =
        (b.withKey (.pairs k.columns k.foreignColumns)).build S) ∧
      ∀ a, (b.withKey (.pairs k.columns k.foreignColumns)).build S = .ok a →
        a.mapping = orient b.kind k.pairs := by
  refine ⟨fun before after columns hdeclared hbefore hcolumns => ?_, fun honly => ?_,
    fun a ha => ?_⟩
  · -- the pairs are those of the declared key, so the case of the given columns is lost
    have hfirst : declared.find? (·.hasColumns columns) = some k := by
      rw [hdeclared, List.find?_eq_some_iff_append]
      exact ⟨ForeignKey.hasColumns_iff.2 hcolumns, before, after, rfl, by simpa using hbefore⟩
    refine build_congr fun holder referenced hholder hreferenced => ?_
    rw [choosePairs_pairs hne hlength]
    exact choosePairs_columns (hholder ▸ hreferenced ▸ hkeys) hfirst
  · refine build_congr fun holder referenced hholder hreferenced => ?_
    rw [choosePairs_pairs hne hlength]
    exact choosePairs_only (hholder ▸ hreferenced ▸ honly ▸ hkeys)
  · simp only [build, bind_eq_ok, pure_eq_ok, mapping_eq_map, map_eq_ok] at ha
    obtain ⟨origin, -, destination, -, _, ⟨pairs, hpairs, rfl⟩, rfl⟩ := ha
    simp only [checkedPairs, withKey, bind_eq_ok, pure_eq_ok, choosePairs_pairs hne hlength]
      at hpairs
    obtain ⟨_, hk, _, -, rfl⟩ := hpairs
    exact congrArg (orient b.kind) (Except.ok.inj hk).symm

end AssociationBuilder

namespace Library

/-- Editions of books, and prints of these. -/
def printed : Schema where
  tables := [
    ("editions", (TableInfo.ofColumns "editions" ["bookId", "number"]).withPrimaryKey
      ["bookId", "number"]),
    ("prints", ((TableInfo.ofColumns "prints" ["id", "bookId", "number"]).withPrimaryKey
      ["id"]).withForeignKey ["bookId", "number"] "editions" ["", ""] none)]

def printsOfEdition : AssociationBuilder := ⟨.hasMany, "prints", "editions", "prints", none⟩

end Library

/-- The key of prints, which leaves its references open, is reported with those of the primary
key. -/
theorem AssociationBuilder.build_key_forms_printed :
    ∃ a, Library.printsOfEdition.build Library.printed = .ok a ∧
      (Library.printsOfEdition.withKey (.columns ["BOOKID", "Number"])).build Library.printed =
        .ok a ∧
      (Library.printsOfEdition.withKey (.pairs ["bookId", "number"] ["bookId", "number"])).build
        Library.printed = .ok a ∧
      a.mapping = [("bookId", "bookId"), ("number", "number")] := by
  obtain ⟨a, ha⟩ : ∃ a, Library.printsOfEdition.build Library.printed = .ok a :=
    exists_of_isOk (by decide +kernel)
  have hkeys : Library.printed.foreignKeys Library.printsOfEdition.holder
      Library.printsOfEdition.referenced = .ok
        [⟨none, "prints", ["bookId", "number"], "editions", ["bookId", "number"]⟩] := by
    decide +kernel
  obtain ⟨hcolumns, honly, hmapping⟩ := build_key_forms (b := Library.printsOfEdition)
    (k := ⟨none, "prints", ["bookId", "number"], "editions", ["bookId", "number"]⟩) hkeys nofun rfl
  have hpairs := (honly rfl).symm.trans ha
  have hsame : List.Forall₂ (fun a b => sameIgnoringCase a b) ["bookId", "number"]
      ["BOOKID", "Number"] := by decide +kernel
  exact ⟨a, ha, (hcolumns [] [] _ rfl nofun hsame).trans hpairs, hpairs, hmapping a hpairs⟩

end AssociationQuery
