import AssociationQuery.Association.Keys
import AssociationQuery.Proofs.Planning.Routes
import Mathlib.Data.List.Nodup

/-!
# AssociationQuery.Proofs.Keys.Associations

The key columns of associations that are built from a catalogue.

A catalogue that knows each table by its own name, and by no other spelling of it, tells for
every pair of key columns that both tables have them.  Along the route of an association the
hops fit together: each pair has a column of the table before and one of the table that the hop
leads to, `Association.Typed.leads`.
-/

namespace AssociationQuery

open Text.Casing (foldAscii sameIgnoringCase sameIgnoringCase_comm sameIgnoringCase_iff
  sameIgnoringCase_self)

/-! ## catalogues -/

namespace Schema

/-- Each table is listed under its own name, is told apart from the others by more than the case
of letters, and has columns. -/
structure WellFormed (S : Schema) : Prop where
  named : ∀ p ∈ S.tables, p.1 = p.2.name
  distinct : (S.tables.map fun p => foldAscii p.2.name).Nodup
  columns : ∀ p ∈ S.tables, p.2.columns ≠ []

/-- The table of that name has the column, up to the case of letters. -/
def HasColumn (S : Schema) (table column : String) : Prop :=
  ∃ columns, S.columns table = .ok columns ∧ ∃ c ∈ columns, sameIgnoringCase c column

/-- The catalogue describes the table just so. -/
def Describes (S : Schema) (t : Table) : Prop := S.describe t.name = .ok t

variable {S : Schema}

/-- The columns of a table are those that the catalogue lists. -/
theorem columns_eq_ok {name : String} {columns : List String} :
    S.columns name = .ok columns ↔
      ∃ t, S.table? name = some t ∧ columns = t.columns.map (·.name) := by
  rw [Schema.columns, require]
  cases S.table? name with
  | none => simp
  | some t => simp [eq_comm]

namespace WellFormed

variable (hS : S.WellFormed)

include hS

/-- No two tables of the catalogue have the same name. -/
theorem eq_of_same {p q : String × TableInfo} (hp : p ∈ S.tables) (hq : q ∈ S.tables)
    (h : sameIgnoringCase p.2.name q.2.name) : p = q :=
  List.inj_on_of_nodup_map hS.distinct hp hq (sameIgnoringCase_iff.1 h)

/-- A name stands for the table whose own name differs from it at most in case. -/
theorem table?_eq_some_iff {name : String} {t : TableInfo} :
    S.table? name = some t ↔ (t.name, t) ∈ S.tables ∧ sameIgnoringCase t.name name := by
  -- whether by its exact name or only up to case, a table is found under its own name
  have hmem {name : String} {t : TableInfo} (h : S.table? name = some t) :
      (t.name, t) ∈ S.tables ∧ sameIgnoringCase t.name name := by
    rw [table?, Option.orElse_eq_orElse, Option.orElse_eq_or, Option.or_eq_some_iff] at h
    rcases h with h | ⟨-, h⟩
    · obtain ⟨before, after, htables, -⟩ := List.lookup_eq_some_iff.1 h
      have hin : (name, t) ∈ S.tables :=
        htables ▸ List.mem_append_right _ List.mem_cons_self
      obtain rfl : name = t.name := hS.named _ hin
      exact ⟨hin, sameIgnoringCase_self _⟩
    · obtain ⟨p, hp, hpt⟩ := List.mem_map.1 (List.mem_of_find?_eq_some h)
      obtain rfl : p = (t.name, t) := Prod.ext (hpt ▸ hS.named p hp) hpt
      have hsame := List.find?_some h
      exact ⟨hp, hsame⟩
  refine ⟨hmem, fun ⟨hin, hsame⟩ => ?_⟩
  cases hfound : S.table? name with
  | none =>
    rw [table?, Option.orElse_eq_orElse, Option.orElse_eq_or, Option.or_eq_none_iff] at hfound
    have hnot := List.find?_eq_none.1 hfound.2 t (List.mem_map_of_mem hin)
    exact absurd hsame hnot
  | some u =>
    obtain ⟨hin', hsame'⟩ := hmem hfound
    -- two listed names that agree up to case are one
    have hboth : sameIgnoringCase u.name t.name := by
      rw [sameIgnoringCase_iff] at hsame hsame' ⊢
      exact hsame'.trans hsame.symm
    exact congrArg some (congrArg Prod.snd (hS.eq_of_same hin' hin hboth))

/-- A table is found whatever the case of the name is. -/
theorem table?_congr {a b : String} (h : sameIgnoringCase a b) :
    S.table? a = S.table? b := by
  rw [sameIgnoringCase_iff] at h
  ext t
  rw [hS.table?_eq_some_iff, hS.table?_eq_some_iff, sameIgnoringCase_iff,
    sameIgnoringCase_iff, h]

/-- Names that differ in case only stand for tables with the same columns. -/
theorem hasColumn_congr {a b column : String} (h : sameIgnoringCase a b)
    (ha : S.HasColumn a column) : S.HasColumn b column := by
  obtain ⟨columns, hcolumns, hc⟩ := ha
  rw [columns_eq_ok, hS.table?_congr h, ← columns_eq_ok] at hcolumns
  exact ⟨columns, hcolumns, hc⟩

end WellFormed

/-- A described table has the given name, and the columns and the key that the catalogue lists. -/
theorem describe_eq_ok {name : String} {t : Table} :
    S.describe name = .ok t ↔
      ∃ info, S.table? name = some info ∧ t = ⟨name, info.columns.map (·.name), info.primaryKey⟩ := by
  rw [describe, Schema.columns, primaryKey, require]
  cases S.table? name with
  | none => simp
  | some info =>
    constructor
    · intro h
      exact ⟨info, rfl, (Except.ok.inj h).symm⟩
    · rintro ⟨_, ⟨⟩, rfl⟩
      rfl

/-- What is described is described just so. -/
theorem describes_of_describe {name : String} {t : Table} (h : S.describe name = .ok t) :
    S.Describes t := by
  obtain ⟨info, -, rfl⟩ := describe_eq_ok.1 h
  exact h

namespace Describes

variable {t : Table} {column : String}

/-- A described table has its columns in the catalogue. -/
theorem columns_eq (h : S.Describes t) : S.columns t.name = .ok t.columns := by
  obtain ⟨info, hinfo, ht⟩ := describe_eq_ok.1 h
  exact columns_eq_ok.2 ⟨info, hinfo, congrArg Table.columns ht⟩

/-- A described table has columns. -/
theorem columns_ne_nil (h : S.Describes t) (hS : S.WellFormed) : t.columns ≠ [] := by
  obtain ⟨info, hinfo, ht⟩ := describe_eq_ok.1 h
  have hin := (hS.table?_eq_some_iff.1 hinfo).1
  rw [ht]
  simpa using hS.columns _ hin

end Describes

end Schema


/-! ## columns of tables -/

/-- A column is found in a table whatever its case is. -/
theorem Table.isSome_columnIndex? {t : Table} {column : String} :
    (t.columnIndex? column).isSome ↔ ∃ c ∈ t.columns, sameIgnoringCase c column := by
  rw [columnIndex?, Option.orElse_eq_orElse, Option.orElse_eq_or, Option.isSome_or, Bool.or_eq_true,
    List.findIdx?_isSome, List.findIdx?_isSome, List.any_eq_true, List.any_eq_true]
  refine or_iff_right_of_imp ?_
  rintro ⟨c, hc, heq⟩
  exact ⟨c, hc, beq_iff_eq.1 heq ▸ sameIgnoringCase_self c⟩

namespace Schema.Describes

variable {S : Schema} {t : Table} {column : String}

/-- A described table has the columns that the catalogue lists for it. -/
theorem isSome_columnIndex? (h : S.Describes t) :
    (t.columnIndex? column).isSome ↔ S.HasColumn t.name column := by
  rw [Table.isSome_columnIndex?, HasColumn, h.columns_eq]
  simp

/-- A column that a described table does not lack is one of the catalogue. -/
theorem hasColumn_of_lacks (h : S.Describes t) (hS : S.WellFormed)
    (hlacks : AssociationBuilder.lacks t column = false) : S.HasColumn t.name column := by
  rw [← h.isSome_columnIndex?]
  simpa [AssociationBuilder.lacks, h.columns_ne_nil hS] using hlacks

end Schema.Describes

/-! ## associations -/

namespace Association

/-- The pairs of key columns are columns of the two tables, as the catalogue describes them, and
a target starts where its pivot ends. -/
def Typed (S : Schema) : Association → Prop
  | direct _ _ origin destination mapping _ _ _ =>
    S.Describes origin ∧ S.Describes destination ∧
      ∀ p ∈ mapping, S.HasColumn origin.name p.1 ∧ S.HasColumn destination.name p.2
  | through _ pivot target _ _ _ =>
    pivot.Typed S ∧ target.Typed S ∧ sameIgnoringCase pivot.destination.name target.origin.name

/-- The association is built from the catalogue, refined or not: a direct one, or one through
others that are. -/
inductive BuiltFrom (S : Schema) : Association → Prop
  | direct {b : AssociationBuilder} {a : Association} (h : b.build S = .ok a) : BuiltFrom S a
  | oneThrough {name : String} {pivot target a : Association} (pivot_built : BuiltFrom S pivot)
      (target_built : BuiltFrom S target) (h : hasOneThrough name pivot target = .ok a) :
      BuiltFrom S a
  | manyThrough {name : String} {pivot target a : Association} (pivot_built : BuiltFrom S pivot)
      (target_built : BuiltFrom S target) (h : hasManyThrough name pivot target = .ok a) :
      BuiltFrom S a
  | terms {a : Association} (built : BuiltFrom S a) (fs : List Expr) (os : List OrderTerm) :
      BuiltFrom S (a.withTerms fs os)
  | named {a : Association} (built : BuiltFrom S a) (name : String) : BuiltFrom S (a.named name)
  | optionality {a : Association} (built : BuiltFrom S a) (r : Requirement) :
      BuiltFrom S (a.withOptionality r)

variable {S : Schema}

@[simp] theorem typed_withTerms (fs : List Expr) (os : List OrderTerm) (a : Association) :
    (a.withTerms fs os).Typed S ↔ a.Typed S := by
  cases a <;> rfl

@[simp] theorem typed_named (name : String) (a : Association) :
    (a.named name).Typed S ↔ a.Typed S := by
  cases a <;> rfl

@[simp] theorem typed_withOptionality (r : Requirement) (a : Association) :
    (a.withOptionality r).Typed S ↔ a.Typed S := by
  cases a <;> rfl

/-- An association through typed ones is typed. -/
theorem typed_joined {name : String} {pivot target a : Association}
    (h : joined name pivot target = .ok a) (hpivot : pivot.Typed S) (htarget : target.Typed S) :
    a.Typed S := by
  rw [joined] at h
  split at h
  · next hsame =>
    obtain rfl := Except.ok.inj h
    exact ⟨hpivot, htarget, hsame⟩
  · cases h

/-- The table that a typed association leads to is described. -/
theorem Typed.describes_destination : {a : Association} → a.Typed S → S.Describes a.destination
  | direct .., h => h.2.1
  | through .., h => h.2.1.describes_destination

end Association

namespace AssociationBuilder

variable {S : Schema}

/-- Pairs that pass the check name columns that their tables do not lack. -/
theorem forall_not_lacks {name : String} {holder referenced : Table}
    {pairs : List (String × String)} (h : checkPairs name holder referenced pairs = .ok ()) :
    ∀ p ∈ pairs, lacks holder p.1 = false ∧ lacks referenced p.2 = false := by
  rw [checkPairs] at h
  split at h
  · cases h
  · split at h
    · cases h
    · next hnone =>
      rw [missingColumn?, List.find?_eq_none, List.forall_mem_append, List.forall_mem_map,
        List.forall_mem_map] at hnone
      exact fun p hp => ⟨by simpa using hnone.1 p hp, by simpa using hnone.2 p hp⟩

/-- Builders give typed associations. -/
theorem typed_build (hS : S.WellFormed) {b : AssociationBuilder} {a : Association}
    (h : b.build S = .ok a) : a.Typed S := by
  simp only [build, mapping, bind_eq_ok, pure_eq_ok, mapError_eq_ok] at h
  obtain ⟨origin, horigin, destination, hdestination, _, ⟨pairs, -, _, hpairs, rfl⟩, rfl⟩ := h
  have ho := Schema.describes_of_describe horigin
  have hd := Schema.describes_of_describe hdestination
  have hlacks := forall_not_lacks hpairs
  refine ⟨ho, hd, fun p hp => ?_⟩
  cases hkind : b.kind with
  | belongsTo =>
    rw [hkind] at hlacks hp
    exact ⟨ho.hasColumn_of_lacks hS (hlacks p hp).1, hd.hasColumn_of_lacks hS (hlacks p hp).2⟩
  | hasOne | hasMany =>
    -- the destination holds the key, so the pairs have been turned
    rw [hkind] at hlacks hp
    obtain ⟨q, hq, rfl⟩ := List.mem_map.1 hp
    exact ⟨ho.hasColumn_of_lacks hS (hlacks q hq).2, hd.hasColumn_of_lacks hS (hlacks q hq).1⟩

end AssociationBuilder

namespace Association

variable {S : Schema}

/-- Associations that are built from a well-formed catalogue are typed. -/
theorem BuiltFrom.typed (hS : S.WellFormed) {a : Association} (h : a.BuiltFrom S) :
    a.Typed S := by
  induction h with
  | direct h => exact AssociationBuilder.typed_build hS h
  | oneThrough _ _ h hpivot htarget =>
    rw [hasOneThrough] at h
    split at h
    · cases h
    · exact typed_joined h hpivot htarget
  | manyThrough _ _ h hpivot htarget =>
    rw [hasManyThrough] at h
    split at h
    · exact typed_joined h hpivot htarget
    · cases h
  | terms _ fs os ih => exact (typed_withTerms fs os _).2 ih
  | named _ name ih => exact (typed_named name _).2 ih
  | optionality _ r ih => exact (typed_withOptionality r _).2 ih

end Association

/-! ## routes -/

/-- The hops lead from one table to another, each with pairs of columns of the table before and
of the table that it leads to. -/
inductive Hop.Lead (S : Schema) : String → List Hop → String → Prop
  | nil {a b : String} (h : sameIgnoringCase a b) : Lead S a [] b
  | cons {a b : String} {h : Hop} {hs : List Hop}
      (keys : ∀ p ∈ h.mapping, S.HasColumn a p.1 ∧ S.HasColumn h.destination.name p.2)
      (rest : Lead S h.destination.name hs b) : Lead S a (h :: hs) b

namespace Hop.Lead

variable {S : Schema} {a b c : String} {hs gs : List Hop}

/-- The case of the first name does not matter. -/
theorem congr (hS : S.WellFormed) (hsame : sameIgnoringCase a c) (h : Lead S a hs b) :
    Lead S c hs b := by
  cases h with
  | nil hab =>
    rw [sameIgnoringCase_iff] at hsame hab
    exact .nil (sameIgnoringCase_iff.2 (hsame.symm.trans hab))
  | cons keys rest =>
    exact .cons (fun p hp => ⟨hS.hasColumn_congr hsame (keys p hp).1, (keys p hp).2⟩) rest

/-- Hops that lead on may follow. -/
theorem append (hS : S.WellFormed) (h : Lead S a hs b) (h' : Lead S b gs c) :
    Lead S a (hs ++ gs) c := by
  induction h with
  | nil hab =>
    refine h'.congr hS ?_
    rwa [sameIgnoringCase_comm]
  | cons keys _ ih => exact .cons keys (ih h')

/-- Behind each hop the others go on from its table. -/
theorem split {h : Hop} (hall : Lead S a (hs ++ h :: gs) b) :
    Lead S a (hs ++ [h]) h.destination.name ∧ Lead S h.destination.name gs b := by
  induction hs generalizing a with
  | nil =>
    cases hall with
    | cons keys rest => exact ⟨.cons keys (.nil (sameIgnoringCase_self _)), rest⟩
  | cons g hs ih =>
    cases hall with
    | cons keys rest => exact ⟨.cons keys (ih rest).1, (ih rest).2⟩

/-- Only the associations of the hops count, not the filters. -/
theorem of_associations (h : Lead S a hs b)
    (heq : gs.map Hop.association = hs.map Hop.association) : Lead S a gs b := by
  induction h generalizing gs with
  | nil hab =>
    obtain rfl : gs = [] := by simpa using heq
    exact .nil hab
  | @cons a b h hs keys _ ih =>
    cases gs with
    | nil => cases heq
    | cons g gs =>
      obtain ⟨hg, hgs⟩ := List.cons.inj heq
      have hdestination : g.destination = h.destination := congrArg Association.destination hg
      have hmapping : g.mapping = h.mapping := congrArg Association.mapping hg
      refine .cons ?_ ?_
      · rwa [hmapping, hdestination]
      · rw [hdestination]
        exact ih hgs

end Hop.Lead

/-- The route of a typed association leads from its origin to its destination. -/
theorem Association.Typed.leads {S : Schema} (hS : S.WellFormed) {requirement : Requirement} :
    {a : Association} → a.Typed S → {r : Route} → a.routeFor requirement = .ok r →
    Hop.Lead S a.origin.name r.hops a.destination.name
  | direct .., h, r, hr => by
    simp only [routeFor, Except.ok.injEq] at hr
    subst hr
    exact .cons h.2.2 (.nil (sameIgnoringCase_self _))
  | through name pivot target filters order _, h, r, hr => by
    simp only [routeFor, bind_eq_ok, pure_eq_ok] at hr
    obtain ⟨_, -, pivotRoute, hpivot, targetRoute, htarget, rfl⟩ := hr
    obtain ⟨hp, ht, hsame⟩ := h
    have hnext : Hop.Lead S pivot.destination.name targetRoute.hops target.destination.name :=
      (ht.leads hS htarget).congr hS (sameIgnoringCase_comm .. ▸ hsame)
    have hall := (hp.leads hS hpivot).append hS hnext
    rw [← Route.hops_append] at hall
    exact hall.of_associations (Route.associations_refine _ filters order)

end AssociationQuery
