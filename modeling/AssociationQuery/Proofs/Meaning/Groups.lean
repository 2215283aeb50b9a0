import AssociationQuery.Association.Keys
import AssociationQuery.Proofs.Meaning.Handles
import AssociationQuery.Proofs.Planning.Terms
import Mathlib.Algebra.BigOperators.Group.Multiset.Basic
import Mathlib.Algebra.Field.Rat
import Mathlib.Algebra.Order.Group.Finset
import Mathlib.Algebra.Order.Ring.Rat
import Mathlib.Data.Finset.Max

/-!
# AssociationQuery.Proofs.Meaning.Groups

What aggregates compute, and over which rows.

A statement with aggregates groups its combinations by the columns that tell base rows apart;
an aggregate is computed over the values, without NULL, of a column in one group.  The bag that
it is meant for are the values in the rows that the hops of an association reach from the base
row, `Hop.reached`.  Left joins along the hops give each combination exactly these values:
`Join.Along.bag_extendAllIn`.
-/

namespace AssociationQuery

/-! ## aggregates of bags -/

/-- What a database computes with values. -/
structure Arithmetic where
  /-- The number that a value is in a sum. -/
  number : Value → ℚ
  /-- The place of a value in the order of values; equal values have one place. -/
  rank : Value → ℚ

namespace AggregateFunction

/-- The value of an aggregate over a bag of values that are not NULL; NULL is `none`. -/
def value (ar : Arithmetic) (bag : Multiset Value) : AggregateFunction → Option ℚ
  | count => some (bag.map ar.rank).toFinset.card
  | isEmpty => some (if (bag.map ar.rank).toFinset.card = 0 then 1 else 0)
  | sum => if bag = 0 then none else some (bag.map ar.number).sum
  | average => if bag = 0 then none else some ((bag.map ar.number).sum / bag.card)
  | min =>
    if h : (bag.map ar.rank).toFinset.Nonempty then some ((bag.map ar.rank).toFinset.min' h)
    else none
  | max =>
    if h : (bag.map ar.rank).toFinset.Nonempty then some ((bag.map ar.rank).toFinset.max' h)
    else none

variable {ar : Arithmetic} {bag : Multiset Value} {n : ℕ}

theorem nsmul_eq_zero (hn : 0 < n) : n • bag = 0 ↔ bag = 0 := by
  rw [← Multiset.card_eq_zero, Multiset.card_nsmul, Nat.mul_eq_zero, Multiset.card_eq_zero]
  exact or_iff_right (Nat.ne_of_gt hn)

/-- Counting each row several times changes no aggregate but the sum. -/
theorem value_nsmul {f : AggregateFunction} (hf : f ≠ .sum) (hn : 0 < n) :
    f.value ar (n • bag) = f.value ar bag := by
  have hranks : ((n • bag).map ar.rank).toFinset = (bag.map ar.rank).toFinset := by
    rw [Multiset.map_nsmul, Multiset.toFinset_nsmul _ _ (Nat.ne_of_gt hn)]
  cases f with
  | sum => exact absurd rfl hf
  | average =>
    have hcast : (n : ℚ) ≠ 0 := Nat.cast_ne_zero.2 (Nat.ne_of_gt hn)
    simp only [value, nsmul_eq_zero hn, Multiset.map_nsmul, Multiset.sum_nsmul,
      Multiset.card_nsmul, nsmul_eq_mul, Nat.cast_mul, mul_div_mul_left _ _ hcast]
  | count | isEmpty | min | max => simp only [value, hranks]

/-- Counting each row several times multiplies the sum. -/
theorem sum_nsmul (hn : 0 < n) :
    sum.value ar (n • bag) = (sum.value ar bag).map fun x : ℚ => n * x := by
  simp only [value, nsmul_eq_zero hn, Multiset.map_nsmul, Multiset.sum_nsmul, nsmul_eq_mul]
  split <;> rfl

theorem sum_nsmul_eq_iff (hn : 0 < n) :
    sum.value ar (n • bag) = sum.value ar bag ↔
      n = 1 ∨ ∀ x ∈ sum.value ar bag, x = 0 := by
  rw [sum_nsmul hn]
  cases sum.value ar bag with
  | none => simp
  | some x =>
    have hcast : (n : ℚ) = 1 ↔ n = 1 := Nat.cast_eq_one
    simp only [Option.map_some, Option.some.injEq, Option.mem_some_iff, forall_eq', ← hcast]
    constructor
    · intro h
      by_cases hx : x = 0
      · exact .inr hx
      · exact .inl (mul_right_cancel₀ hx (h.trans (one_mul x).symm))
    · intro h
      rcases h with h | h
      · rw [h, one_mul]
      · rw [h, mul_zero]

end AggregateFunction

/-! ## bags of values -/

namespace TableRow

/-- The values of a column in several rows, without NULL. -/
def bag (column : String) (rows : List TableRow) : Multiset Value :=
  ((rows.map fun r => r.value column).filter fun v => !v.isNull : List Value)

variable {column : String}

theorem bag_append (rows rows' : List TableRow) :
    bag column (rows ++ rows') = bag column rows + bag column rows' := by
  simp [bag]

theorem bag_flatMap_congr {xs : List α} {f g : α → List TableRow}
    (h : ∀ x ∈ xs, bag column (f x) = bag column (g x)) :
    bag column (xs.flatMap f) = bag column (xs.flatMap g) := by
  induction xs with
  | nil => rfl
  | cons x xs ih =>
    obtain ⟨hx, hxs⟩ := List.forall_mem_cons.1 h
    rw [List.flatMap_cons, List.flatMap_cons, bag_append, bag_append, hx, ih hxs]

theorem value_absent (t : Table) (column : String) : (absent t).value column = .null := by
  simp only [value, absent]
  cases t.columnIndex? column with
  | none => rfl
  | some i => simp [List.getElem?_replicate]; split <;> rfl

theorem bag_absent (t : Table) : bag column [absent t] = 0 := by
  simp [bag, value_absent, Value.isNull]

end TableRow

/-! ## key columns -/

namespace Association

/-- Do the direct associations that the association is made of have key columns? -/
def isKeyed : Association → Bool
  | direct _ _ _ _ mapping _ _ _ => !mapping.isEmpty
  | through _ pivot target _ _ _ => pivot.isKeyed && target.isKeyed

theorem mapping_ne_nil_of_isKeyed {requirement : Requirement} : (a : Association) → a.isKeyed →
    {r : Route} → a.routeFor requirement = .ok r → ∀ h ∈ r.hops, h.mapping ≠ []
  | direct .., ha, r, hr => by
    simp only [routeFor, Except.ok.injEq] at hr
    subst hr
    exact List.forall_mem_singleton.2 (by simpa [isKeyed, Hop.mapping, mapping] using ha)
  | through name pivot target filters order optionality, ha, r, hr => by
    simp only [routeFor, bind_eq_ok, pure_eq_ok] at hr
    obtain ⟨_, -, pivotRoute, hpivot, targetRoute, htarget, rfl⟩ := hr
    rw [isKeyed, Bool.and_eq_true] at ha
    have hkeyed : ∀ b ∈ (pivotRoute.append targetRoute).hops.map Hop.association,
        b.mapping ≠ [] := by
      rw [Route.hops_append, List.forall_mem_map]
      exact List.forall_mem_append.2 ⟨mapping_ne_nil_of_isKeyed pivot ha.1 hpivot,
        mapping_ne_nil_of_isKeyed target ha.2 htarget⟩
    rw [← Route.associations_refine _ filters order, List.forall_mem_map] at hkeyed
    exact hkeyed

end Association

/-! ## rows that an association reaches -/

namespace Hop

/-- The rows that a hop leads to from a row: those with its keys that meet its filters. -/
def targets (db : LinkedDatabase) (handles : TableAlias → Option TableRow) (h : Hop)
    (r : TableRow) : List TableRow :=
  ((db.rows h.destination.name).map (TableRow.mk h.destination)).filter fun t =>
    (∀ p ∈ h.mapping, db.sameKey (t.value p.2) (r.value p.1) = some true) ∧
      ∀ e ∈ h.filters, db.tells e handles t = some true

/-- The rows that hops lead to from a row, one after the other. -/
def reached (db : LinkedDatabase) (handles : TableAlias → Option TableRow) :
    List Hop → TableRow → List TableRow
  | [], r => [r]
  | h :: hs, r => (h.targets db handles r).flatMap (reached db handles hs)

/-- Handles that no filter reads make no difference. -/
theorem reached_congr {db : LinkedDatabase} {handles handles' : TableAlias → Option TableRow}
    {hs : List Hop}
    (h : ∀ g ∈ hs, ∀ e ∈ g.filters, ∀ a ∈ e.handles, handles a = handles' a) (r : TableRow) :
    reached db handles hs r = reached db handles' hs r := by
  induction hs generalizing r with
  | nil => rfl
  | cons g hs ih =>
    obtain ⟨hg, hhs⟩ := List.forall_mem_cons.1 h
    have htargets : g.targets db handles r = g.targets db handles' r := by
      refine List.filter_congr fun t _ => ?_
      have htells : (∀ e ∈ g.filters, db.tells e handles t = some true) ↔
          ∀ e ∈ g.filters, db.tells e handles' t = some true :=
        forall₂_congr fun e he => by rw [db.tells_congr t (hg e he)]
      simp only [htells]
    rw [reached, reached, htargets]
    exact List.flatMap_congr fun t _ => ih hhs t

/-- From a row that is missing no hop leads anywhere. -/
theorem reached_absent {db : LinkedDatabase} {handles : TableAlias → Option TableRow} {h : Hop}
    {hs : List Hop} (hkeyed : h.mapping ≠ []) (t : Table) :
    reached db handles (h :: hs) (.absent t) = [] := by
  suffices hnone : h.targets db handles (.absent t) = [] by rw [reached, hnone, List.flatMap_nil]
  obtain ⟨p, hp⟩ := List.exists_mem_of_ne_nil _ hkeyed
  refine List.filter_eq_nil_iff.2 fun r _ hr => ?_
  have hkey := (of_decide_eq_true hr).1 p hp
  rw [TableRow.value_absent, db.sameKey_comm] at hkey
  exact db.sameKey_null _ hkey

end Hop

/-! ## left joins along hops -/

theorem AliasMap.row?_update {m : AliasMap} {a : TableAlias} {slot : Slot}
    (h : m.slotOf? a ≠ some slot) (env : Assignment) (r : TableRow) :
    m.row? (Function.update env slot r) a = m.row? env a := by
  refine row?_congr fun other hslot => ?_
  have hne : other ≠ slot := fun heq => h (hslot.trans (congrArg some heq))
  exact Function.update_of_ne hne ..

/-- In the combination the handles of the filters stand for the given rows, none of them in the
given tables. -/
def Hop.Reads (m : AliasMap) (slots : List Slot) (env : Assignment)
    (handles : TableAlias → Option TableRow) (h : Hop) : Prop :=
  ∀ e ∈ h.filters, e.Avoids m slots ∧ ∀ a ∈ e.handles, m.row? env a = handles a

theorem Hop.Reads.update {m : AliasMap} {slots : List Slot} {env : Assignment}
    {handles : TableAlias → Option TableRow} {h : Hop} (hreads : h.Reads m slots env handles)
    {slot : Slot} (hslot : slot ∈ slots) (r : TableRow) :
    h.Reads m slots (Function.update env slot r) handles := by
  intro e he
  obtain ⟨havoids, hrows⟩ := hreads e he
  refine ⟨havoids, fun a ha => ?_⟩
  rw [AliasMap.row?_update (havoids a ha slot hslot), hrows a ha]

theorem Hop.Reads.mono {m : AliasMap} {slots slots' : List Slot} {env : Assignment}
    {handles : TableAlias → Option TableRow} {h : Hop} (hreads : h.Reads m slots env handles)
    (hslots : slots' ⊆ slots) : h.Reads m slots' env handles :=
  fun e he => ⟨fun a ha slot hslot => (hreads e he).1 a ha slot (hslots hslot), (hreads e he).2⟩

namespace Join

variable {db : LinkedDatabase} {m : AliasMap} {handles : TableAlias → Option TableRow}

/-- A left join along a hop gives a combination for each row that the hop leads to. -/
theorem extendIn_of_hop (h : Hop) {slot previous : Slot} (hprevious : previous ≠ slot)
    {env : Assignment} (hreads : h.Reads m [slot] env handles) :
    (mk .left slot h.destination
        (h.keys slot previous :: conditionsOn slot h.filters)).extendIn db m env =
      JoinKind.left.completed (Function.update env slot (.absent h.destination))
        ((h.targets db handles (env previous)).map (Function.update env slot)) := by
  -- the handles in a filter of the hop name other slots than the one being filled
  have htells (t : TableRow) : ∀ e ∈ h.filters,
      db.tells e (m.row? (Function.update env slot t)) t = db.tells e handles t := by
    intro e he
    refine db.tells_congr t fun a ha => ?_
    exact (hreads.update (List.mem_singleton_self slot) t e he).2 a ha
  have hmatch (t : TableRow) :
      Truth.conj (Condition.truthAllIn db m (h.keys slot previous :: conditionsOn slot h.filters)
        (Function.update env slot t)) = some true ↔
      (∀ p ∈ h.mapping, db.sameKey (t.value p.2) ((env previous).value p.1) = some true) ∧
        ∀ e ∈ h.filters, db.tells e handles t = some true := by
    rw [conj_truthAllIn, List.forall_mem_cons]
    refine and_congr ?_ ?_
    · rw [Hop.keys, Condition.truthIn, keysMatch_eq_true, Function.update_self,
        Function.update_of_ne hprevious, List.forall_mem_map]
      rfl
    · rw [conditionsOn, List.forall_mem_map]
      refine forall₂_congr fun e he => ?_
      rw [Condition.truthIn, Function.update_self, htells t e he]
  have hfound : (db.rows h.destination.name).map
        (fun row => Function.update env slot ⟨h.destination, row⟩) =
      ((db.rows h.destination.name).map (TableRow.mk h.destination)).map
        (Function.update env slot) := by
    rw [List.map_map]
    rfl
  rw [extendIn, hfound, List.filter_map, Hop.targets]
  simp only [Function.comp_def, hmatch]

theorem eq_mk {j : Join} {kind : JoinKind} {table : Table} {on : List Condition}
    (hkind : j.kind = kind) (htable : j.table = table) (hon : j.on = on) :
    j = mk kind j.slot table on := by
  subst hkind htable hon
  cases j
  rfl

/-- What is read behind a left join is what is read behind the rows that match, if nothing is
read behind a missing row. -/
theorem bag_completed {column : String} {slot : Slot} {table : Table} {ts : List TableRow}
    {env : Assignment} {f : Assignment → List TableRow} {g : TableRow → List TableRow}
    (hnone : TableRow.bag column (f (Function.update env slot (.absent table))) = 0)
    (hts : ∀ t ∈ ts, TableRow.bag column (f (Function.update env slot t)) =
      TableRow.bag column (g t)) :
    TableRow.bag column ((JoinKind.left.completed (Function.update env slot (.absent table))
        (ts.map (Function.update env slot))).flatMap f) =
      TableRow.bag column (ts.flatMap g) := by
  cases ts with
  | nil =>
    rw [List.map_nil, JoinKind.completed, if_pos rfl, List.flatMap_singleton, hnone]
    rfl
  | cons t ts =>
    rw [List.map_cons, JoinKind.completed, ← List.map_cons, List.flatMap_map]
    exact TableRow.bag_flatMap_congr hts

/-- Left joins along hops give the values of the rows that the hops reach, and NULL besides. -/
theorem Along.bag_extendAllIn {previous : Slot} {hs : List Hop} {js : List Join}
    (h : Along [] [] previous hs js) (hkind : ∀ j ∈ js, j.kind = .left)
    (hslots : (previous :: js.map slot).Nodup) (hkeyed : ∀ g ∈ hs, g.mapping ≠ [])
    {env : Assignment} (hreads : ∀ g ∈ hs, g.Reads m (js.map slot) env handles)
    (column : String) :
    TableRow.bag column ((extendAllIn db m js env).map fun e => e (lastSlot previous js)) =
      TableRow.bag column (Hop.reached db handles hs (env previous)) := by
  -- along the hops, from any row: behind a missing row every later join finds a missing row
  induction h generalizing env with
  | @last previous h j htable hon =>
    simp only [List.map_cons, List.map_nil, List.nodup_cons, List.mem_singleton] at hslots
    have hon : j.on = h.keys j.slot previous :: conditionsOn j.slot h.filters := by
      simpa [Hop.keys, conditionsOn] using hon
    rw [eq_mk (hkind j List.mem_cons_self) htable hon, extendAllIn,
      extendIn_of_hop h hslots.1 (hreads h List.mem_cons_self), Hop.reached, List.map_flatMap]
    refine bag_completed ?_ fun t ht => ?_
    · simp [extendAllIn, lastSlot, slot, TableRow.bag_absent]
    · simp [extendAllIn, lastSlot, slot, Hop.reached]
  | @next previous h hs j js htable hon later ih =>
    simp only [List.map_cons, List.nodup_cons, List.mem_cons, not_or] at hslots
    obtain ⟨hfirst, hreads⟩ := List.forall_mem_cons.1 hreads
    obtain ⟨hj, hkind⟩ := List.forall_mem_cons.1 hkind
    obtain ⟨-, hkeyed⟩ := List.forall_mem_cons.1 hkeyed
    have hown : j.slot ∈ (j :: js).map slot := List.mem_cons_self
    have hbehind (t : TableRow) := ih hkind (List.nodup_cons.2 hslots.2) hkeyed
      fun g hg => ((hreads g hg).update hown t).mono (List.subset_cons_self ..)
    have hon : j.on = h.keys j.slot previous :: conditionsOn j.slot h.filters := hon
    simp only [Function.update_self] at hbehind
    rw [extendAllIn, eq_mk hj htable hon, extendIn_of_hop h hslots.1.1
      (hfirst.mono fun _ hs => List.mem_singleton.1 hs ▸ hown), Hop.reached, List.map_flatMap]
    refine bag_completed ((hbehind _).trans ?_) fun t _ => hbehind t
    cases later with
    | last | next => rw [Hop.reached_absent (hkeyed _ List.mem_cons_self)]; rfl

end Join

end AssociationQuery
