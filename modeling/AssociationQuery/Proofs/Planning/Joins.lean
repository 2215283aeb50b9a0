import AssociationQuery.Plan.Compile
import AssociationQuery.Proofs.Result

/-!
# AssociationQuery.Proofs.Planning.Joins

What the joins that planning adds look like.

Planning adds joins one by one, numbering each new table instance by the number
of instances so far.  All joins along one route are therefore known beforehand,
from the number of the first: `hopJoins`, `insideJoins` and `backJoins`.
-/

namespace AssociationQuery

/-! ## table instances -/

/-- The table instance of a join with its table. -/
def Join.instance (j : Join) : Slot × Table := (j.slot, j.table)

/-- The last table instance of several joins, or the one before them. -/
def Join.lastSlot (previous : Slot) (js : List Join) : Slot :=
  js.foldl (fun _ j => j.slot) previous

/-- The last slot is that of the last join, or the one before all joins. -/
theorem Join.lastSlot_eq (previous : Slot) (js : List Join) :
    Join.lastSlot previous js = js.getLast?.elim previous Join.slot := by
  induction js generalizing previous with
  | nil => rfl
  | cons j rest ih =>
    rw [lastSlot, List.foldl_cons, ← lastSlot, ih]
    cases rest with
    | nil => rfl
    | cons k ks => simp [List.getLast?_cons]

/-- The last slot is one of the joins or the one before them. -/
theorem Join.lastSlot_mem (previous : Slot) (js : List Join) :
    Join.lastSlot previous js ∈ previous :: js.map Join.slot := by
  rw [lastSlot_eq]
  cases hlast : js.getLast? with
  | none => exact List.mem_cons_self
  | some j => exact List.mem_cons_of_mem _ (List.mem_map_of_mem (List.mem_of_getLast? hlast))

namespace Draft

/-- The number that the next table instance gets. -/
def next (d : Draft) : Nat := d.aliases.tables.length

/-- The table instances of the joins with their tables. -/
def instances (d : Draft) : List (Slot × Table) := d.joins.map Join.instance

/-- A draft with further table instances. -/
def withTables (d : Draft) (tables : List Table) : Draft :=
  { d with
    aliases := { d.aliases with tables := d.aliases.tables ++ tables.map Table.name } }

/-- A draft with further joins of table instances of their own. -/
def withJoins (d : Draft) (js : List Join) : Draft :=
  { d.withTables (js.map Join.table) with joins := d.joins ++ js }

theorem addSlot_eq (d : Draft) (t : Table) : d.addSlot t = (⟨d.next⟩, d.withTables [t]) := rfl

@[simp] theorem next_withTables (d : Draft) (tables : List Table) :
    (d.withTables tables).next = d.next + tables.length := by
  simp [next, withTables]

@[simp] theorem next_withJoins (d : Draft) (js : List Join) :
    (d.withJoins js).next = d.next + js.length := by
  simp [next, withJoins, withTables]

@[simp] theorem joins_withJoins (d : Draft) (js : List Join) :
    (d.withJoins js).joins = d.joins ++ js := rfl

theorem addJoin_withTables (d : Draft) (k : JoinKind) (slot : Slot) (t : Table)
    (on : List Condition) :
    (d.withTables [t]).addJoin (.mk k slot t on) = d.withJoins [.mk k slot t on] := rfl

theorem withTables_nil (d : Draft) : d.withTables [] = d := by simp [withTables]

/-- Tables that are added one after the other are added together. -/
theorem withTables_append (d : Draft) (ts us : List Table) :
    (d.withTables ts).withTables us = d.withTables (ts ++ us) := by
  simp [withTables]

theorem withJoins_nil (d : Draft) : d.withJoins [] = d := by simp [withJoins, withTables]

/-- Joins that are added one after the other are added together. -/
theorem withJoins_append (d : Draft) (js ks : List Join) :
    (d.withJoins js).withJoins ks = d.withJoins (js ++ ks) := by
  simp [withJoins, withTables]

/-! ## joins along a route -/

/-- The joins of the hops of a route, whose table instances have the numbers from `next`
on.  `refine` holds further filters on the last table. -/
def hopJoins (left : Bool) (refine : List Expr) (previous : Slot) (next : Nat) :
    Hop → List Hop → List Join
  | h, [] =>
    [.mk (.keeping (left || h.isOptional)) ⟨next⟩ h.destination
      (h.keys ⟨next⟩ previous :: conditionsOn ⟨next⟩ (h.filters ++ refine))]
  | h, g :: gs =>
    .mk (.keeping (left || h.isOptional)) ⟨next⟩ h.destination
      (h.keys ⟨next⟩ previous :: conditionsOn ⟨next⟩ h.filters)
      :: hopJoins (left || h.isOptional) refine ⟨next⟩ (next + 1) g gs

/-- The joins of a subquery. -/
def insideJoins (previous : Slot) (next : Nat) : List Hop → List Join
  | [] => []
  | h :: rest =>
    .mk .inner ⟨next⟩ h.destination (h.keys ⟨next⟩ previous :: conditionsOn ⟨next⟩ h.filters)
      :: insideJoins ⟨next⟩ (next + 1) rest

/-- The joins back from the hop `later` to the first of a route. -/
def backJoins (previous : Slot) (later : Hop) (next : Nat) : List Hop → List Join
  | [] => []
  | h :: rest =>
    .mk .inner ⟨next⟩ h.destination
      (.keys ⟨next⟩ previous later.mapping :: conditionsOn ⟨next⟩ h.filters)
      :: backJoins ⟨next⟩ h (next + 1) rest

/-- Joining the hops of a route adds the joins `hopJoins`. -/
theorem joinHops_eq (left : Bool) (refine : List Expr) (previous : Slot) (h : Hop)
    (rest : List Hop) (d : Draft) :
    let js := hopJoins left refine previous d.next h rest
    joinHops left refine previous h rest d = (Join.lastSlot previous js, d.withJoins js) := by
  induction rest generalizing left previous h d with
  | nil => rfl
  | cons g gs ih =>
    simp only [joinHops, addSlot_eq, addJoin_withTables, ih, next_withJoins, withJoins_append]
    rfl

/-- Joining hops inside a subquery adds the joins `insideJoins`. -/
theorem joinInside_eq (previous : Slot) (hs : List Hop) (d : Draft) :
    let js := insideJoins previous d.next hs
    joinInside previous hs d =
      (js, js.map Join.slot, Join.lastSlot previous js, d.withTables (js.map Join.table)) := by
  induction hs generalizing previous d with
  | nil => simp [joinInside, insideJoins, Join.lastSlot, withTables_nil]
  | cons h rest ih =>
    simp [joinInside, addSlot_eq, ih, insideJoins, Join.lastSlot, withTables_append, Join.slot,
      Join.table]

/-- Joining the hops back to the key filter adds the joins `backJoins`. -/
theorem joinBack_eq (previous : Slot) (later : Hop) (hs : List Hop) (d : Draft) :
    let js := backJoins previous later d.next hs
    joinBack previous later hs d = (Join.lastSlot previous js, d.withJoins js) := by
  induction hs generalizing previous later d with
  | nil => simp [joinBack, backJoins, Join.lastSlot, withJoins_nil]
  | cons h rest ih =>
    simp only [joinBack, addSlot_eq, addJoin_withTables, ih, next_withJoins, withJoins_append]
    rfl

/-! ## numbers and tables of the joins -/

/-- The joins have the table instances with the numbers from `next` on. -/
def NumberedFrom (next : Nat) (js : List Join) : Prop :=
  js.map Join.slot = (List.range' next js.length).map Slot.mk

theorem NumberedFrom.nil (next : Nat) : NumberedFrom next [] := rfl

/-- A join more in front, with the number before. -/
theorem NumberedFrom.cons {next : Nat} {js : List Join} (k : JoinKind) (t : Table)
    (on : List Condition) (h : NumberedFrom (next + 1) js) :
    NumberedFrom next (.mk k ⟨next⟩ t on :: js) := by
  simp only [NumberedFrom, List.map_cons, List.length_cons, List.range'_succ] at *
  rw [h]
  rfl

/-- The first of numbered joins has the first number. -/
theorem NumberedFrom.of_cons {next : Nat} {j : Join} {js : List Join}
    (h : NumberedFrom next (j :: js)) : j.slot = ⟨next⟩ ∧ NumberedFrom (next + 1) js := by
  simp only [NumberedFrom, List.map_cons, List.length_cons, List.range'_succ] at h
  exact List.cons.inj h

/-- Numbered joins go on with the number after their last. -/
theorem NumberedFrom.append {next : Nat} {js ks : List Join} (hj : NumberedFrom next js)
    (hk : NumberedFrom (next + js.length) ks) : NumberedFrom next (js ++ ks) := by
  simp only [NumberedFrom] at *
  rw [List.map_append, hj, hk, List.length_append, ← List.map_append, List.range'_append_1]

/-- The last slot has been numbered. -/
theorem NumberedFrom.index_lastSlot_lt {next : Nat} {js : List Join} {previous : Slot}
    (h : NumberedFrom next js) (hp : previous.index < next) :
    (Join.lastSlot previous js).index < next + js.length := by
  rw [Join.lastSlot_eq]
  cases hj : js.getLast? with
  | none =>
    rw [List.getLast?_eq_none_iff] at hj
    subst hj
    exact hp
  | some j =>
    have hmem : j.slot ∈ js.map Join.slot := List.mem_map_of_mem (List.mem_of_getLast? hj)
    rw [h] at hmem
    obtain ⟨i, hi, heq⟩ := List.mem_map.1 hmem
    rw [Option.elim_some, ← heq]
    exact (List.mem_range'_1.1 hi).2

/-- The joins of a route are numbered. -/
theorem numberedFrom_hopJoins (left : Bool) (refine : List Expr) (previous : Slot) (next : Nat)
    (h : Hop) (rest : List Hop) :
    NumberedFrom next (hopJoins left refine previous next h rest) := by
  induction rest generalizing left previous next h with
  | nil => exact .cons _ _ _ (.nil _)
  | cons g gs ih => exact .cons _ _ _ (ih ..)

/-- The joins inside a subquery are numbered. -/
theorem numberedFrom_insideJoins (previous : Slot) (next : Nat) (hs : List Hop) :
    NumberedFrom next (insideJoins previous next hs) := by
  induction hs generalizing previous next with
  | nil => exact .nil _
  | cons h rest ih => exact .cons _ _ _ (ih ..)

/-- The joins back along a route are numbered. -/
theorem numberedFrom_backJoins (previous : Slot) (later : Hop) (next : Nat) (hs : List Hop) :
    NumberedFrom next (backJoins previous later next hs) := by
  induction hs generalizing previous later next with
  | nil => exact .nil _
  | cons h rest ih => exact .cons _ _ _ (ih ..)

/-- A route joins the tables that its hops lead to. -/
theorem tables_hopJoins (left : Bool) (refine : List Expr) (previous : Slot) (next : Nat)
    (h : Hop) (rest : List Hop) :
    (hopJoins left refine previous next h rest).map Join.table =
      (h :: rest).map Hop.destination := by
  induction rest generalizing left previous next h with
  | nil => rfl
  | cons g gs ih =>
    rw [hopJoins, List.map_cons, ih]
    rfl

/-- A subquery joins the tables that the hops lead to. -/
theorem tables_insideJoins (previous : Slot) (next : Nat) (hs : List Hop) :
    (insideJoins previous next hs).map Join.table = hs.map Hop.destination := by
  induction hs generalizing previous next with
  | nil => rfl
  | cons h rest ih =>
    rw [insideJoins, List.map_cons, ih]
    rfl

/-- The way back joins the tables that its hops lead to. -/
theorem tables_backJoins (previous : Slot) (later : Hop) (next : Nat) (hs : List Hop) :
    (backJoins previous later next hs).map Join.table = hs.map Hop.destination := by
  induction hs generalizing previous later next with
  | nil => rfl
  | cons h rest ih =>
    rw [backJoins, List.map_cons, ih]
    rfl

/-! ## kinds of joins -/

/-- Only what keeps no unmatched rows is an inner join. -/
theorem keeping_eq_inner {unmatched : Bool} :
    JoinKind.keeping unmatched = .inner ↔ unmatched = false := by
  cases unmatched <;> simp [JoinKind.keeping]

/-- Joins whose hops all keep unmatched rows, or none of them, are of one kind. -/
theorem kinds_hopJoins {left unmatched : Bool} (refine : List Expr) (previous : Slot) (next : Nat)
    {h : Hop} {rest : List Hop} (hhops : ∀ g ∈ h :: rest, (left || g.isOptional) = unmatched) :
    ∀ j ∈ hopJoins left refine previous next h rest, j.kind = .keeping unmatched := by
  induction rest generalizing left previous next h with
  | nil =>
    intro j hj
    obtain rfl := List.mem_singleton.1 hj
    exact congrArg JoinKind.keeping (hhops h List.mem_cons_self)
  | cons g gs ih =>
    obtain ⟨hh, hrest⟩ := List.forall_mem_cons.1 hhops
    intro j hj
    rcases List.mem_cons.1 hj with rfl | hj
    · exact congrArg JoinKind.keeping hh
    · have hlater : ∀ k ∈ g :: gs, (left || h.isOptional || k.isOptional) = unmatched := by
        intro k hk
        rw [hh, ← hrest k hk]
        cases left <;> simp_all
      exact ih _ _ hlater j hj

/-- The way back is joined inwards. -/
theorem backJoins_inner (previous : Slot) (later : Hop) (next : Nat) (hs : List Hop) :
    ∀ j ∈ backJoins previous later next hs, j.kind = .inner := by
  induction hs generalizing previous later next with
  | nil => simp [backJoins]
  | cons h rest ih => exact List.forall_mem_cons.2 ⟨rfl, ih _ _ _⟩

end Draft

/-! ## conditions of the joins -/

/-- The join compares keys with one of the given tables, under expressions on its own table. -/
def Join.LinksTo (slots : List Slot) (j : Join) : Prop :=
  ∃ previous ∈ slots, ∃ columns es,
    j.on = .keys j.slot previous columns :: conditionsOn j.slot es

/-- What links to some tables links to more. -/
theorem Join.LinksTo.mono {slots slots' : List Slot} {j : Join} (h : j.LinksTo slots)
    (hsub : slots ⊆ slots') : j.LinksTo slots' := by
  obtain ⟨previous, hmem, hon⟩ := h
  exact ⟨previous, hsub hmem, hon⟩

namespace Draft

/-- Joins in a row link to the table before them and to each other if the first links to the
table before and the others to the first and each other. -/
theorem linksTo_cons {previous slot : Slot} {j : Join} {js : List Join}
    (hj : j.LinksTo [previous]) (hslot : j.slot = slot)
    (hjs : ∀ k ∈ js, k.LinksTo (slot :: js.map Join.slot)) :
    ∀ k ∈ j :: js, k.LinksTo (previous :: (j :: js).map Join.slot) := by
  subst hslot
  refine List.forall_mem_cons.2 ⟨hj.mono (by simp), fun k hk => (hjs k hk).mono ?_⟩
  exact List.subset_cons_self ..

/-- Each join of a route links its table to an earlier one. -/
theorem linksTo_hopJoins (left : Bool) (refine : List Expr) (previous : Slot) (next : Nat)
    (h : Hop) (rest : List Hop) :
    ∀ j ∈ hopJoins left refine previous next h rest,
      j.LinksTo (previous :: (hopJoins left refine previous next h rest).map Join.slot) := by
  induction rest generalizing left previous next h with
  | nil =>
    exact linksTo_cons ⟨previous, List.mem_singleton_self _, _, _, rfl⟩ rfl
      (List.forall_mem_nil _)
  | cons g gs ih =>
    exact linksTo_cons ⟨previous, List.mem_singleton_self _, _, _, rfl⟩ rfl (ih _ _ _ _)

/-- Inside a subquery each join links its table to an earlier one. -/
theorem linksTo_insideJoins (previous : Slot) (next : Nat) (hs : List Hop) :
    ∀ j ∈ insideJoins previous next hs,
      j.LinksTo (previous :: (insideJoins previous next hs).map Join.slot) := by
  induction hs generalizing previous next with
  | nil => exact List.forall_mem_nil _
  | cons h rest ih =>
    exact linksTo_cons ⟨previous, List.mem_singleton_self _, _, _, rfl⟩ rfl (ih _ _)

/-- On the way back each join links its table to an earlier one. -/
theorem linksTo_backJoins (previous : Slot) (later : Hop) (next : Nat) (hs : List Hop) :
    ∀ j ∈ backJoins previous later next hs,
      j.LinksTo (previous :: (backJoins previous later next hs).map Join.slot) := by
  induction hs generalizing previous later next with
  | nil => exact List.forall_mem_nil _
  | cons h rest ih =>
    exact linksTo_cons ⟨previous, List.mem_singleton_self _, _, _, rfl⟩ rfl (ih _ _ _)

end Draft

end AssociationQuery
