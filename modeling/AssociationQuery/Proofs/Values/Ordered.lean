import AssociationQuery.Json.Document
import Mathlib.Data.List.Forall2
import Mathlib.Data.Option.Basic
import Mathlib.Data.String.Basic

/-!
# AssociationQuery.Proofs.Values.Ordered

JSON values as data, apart from how they are written down.

An object is a map from names to values.  Two trees stand for the same value if their objects hold
the same values under the same names, at every depth.  A tree whose members stand in the order of
their names is the only such tree for its value, `Json.InOrder.same_iff`, and what is read from a
document is in order.
-/

namespace AssociationQuery.Json

/-! ## members -/

section members

variable {α β : Type}

/-- The members stand in the order of their names, no two under one name. -/
def Ascending (members : List (String × α)) : Prop := (members.map Prod.fst).Pairwise (· < ·)

/-- Members ascend if the first comes before all others and these ascend. -/
theorem ascending_cons {m : String × α} {members : List (String × α)} :
    Ascending (m :: members) ↔ (∀ n ∈ members, m.1 < n.1) ∧ Ascending members := by
  rw [Ascending, List.map_cons, List.pairwise_cons, List.forall_mem_map]
  rfl

/-- What is found under a name is a member. -/
theorem mem_of_lookup_eq {members : List (String × α)} {name : String} {value : α}
    (h : members.lookup name = some value) : (name, value) ∈ members := by
  obtain ⟨before, after, rfl, -⟩ := List.lookup_eq_some_iff.1 h
  exact List.mem_append_right _ List.mem_cons_self

/-- Before the first name nothing is found. -/
theorem lookup_eq_none {members : List (String × α)} {name : String}
    (h : ∀ m ∈ members, name < m.1) : members.lookup name = none :=
  List.lookup_eq_none_iff.2 fun m hm => bne_iff_ne.2 (h m hm).ne

theorem lookup_cons_self (m : String × α) (members : List (String × α)) :
    (m :: members).lookup m.1 = some m.2 := by
  rw [List.lookup_cons, beq_self_eq_true]

theorem lookup_cons_of_ne {m : String × α} {name : String} (h : name ≠ m.1)
    (members : List (String × α)) : (m :: members).lookup name = members.lookup name := by
  rw [List.lookup_cons, beq_false_of_ne h]

section lookup

variable {R : α → β → Prop} {m : String × α} {n : String × β} {as : List (String × α)}
  {bs : List (String × β)}

/-- Where the first names differ, one of the two is missing from the other list. -/
theorem fst_eq_of_lookup (has : Ascending (m :: as)) (hbs : Ascending (n :: bs))
    (h : ∀ name, Option.Rel R ((m :: as).lookup name) ((n :: bs).lookup name)) : m.1 = n.1 := by
  rcases lt_trichotomy m.1 n.1 with hlt | heq | hgt
  · have hnone : (n :: bs).lookup m.1 = none := lookup_eq_none <|
      List.forall_mem_cons.2 ⟨hlt, fun k hk => hlt.trans ((ascending_cons.1 hbs).1 k hk)⟩
    have hm := h m.1
    rw [lookup_cons_self, hnone] at hm
    cases hm
  · exact heq
  · have hnone : (m :: as).lookup n.1 = none := lookup_eq_none <|
      List.forall_mem_cons.2 ⟨hgt, fun k hk => hgt.trans ((ascending_cons.1 has).1 k hk)⟩
    have hn := h n.1
    rw [lookup_cons_self, hnone] at hn
    cases hn

/-- Members in order are told by what is found under each name: if that is related, so are the
members, one by one. -/
theorem forall₂_of_lookup (has : Ascending as) (hbs : Ascending bs)
    (h : ∀ name, Option.Rel R (as.lookup name) (bs.lookup name)) :
    List.Forall₂ (fun m n => m.1 = n.1 ∧ R m.2 n.2) as bs := by
  -- in ascending order the first name of either list is the least, so the two are one
  induction as generalizing bs with
  | nil =>
    cases bs with
    | nil => exact .nil
    | cons n bs =>
      have hn := h n.1
      rw [lookup_cons_self] at hn
      cases hn
  | cons m as ih =>
    cases bs with
    | nil =>
      have hm := h m.1
      rw [lookup_cons_self] at hm
      cases hm
    | cons n bs =>
      have hname := fst_eq_of_lookup has hbs h
      obtain ⟨hfirst, hrest⟩ := ascending_cons.1 has
      obtain ⟨hfirst', hrest'⟩ := ascending_cons.1 hbs
      refine .cons ⟨hname, ?_⟩ (ih hrest hrest' fun name => ?_)
      · have hvalue := h m.1
        rw [lookup_cons_self, hname, lookup_cons_self] at hvalue
        cases hvalue with
        | some hvalue => exact hvalue
      · by_cases heq : name = m.1
        · rw [lookup_eq_none (heq ▸ hfirst), lookup_eq_none (heq ▸ hname ▸ hfirst')]
          exact .none
        · have hvalue := h name
          rwa [lookup_cons_of_ne heq, lookup_cons_of_ne (hname ▸ heq)] at hvalue

end lookup

/-- After putting a member in place there is that one besides those before. -/
theorem mem_insertMember {name : String} {value : α} {members : List (String × α)}
    {m : String × α} (h : m ∈ insertMember name value members) :
    m = (name, value) ∨ m ∈ members := by
  induction members with
  | nil => exact .inl (List.mem_singleton.1 h)
  | cons n members ih =>
    rw [insertMember] at h
    split at h
    · exact List.mem_cons.1 h
    · split at h
      · exact (List.mem_cons.1 h).imp_right (List.mem_cons_of_mem _)
      · rcases List.mem_cons.1 h with rfl | h
        · exact .inr List.mem_cons_self
        · exact (ih h).imp_right (List.mem_cons_of_mem _)

/-- Putting a member in its place keeps the order. -/
theorem ascending_insertMember {members : List (String × α)} (h : Ascending members)
    (name : String) (value : α) : Ascending (insertMember name value members) := by
  -- along the members: the new one goes before the first that is greater
  induction members with
  | nil => exact List.pairwise_singleton _ _
  | cons n members ih =>
    obtain ⟨hfirst, hrest⟩ := ascending_cons.1 h
    rw [insertMember]
    split
    · next hlt =>
      have hbefore : ∀ m ∈ n :: members, name < m.1 :=
        List.forall_mem_cons.2 ⟨hlt, fun m hm => hlt.trans (hfirst m hm)⟩
      exact ascending_cons.2 ⟨hbefore, h⟩
    · next hnot =>
      split
      · next heq => exact ascending_cons.2 ⟨fun m hm => heq ▸ hfirst m hm, hrest⟩
      · next hne =>
        refine ascending_cons.2 ⟨fun m hm => ?_, ih hrest⟩
        rcases mem_insertMember hm with rfl | hm
        · exact lt_of_le_of_ne (not_lt.1 hnot) (Ne.symm hne)
        · exact hfirst m hm

/-- Sorting adds no members, and the members it keeps are in order. -/
theorem sortMembers_spec (members : List (String × α)) :
    Ascending (sortMembers members) ∧ ∀ m ∈ sortMembers members, m ∈ members := by
  refine List.foldlRecOn (motive := fun sorted => Ascending sorted ∧ ∀ m ∈ sorted, m ∈ members)
    members _ ⟨.nil, List.forall_mem_nil _⟩ ?_
  rintro sorted ⟨hsorted, hsub⟩ m hm
  refine ⟨ascending_insertMember hsorted m.1 m.2, fun k hk => ?_⟩
  rcases mem_insertMember hk with rfl | hk
  · exact hm
  · exact hsub k hk

end members

/-! ## values -/

/-- The members of each object in the value stand in the order of their names. -/
inductive InOrder : Json → Prop
  | null : InOrder null
  | bool (b : Bool) : InOrder (bool b)
  | integer (n : Int) : InOrder (integer n)
  | string (s : String) : InOrder (string s)
  | array {items : List Json} (h : ∀ j ∈ items, InOrder j) : InOrder (array items)
  | object {members : List (String × Json)} (names : Ascending members)
      (values : ∀ m ∈ members, InOrder m.2) : InOrder (object members)

/-- The two trees stand for one value: arrays hold the same items in the same order, objects the
same values under the same names. -/
inductive Same : Json → Json → Prop
  | null : Same null null
  | bool (b : Bool) : Same (bool b) (bool b)
  | integer (n : Int) : Same (integer n) (integer n)
  | string (s : String) : Same (string s) (string s)
  | array {as bs : List Json} (h : List.Forall₂ Same as bs) : Same (array as) (array bs)
  | object {as bs : List (String × Json)}
      (h : ∀ name, Option.Rel Same (as.lookup name) (bs.lookup name)) : Same (object as) (object bs)

mutual

/-- Every value stands for what it stands for. -/
theorem same_refl : (j : Json) → Same j j
  | .null => .null
  | .bool b => .bool b
  | .integer n => .integer n
  | .string s => .string s
  | .array items => .array (List.forall₂_same.2 (same_items items))
  | .object members => .object fun name => by
    cases h : members.lookup name with
    | none => exact .none
    | some j => exact .some (same_members members _ (mem_of_lookup_eq h))

theorem same_items : (items : List Json) → ∀ j ∈ items, Same j j
  | [] => List.forall_mem_nil _
  | j :: items => List.forall_mem_cons.2 ⟨same_refl j, same_items items⟩

theorem same_members : (members : List (String × Json)) → ∀ m ∈ members, Same m.2 m.2
  | [] => List.forall_mem_nil _
  | (_, j) :: members => List.forall_mem_cons.2 ⟨same_refl j, same_members members⟩

end

/-- Related lists are equal if related elements are. -/
theorem eq_of_forall₂ {α : Type} {R : α → α → Prop} {as bs : List α} (h : List.Forall₂ R as bs)
    (heq : ∀ a ∈ as, ∀ b ∈ bs, R a b → a = b) : as = bs := by
  induction h with
  | nil => rfl
  | @cons a b as bs hab _ ih =>
    rw [heq a List.mem_cons_self b List.mem_cons_self hab,
      ih fun a ha b hb => heq a (List.mem_cons_of_mem _ ha) b (List.mem_cons_of_mem _ hb)]

/-- The value is the only one in order for what it stands for. -/
def Settled (j : Json) : Prop := j.InOrder → ∀ k : Json, k.InOrder → Same j k → j = k

mutual

/-- A value in order is told by what it stands for. -/
theorem settled : (j : Json) → j.Settled
  | .null | .bool _ | .integer _ | .string _ => fun _ k _ h => by
    cases h
    rfl
  | .array items => fun hj k hk h => by
    cases h with
    | array h =>
      cases hj with
      | array hj =>
        cases hk with
        | array hk =>
          rw [eq_of_forall₂ h fun a ha b hb => settled_items items a ha (hj a ha) b (hk b hb)]
  | .object members => fun hj k hk h => by
    cases h with
    | object h =>
      cases hj with
      | object hnames hvalues =>
        cases hk with
        | object hnames' hvalues' =>
          have hmembers := forall₂_of_lookup hnames hnames' h
          rw [eq_of_forall₂ hmembers fun m hm n hn hmn => Prod.ext hmn.1
            (settled_members members m hm (hvalues m hm) n.2 (hvalues' n hn) hmn.2)]

theorem settled_items : (items : List Json) → ∀ j ∈ items, j.Settled
  | [] => List.forall_mem_nil _
  | j :: items => List.forall_mem_cons.2 ⟨settled j, settled_items items⟩

theorem settled_members : (members : List (String × Json)) → ∀ m ∈ members, m.2.Settled
  | [] => List.forall_mem_nil _
  | (_, j) :: members => List.forall_mem_cons.2 ⟨settled j, settled_members members⟩

end

/-- Values in order are equal if they stand for the same. -/
theorem InOrder.same_iff {j k : Json} (hj : j.InOrder) (hk : k.InOrder) : Same j k ↔ j = k :=
  ⟨j.settled hj k hk, fun h => h ▸ same_refl j⟩

/-- Members that are put in place one by one are in order. -/
theorem inOrder_ofMembers {members : List (String × Json)} (h : ∀ m ∈ members, m.2.InOrder) :
    (ofMembers members).InOrder := by
  obtain ⟨hnames, hsub⟩ := sortMembers_spec members
  exact .object hnames fun m hm => h m (hsub m hm)

/-! ## documents -/

namespace Document

mutual

/-- What is read from a document is in order. -/
theorem inOrder_toJson? : (d : Document) → {j : Json} → d.toJson? = some j → j.InOrder
  | .null, _, rfl => .null
  | .bool b, _, rfl => .bool b
  | .integer n, _, rfl => .integer n
  | .decimal _ _, _, h => nomatch h
  | .string s, _, h => by
    obtain ⟨s, -, rfl⟩ := Option.map_eq_some_iff.1 h
    exact .string s
  | .array ds, _, h => by
    obtain ⟨items, hitems, rfl⟩ := Option.map_eq_some_iff.1 h
    exact .array (inOrder_toJsonItems? ds hitems)
  | .object ds, _, h => by
    obtain ⟨members, hmembers, rfl⟩ := Option.map_eq_some_iff.1 h
    exact inOrder_ofMembers (inOrder_toJsonMembers? ds hmembers)

theorem inOrder_toJsonItems? : (ds : List Document) → {items : List Json} →
    toJsonItems? ds = some items → ∀ j ∈ items, j.InOrder
  | [], _, rfl => List.forall_mem_nil _
  | d :: ds, _, h => by
    simp only [toJsonItems?, Option.bind_eq_bind, Option.bind_eq_some_iff, Option.pure_def,
      Option.some.injEq] at h
    obtain ⟨j, hj, items, hitems, rfl⟩ := h
    exact List.forall_mem_cons.2 ⟨inOrder_toJson? d hj, inOrder_toJsonItems? ds hitems⟩

theorem inOrder_toJsonMembers? : (ds : List (Literal × Document)) →
    {members : List (String × Json)} → toJsonMembers? ds = some members →
    ∀ m ∈ members, m.2.InOrder
  | [], _, rfl => List.forall_mem_nil _
  | (_, d) :: ds, _, h => by
    simp only [toJsonMembers?, Option.bind_eq_bind, Option.bind_eq_some_iff, Option.pure_def,
      Option.some.injEq] at h
    obtain ⟨name, -, j, hj, members, hmembers, rfl⟩ := h
    exact List.forall_mem_cons.2 ⟨inOrder_toJson? d hj, inOrder_toJsonMembers? ds hmembers⟩

end

end Document

end AssociationQuery.Json
