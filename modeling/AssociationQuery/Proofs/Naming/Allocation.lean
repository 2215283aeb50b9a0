import AssociationQuery.Proofs.Naming.Claims
import AssociationQuery.Proofs.Naming.Numbers

/-!
# AssociationQuery.Proofs.Naming.Allocation

The names of the table instances of a statement.

Every instance has one name and no two names are alike; a name that a handle insists on
is kept, and every other name is that of the table, with a number behind it where the
table's name alone would be taken.
-/

namespace AssociationQuery

namespace AliasRequests

open Text.Casing (lower)

/-! ## derived names -/

/-- The name of an instance that has no locked one. -/
def IsDerived (table name : String) : Prop :=
  name = table ∨ ∃ n, 0 < n ∧ name = table ++ toString n

/-- A table keeps its name only if that is free. -/
theorem derive_eq (numbering : AliasNumbering) (repeated : Bool) (taken : List String)
    (table : String) :
    (derive numbering repeated taken table = table ∧ lower table ∉ taken) ∨
      derive numbering repeated taken table = numbered taken table := by
  by_cases hfree : lower table ∈ taken
  · exact .inr (by cases numbering <;> simp [derive, hfree])
  · cases numbering with
    | keepFirst => exact .inl ⟨by simp [derive, hfree], hfree⟩
    | numberAll =>
      cases repeated with
      | false => exact .inl ⟨by simp [derive, hfree], hfree⟩
      | true => exact .inr (by simp [derive])

/-- A derived name is the table's own, or that with a number behind it. -/
theorem isDerived_derive (numbering : AliasNumbering) (repeated : Bool) (taken : List String)
    (table : String) : IsDerived table (derive numbering repeated taken table) := by
  rcases derive_eq numbering repeated taken table with ⟨hname, -⟩ | hname
  · exact .inl hname
  · obtain ⟨n, hpos, hnumber, -⟩ := (searchEnds_numbered taken table).exists_number
    exact .inr ⟨n, hpos, hname.trans hnumber⟩

/-- A derived name is not alike to any that is taken. -/
theorem lower_derive_notMem (numbering : AliasNumbering) (repeated : Bool) (taken : List String)
    (table : String) : lower (derive numbering repeated taken table) ∉ taken := by
  rcases derive_eq numbering repeated taken table with ⟨hname, hfree⟩ | hname
  · rwa [hname]
  · obtain ⟨n, -, -, hfree⟩ := (searchEnds_numbered taken table).exists_number
    rwa [hname]

section deriveAll

variable (numbering : AliasNumbering) (isRepeated : String → Bool)

/-- How an instance comes by its name. -/
def Names (instance_ : String × Option String) (name : String) : Prop :=
  match instance_.2 with
  | some locked => name = locked
  | none => IsDerived instance_.1 name

/-- Every instance gets its locked name or a derived one. -/
theorem names_deriveAll (taken : List String) (instances : List (String × Option String)) :
    List.Forall₂ Names instances (deriveAll numbering isRepeated taken instances) := by
  induction instances generalizing taken with
  | nil => exact .nil
  | cons i rest ih =>
    obtain ⟨table, _ | locked⟩ := i
    · exact .cons (isDerived_derive ..) (ih _)
    · exact .cons rfl (ih _)

/-- The locked names of instances in lower case. -/
def lockedForms (instances : List (String × Option String)) : List String :=
  (instances.map Prod.snd).filterMap (Option.map lower)

/-- Names are apart from each other, and alike to a taken name only if they are locked. -/
theorem nodup_deriveAll {taken : List String} {instances : List (String × Option String)}
    (hapart : (lockedForms instances).Nodup) (htaken : lockedForms instances ⊆ taken) :
    ((deriveAll numbering isRepeated taken instances).map lower).Nodup ∧
      ∀ form ∈ (deriveAll numbering isRepeated taken instances).map lower,
        form ∈ taken → form ∈ lockedForms instances := by
  -- instance by instance: locked forms were taken from the start, derived ones avoid all that is
  -- taken
  induction instances generalizing taken with
  | nil => simp [deriveAll]
  | cons i rest ih =>
    obtain ⟨table, _ | locked⟩ := i
    · have hname := lower_derive_notMem numbering (isRepeated table) taken table
      obtain ⟨hnodup, hlocked⟩ := ih hapart (List.subset_cons_of_subset _ htaken)
      rw [deriveAll, List.map_cons, List.nodup_cons, List.forall_mem_cons]
      refine ⟨⟨fun hmem => ?_, hnodup⟩, fun hmem => absurd hmem hname, fun form hform hmem => ?_⟩
      · exact hname (htaken (hlocked _ hmem List.mem_cons_self))
      · exact hlocked form hform (List.mem_cons_of_mem _ hmem)
    · have hforms : lockedForms ((table, some locked) :: rest) =
          lower locked :: lockedForms rest := rfl
      rw [hforms] at hapart htaken ⊢
      obtain ⟨hnew, hrest⟩ := List.nodup_cons.1 hapart
      obtain ⟨hmem, hsub⟩ := List.cons_subset.1 htaken
      obtain ⟨hnodup, hlocked⟩ := ih hrest hsub
      rw [deriveAll, List.map_cons, List.nodup_cons, List.forall_mem_cons]
      refine ⟨⟨fun hform => hnew (hlocked _ hform hmem), hnodup⟩,
        fun _ => List.mem_cons_self, fun form hform h => ?_⟩
      exact List.mem_cons_of_mem _ (hlocked form hform h)

end deriveAll

/-! ## the names of a statement -/

/-- What is found is in the list. -/
theorem mem_of_lookup {xs : List (Slot × String)} {slot : Slot} {name : String}
    (h : xs.lookup slot = some name) : (slot, name) ∈ xs := by
  obtain ⟨before, after, rfl, -⟩ := List.lookup_eq_some_iff.1 h
  exact List.mem_append_right _ List.mem_cons_self

/-- Each instance comes with its table and with the name that a handle has locked. -/
theorem getElem?_withLocked (r : AliasRequests) (c : Claims) (i : Nat) :
    (r.withLocked c)[i]? = r.tables[i]?.map fun table => (table, c.locked.lookup ⟨i⟩) := by
  rw [withLocked, List.getElem?_mapIdx]

/-- The locked names of the instances are those that handles have locked. -/
theorem lockedForms_withLocked (r : AliasRequests) (c : Claims) :
    lockedForms (r.withLocked c) =
      (List.range r.tables.length).filterMap fun i => (c.locked.lookup ⟨i⟩).map lower := by
  have hlocked : (r.withLocked c).map Prod.snd =
      (List.range r.tables.length).map fun i => c.locked.lookup ⟨i⟩ := by
    apply List.ext_getElem?
    intro i
    rw [List.getElem?_map, getElem?_withLocked, List.getElem?_map]
    by_cases hi : i < r.tables.length <;> simp [hi]
  rw [lockedForms, hlocked, List.filterMap_map]
  rfl

/-- The locked names of the instances are apart. -/
theorem nodup_lockedForms {r : AliasRequests} {c : Claims}
    (h : (c.locked.map fun l => lower l.2).Nodup) : (lockedForms (r.withLocked c)).Nodup := by
  rw [lockedForms_withLocked]
  refine List.nodup_range.filterMap fun i j form hi hj => ?_
  obtain ⟨m, hm, rfl⟩ := Option.map_eq_some_iff.1 hi
  obtain ⟨n, hn, heq⟩ := Option.map_eq_some_iff.1 hj
  have hsame := List.inj_on_of_nodup_map h (mem_of_lookup hm) (mem_of_lookup hn) heq.symm
  exact congrArg (fun l => l.1.index) hsame

/-- No other names are locked. -/
theorem lockedForms_subset (r : AliasRequests) (c : Claims) :
    lockedForms (r.withLocked c) ⊆ c.locked.map fun l => lower l.2 := by
  rw [lockedForms_withLocked]
  intro form hform
  obtain ⟨i, -, hi⟩ := List.mem_filterMap.1 hform
  obtain ⟨name, hname, rfl⟩ := Option.map_eq_some_iff.1 hi
  exact List.mem_map_of_mem (mem_of_lookup hname)

/-- What a name of an instance may be, once the handles are settled. -/
theorem names_withLocked {r : AliasRequests} {c : Claims} {names : List String} {slot : Slot}
    (hnames : List.Forall₂ Names (r.withLocked c) names) (hslot : slot.index < r.tables.length) :
    Names (r.table slot, c.locked.lookup slot) (names.getD slot.index "") := by
  have hlength : slot.index < (r.withLocked c).length := by simpa [withLocked] using hslot
  have hname := List.Forall₂.get hnames hlength (hnames.length_eq ▸ hlength)
  have htable : (r.withLocked c)[slot.index] = (r.table slot, c.locked.lookup slot) := by
    simp [withLocked, AliasRequests.table, hslot]
  simpa [htable, hnames.length_eq ▸ hlength] using hname

end AliasRequests

open AliasRequests (IsDerived SearchEnds numbered)
open Text.Casing (lower)

/-- The names are such as the table instances and the handles on them ask for. -/
structure AliasMap.Serves (m : AliasMap) (r : AliasRequests) : Prop where
  /-- Every instance has a name. -/
  length : m.names.length = r.tables.length
  /-- No two names are alike. -/
  apart : ∀ s t : Slot, s.index < r.tables.length → t.index < r.tables.length →
    lower (m.name s) = lower (m.name t) → s = t
  /-- A name that a handle insists on is kept. -/
  locked : ∀ p ∈ r.registrations, ∀ name, p.2.locked = some name → m.name p.1 = name
  /-- Where no handle insists on a name, it is the table's, or that with a positive number. -/
  derived : ∀ slot : Slot, slot.index < r.tables.length →
    (∀ p ∈ r.registrations, p.1 = slot → p.2.locked = none) →
    IsDerived (r.table slot) (m.name slot)
  /-- A handle stands for the instance that it is attached to. -/
  handles : ∀ p ∈ r.registrations,
    m.slotOf? p.2 = some p.1 ∧ m.resolve? p.2 = some (m.name p.1)

namespace AliasRequests

/-- Names that are apart tell their instances apart. -/
theorem eq_of_lower_name {m : AliasMap} (h : (m.names.map lower).Nodup) {s t : Slot}
    (hs : s.index < m.names.length) (ht : t.index < m.names.length)
    (heq : lower (m.name s) = lower (m.name t)) : s = t := by
  have hindex : s.index = t.index := by
    rw [← h.getElem_inj_iff]
    · simpa [AliasMap.name, hs, ht] using heq
    · simpa using hs
    · simpa using ht
  cases s
  exact congrArg Slot.mk hindex

/-- Every instance gets a name. -/
theorem length_names_of_allocate {r : AliasRequests} {m : AliasMap} (h : r.allocate = .ok m) :
    m.names.length = r.tables.length := by
  simp only [allocate, bind_eq_ok, pure_eq_ok] at h
  obtain ⟨c, -, rfl⟩ := h
  have hnames := names_deriveAll r.numbering (isRepeated (r.withLocked c))
    (c.locked.map fun l => lower l.2) (r.withLocked c)
  exact hnames.length_eq.symm.trans (List.length_mapIdx ..)

/-- A handle that is found has been registered. -/
theorem exists_registration_of_allocate {r : AliasRequests} {m : AliasMap}
    (h : r.allocate = .ok m) {a : TableAlias} {slot : Slot} (ha : m.slotOf? a = some slot) :
    ∃ p ∈ r.registrations, p.1 = slot ∧ p.2.id = a.id := by
  simp only [allocate, bind_eq_ok, pure_eq_ok] at h
  obtain ⟨c, hc, rfl⟩ := h
  obtain ⟨b, hb, hid⟩ := registered_of_claimAll hc a.id slot ha
  exact ⟨(slot, b), hb, rfl, hid⟩

/-- Names that are allocated serve all table instances and handles. -/
theorem serves_of_allocate {r : AliasRequests} (hr : r.WellFormed) {m : AliasMap}
    (h : r.allocate = .ok m) : m.Serves r := by
  have hlength := length_names_of_allocate h
  simp only [allocate, bind_eq_ok, pure_eq_ok] at h
  obtain ⟨c, hc, rfl⟩ := h
  have hsettles := settles_of_claimAll hr hc
  have hnames := names_deriveAll r.numbering (isRepeated (r.withLocked c))
    (c.locked.map fun l => lower l.2) (r.withLocked c)
  have hnodup := (nodup_deriveAll r.numbering (isRepeated (r.withLocked c))
    (nodup_lockedForms hsettles.apart) (lockedForms_subset r c)).1
  exact {
    length := hlength
    apart := fun s t hs ht heq => eq_of_lower_name hnodup (hlength ▸ hs) (hlength ▸ ht) heq
    locked := by
      intro p hp name hname
      have hown := names_withLocked hnames (hr.inside p hp)
      rw [hsettles.locked p hp name hname] at hown
      exact hown
    derived := by
      intro slot hslot hnone
      have hown := names_withLocked hnames hslot
      -- a lock on the slot would come from a registration that insists on a name
      cases hlookup : c.locked.lookup slot with
      | none =>
        rw [hlookup] at hown
        exact hown
      | some name =>
        obtain ⟨a, ha, hname⟩ := hsettles.insisted _ (mem_of_lookup hlookup)
        rw [hnone _ ha rfl] at hname
        cases hname
    handles := by
      intro p hp
      have hseen := hsettles.handles p hp
      exact ⟨hseen, by rw [AliasMap.resolve?, AliasMap.slotOf?, hseen]; rfl⟩ }

/-- The search for a number always comes to an end, and the names that are given are such as the
instances and handles ask for. -/
theorem allocation_serves {r : AliasRequests} (hr : r.WellFormed) :
    (∀ taken table, SearchEnds taken table 1 (numbered taken table)) ∧
      ∀ m, r.allocate = .ok m → m.Serves r :=
  ⟨searchEnds_numbered, fun _ h => serves_of_allocate hr h⟩

/-- A table whose name looks like a numbered one, and a handle that insists on such a name. -/
def persons : AliasRequests where
  numbering := .keepFirst
  tables := ["persons", "persons", "persons1", "authors", "persons"]
  registrations := [(⟨3⟩, ⟨0, some "PERSONS2"⟩), (⟨1⟩, ⟨1, none⟩)]

/-- Derived names make way for a table that is called like a numbered one, and for the name that a
handle insists on. -/
theorem allocation_serves_persons :
    persons.WellFormed ∧
      ∃ m, persons.allocate = .ok m ∧ m.Serves persons ∧
        m.names = ["persons", "persons1", "persons11", "PERSONS2", "persons3"] := by
  have hwell : persons.WellFormed := by
    constructor <;> decide
  have hnames : persons.allocate.toOption.map AliasMap.names =
      some ["persons", "persons1", "persons11", "PERSONS2", "persons3"] := by
    decide +kernel
  cases hallocate : persons.allocate with
  | error e =>
    rw [hallocate] at hnames
    cases hnames
  | ok m =>
    rw [hallocate] at hnames
    exact ⟨hwell, m, rfl, (allocation_serves hwell).2 m hallocate, Option.some.inj hnames⟩

end AliasRequests

end AssociationQuery
