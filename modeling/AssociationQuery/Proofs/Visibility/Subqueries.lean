import AssociationQuery.Proofs.Planning.Walk
import AssociationQuery.Proofs.Visibility.Scopes

/-!
# AssociationQuery.Proofs.Visibility.Subqueries

The table instances of a planned subquery.

Planning a subquery numbers its table instances, and those of the subqueries in it, one
after the other, and hides them all from the rest of the statement: `opens_existence`.
Conditions inside refer to them and to the table that the subquery hangs from,
`within_existence`.
-/

namespace AssociationQuery

/-! ## visible tables -/

/-- Filters on a visible table refer to visible tables. -/
theorem Condition.within_conditionsOn {visible : List Slot} {slot : Slot} (h : slot ∈ visible)
    (es : List Expr) : ∀ c ∈ conditionsOn slot es, c.Within visible := by
  intro c hc
  obtain ⟨e, -, rfl⟩ := List.mem_map.1 hc
  exact .expr h trivial

/-- A join between visible tables refers to visible tables. -/
theorem Join.LinksTo.within {slots visible : List Slot} {j : Join} (h : j.LinksTo slots)
    (hslot : j.slot ∈ visible) (hslots : slots ⊆ visible) : ∀ c ∈ j.on, c.Within visible := by
  obtain ⟨previous, hprevious, columns, es, hon⟩ := h
  rw [hon]
  exact List.forall_mem_cons.2
    ⟨.keys hslot (hslots hprevious), Condition.within_conditionsOn hslot es⟩

mutual

/-- What is visible may grow. -/
theorem Condition.Within.mono {visible visible' : List Slot} (h : visible ⊆ visible') :
    {c : Condition} → c.Within visible → c.Within visible'
  | _, .keys hleft hright => .keys (h hleft) (h hright)
  | _, .expr hslot _ => .expr (h hslot) trivial
  | _, .existence hq => .existence (SubQuery.Within.mono h hq)

theorem SubQuery.Within.mono {visible visible' : List Slot} (h : visible ⊆ visible') :
    {q : SubQuery} → q.Within visible → q.Within visible'
  | _, .mk own joined filtered =>
    have hinside (slots : List Slot) : slots ++ visible ⊆ slots ++ visible' :=
      List.append_subset.2
        ⟨List.subset_append_left .., List.Subset.trans h (List.subset_append_right ..)⟩
    .mk own (fun j hj c hc => Condition.Within.mono (hinside _) (joined j hj c hc))
      (fun c hc => Condition.Within.mono (hinside _) (filtered c hc))

end

/-! ## table instances of subqueries -/

/-- The tables in subqueries of two lists of conditions are those of both. -/
theorem Condition.ownedAll_append (cs ds : List Condition) :
    ownedAll (cs ++ ds) = ownedAll cs ++ ownedAll ds := by
  induction cs with
  | nil => rfl
  | cons c cs ih => rw [List.cons_append, ownedAll, ownedAll, ih, List.append_assoc]

/-- Filters have no subqueries. -/
theorem Condition.ownedAll_conditionsOn (slot : Slot) (es : List Expr) :
    ownedAll (conditionsOn slot es) = [] := by
  induction es with
  | nil => rfl
  | cons e es ih => exact ih

/-- The tables in subqueries of joins are those of each. -/
theorem Join.ownedAll_cons (j : Join) (js : List Join) :
    ownedAll (j :: js) = Condition.ownedAll j.on ++ ownedAll js := by
  cases j
  rw [ownedAll]
  rfl

theorem Join.ownedAll_append (js ks : List Join) :
    ownedAll (js ++ ks) = ownedAll js ++ ownedAll ks := by
  induction js with
  | nil => rfl
  | cons j js ih => rw [List.cons_append, ownedAll_cons, ownedAll_cons, ih, List.append_assoc]

/-- Joins that link tables have no subqueries. -/
theorem Join.ownedAll_of_linksTo {slots : List Slot} {js : List Join}
    (h : ∀ j ∈ js, j.LinksTo slots) : ownedAll js = [] := by
  induction js with
  | nil => rfl
  | cons j js ih =>
    obtain ⟨⟨previous, -, columns, es, hon⟩, hjs⟩ := List.forall_mem_cons.1 h
    rw [ownedAll_cons, hon, Condition.ownedAll, Condition.owned, Condition.ownedAll_conditionsOn,
      ih hjs]
    rfl

namespace Draft

/-- Table instances with the numbers from `next` on. -/
def SlotsFrom (next : Nat) (slots : List Slot) : Prop :=
  slots = (List.range' next slots.length).map Slot.mk

/-- The numbers go on behind the first list. -/
theorem SlotsFrom.append {next : Nat} {slots slots' : List Slot} (h : SlotsFrom next slots)
    (h' : SlotsFrom (next + slots.length) slots') : SlotsFrom next (slots ++ slots') := by
  unfold SlotsFrom at *
  rw [List.length_append, ← List.range'_append_1, List.map_append, ← h, ← h']

/-- Numbered joins are of tables with the numbers from there on. -/
theorem NumberedFrom.slotsFrom {next : Nat} {js : List Join} (h : NumberedFrom next js) :
    SlotsFrom next (js.map Join.slot) := by
  unfold SlotsFrom
  rwa [List.length_map]

/-- The handles of the draft are on table instances of the draft. -/
def HandlesInside (d : Draft) : Prop := ∀ p ∈ d.aliases.registrations, p.1.index < d.next

/-- Registered handles come last. -/
theorem registrations_register (d : Draft) (slot : Slot) (handles : List TableAlias) :
    (d.register slot handles).aliases.registrations =
      d.aliases.registrations ++ handles.map fun a => (slot, a) := by
  simp only [register]
  induction handles generalizing d with
  | nil => exact (List.append_nil _).symm
  | cons a rest ih =>
    rw [List.map_cons, List.append_cons]
    exact ih { d with aliases := d.aliases.attach slot a }

/-- Handles take no numbers. -/
theorem next_register (d : Draft) (slot : Slot) (handles : List TableAlias) :
    (d.register slot handles).next = d.next := by
  rw [next, tables_register, next]

/-- Handles on tables of the draft may be registered. -/
theorem HandlesInside.register {d : Draft} (h : d.HandlesInside) {slot : Slot}
    (hslot : slot.index < d.next) (handles : List TableAlias) :
    (d.register slot handles).HandlesInside := by
  intro p hp
  rw [next_register]
  rw [registrations_register] at hp
  rcases List.mem_append.1 hp with hp | hp
  · exact h p hp
  · obtain ⟨a, -, rfl⟩ := List.mem_map.1 hp
    exact hslot

/-- A step that adds table instances of subqueries and hides them. -/
structure Opens (d d' : Draft) (slots : List Slot) : Prop where
  hidden : d'.hidden = d.hidden ++ slots
  numbered : SlotsFrom d.next slots
  next : d'.next = d.next + slots.length
  handles : d.HandlesInside → d'.HandlesInside

namespace Opens

theorem refl (d : Draft) : Opens d d [] := ⟨(List.append_nil _).symm, rfl, rfl, id⟩

/-- Two steps add the tables of both. -/
theorem trans {d₁ d₂ d₃ : Draft} {slots slots' : List Slot} (h : Opens d₁ d₂ slots)
    (h' : Opens d₂ d₃ slots') : Opens d₁ d₃ (slots ++ slots') where
  hidden := by rw [h'.hidden, h.hidden, List.append_assoc]
  numbered := h.numbered.append (h.next ▸ h'.numbered)
  next := by rw [h'.next, h.next, List.length_append, Nat.add_assoc]
  handles := h'.handles ∘ h.handles

/-- Handles on a table may follow. -/
theorem register {d d' : Draft} {slots : List Slot} (h : Opens d d' slots) {slot : Slot}
    (hslot : slot.index < d'.next) (handles : List TableAlias) :
    Opens d (d'.register slot handles) slots where
  hidden := h.hidden
  numbered := h.numbered
  next := (next_register ..).trans h.next
  handles hd := (h.handles hd).register hslot handles

end Opens

/-- The tables of a subquery have the next numbers. -/
theorem slotsFrom_insideSlots (next : Nat) (route : Route) :
    SlotsFrom next (insideSlots next route) := by
  have hfirst : SlotsFrom next [⟨next⟩] := rfl
  exact hfirst.append (numberedFrom_insideJoins ⟨next⟩ (next + 1) route.rest).slotsFrom

/-- A subquery has a table for each hop. -/
theorem length_insideSlots (next : Nat) (route : Route) :
    (insideSlots next route).length = 1 + route.rest.length := by
  have hlength := congrArg List.length (tables_insideJoins ⟨next⟩ (next + 1) route.rest)
  rw [List.length_map, List.length_map] at hlength
  rw [insideSlots, List.length_cons, List.length_map, hlength, Nat.add_comm]

/-- Entering a subquery adds its tables. -/
theorem opens_enter (d : Draft) (route : Route) :
    Opens d (d.enter route) (insideSlots d.next route) where
  hidden := rfl
  numbered := slotsFrom_insideSlots ..
  next := by rw [next_enter, length_insideSlots, Nat.add_assoc]
  handles hd p hp := Nat.lt_of_lt_of_le (hd p hp) (aside_enter d route).next_le

/-- A subquery has its own tables and those of the subqueries in it. -/
theorem owned_subQuery (next : Nat) (outer : Slot) (route : Route) (filters : List Expr)
    (nested : List Condition) :
    (subQuery next outer route filters nested).owned =
      insideSlots next route ++ Condition.ownedAll nested := by
  have hkeys : (route.first.keys ⟨next⟩ outer).owned = [] := by rw [Hop.keys, Condition.owned]
  rw [subQuery, SubQuery.owned, Join.ownedAll_of_linksTo (linksTo_insideJoins _ _ _),
    List.append_nil, Condition.ownedAll_append, Condition.ownedAll_append, Condition.ownedAll, hkeys,
    Condition.ownedAll_conditionsOn, Condition.ownedAll_conditionsOn]
  rfl

mutual

/-- Planning a subquery adds exactly its table instances. -/
theorem opens_existence : (n : ChainNode) → {outer : Slot} → {d d' : Draft} → {q : SubQuery} →
    d.existence outer n = .ok (q, d') → Opens d d' q.owned
  | ⟨association, key, inclusion, requirement, filters, order, aliases, children⟩,
      outer, d, d', q, h => by
    obtain ⟨route, nested, d₁, -, hnested, rfl, rfl⟩ := existence_eq_ok h
    rw [owned_subQuery]
    have hlast : (insideLast d.next route).index < d₁.next :=
      Nat.lt_of_lt_of_le (index_insideLast_lt d route) (aside_existences children hnested).next_le
    exact ((opens_enter d route).trans (opens_existences children hnested)).register hlast aliases

theorem opens_existences : (nodes : List ChainNode) → {outer : Slot} → {table : Table} →
    {d d' : Draft} → {cs : List Condition} →
    d.existences outer table nodes = .ok (cs, d') → Opens d d' (Condition.ownedAll cs)
  | [], outer, table, d, d', cs, h => by
    obtain ⟨rfl, rfl⟩ : [] = cs ∧ d = d' := by simpa [existences] using h
    exact .refl d
  | n :: rest, outer, table, d, d', cs, h => by
    rw [existences] at h
    split at h
    · simp only [bind_eq_ok, pure_eq_ok, Prod.mk.injEq] at h
      obtain ⟨-, -, ⟨q, d₁⟩, hq, ⟨cs', d₂⟩, hcs', rfl, rfl⟩ := h
      exact (opens_existence n hq).trans (opens_existences rest hcs')
    · exact opens_existences rest h

end

/-! ## places inside a subquery -/

theorem insideLast_mem (next : Nat) (route : Route) :
    insideLast next route ∈ insideSlots next route := Join.lastSlot_mem ..

/-- A subquery refers to its own tables and to the one that it hangs from, if those in it do. -/
theorem within_subQuery {visible : List Slot} {next : Nat} {outer : Slot} (houter : outer ∈ visible)
    (route : Route) (filters : List Expr) {nested : List Condition}
    (hnested : ∀ c ∈ nested, c.Within (insideSlots next route ++ visible)) :
    (subQuery next outer route filters nested).Within visible := by
  have hfirst : ⟨next⟩ ∈ insideSlots next route ++ visible :=
    List.mem_append_left _ List.mem_cons_self
  have hlast : insideLast next route ∈ insideSlots next route ++ visible :=
    List.mem_append_left _ (insideLast_mem next route)
  refine .mk rfl (fun j hj => ?_) ?_
  · have hslot : j.slot ∈ insideSlots next route :=
      List.mem_cons_of_mem _ (List.mem_map_of_mem hj)
    exact (linksTo_insideJoins _ _ _ j hj).within (List.mem_append_left _ hslot)
      (List.subset_append_left ..)
  · refine List.forall_mem_append.2 ⟨List.forall_mem_append.2 ⟨List.forall_mem_cons.2 ⟨?_, ?_⟩, ?_⟩,
      hnested⟩
    · exact .keys hfirst (List.mem_append_right _ houter)
    · exact Condition.within_conditionsOn hfirst _
    · exact Condition.within_conditionsOn hlast _

mutual

/-- A planned subquery refers to its own tables and to those that are visible around it. -/
theorem within_existence : (n : ChainNode) → {outer : Slot} → {d d' : Draft} → {q : SubQuery} →
    d.existence outer n = .ok (q, d') → {visible : List Slot} → outer ∈ visible → q.Within visible
  | ⟨association, key, inclusion, requirement, filters, order, aliases, children⟩,
      outer, d, d', q, h, visible, houter => by
    obtain ⟨route, nested, d₁, -, hnested, rfl, -⟩ := existence_eq_ok h
    exact within_subQuery houter route filters
      (within_existences children hnested (List.mem_append_left _ (insideLast_mem d.next route)))

theorem within_existences : (nodes : List ChainNode) → {outer : Slot} → {table : Table} →
    {d d' : Draft} → {cs : List Condition} → d.existences outer table nodes = .ok (cs, d') →
    {visible : List Slot} → outer ∈ visible → ∀ c ∈ cs, c.Within visible
  | [], outer, table, d, d', cs, h, visible, houter => by
    obtain ⟨rfl, -⟩ : [] = cs ∧ d = d' := by simpa [existences] using h
    exact List.forall_mem_nil _
  | n :: rest, outer, table, d, d', cs, h, visible, houter => by
    rw [existences] at h
    split at h
    · simp only [bind_eq_ok, pure_eq_ok, Prod.mk.injEq] at h
      obtain ⟨-, -, ⟨q, d₁⟩, hq, ⟨cs', d₂⟩, hcs', rfl, -⟩ := h
      exact List.forall_mem_cons.2
        ⟨.existence (within_existence n hq houter), within_existences rest hcs' houter⟩
    · exact within_existences rest h houter

end

end Draft

end AssociationQuery
