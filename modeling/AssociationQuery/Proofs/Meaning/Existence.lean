import AssociationQuery.Proofs.Meaning.Associations
import AssociationQuery.Proofs.Planning.Walk

/-!
# AssociationQuery.Proofs.Meaning.Existence

What the existence conditions of a plan mean.

The subquery for a node looks along the node's route, starting from the table that
it hangs from; `finds_existence` says that it finds a row exactly if the node, as a
required one, lets the row of that table through.
-/

namespace AssociationQuery

namespace Draft

/-- The two assignments agree on the table instances numbered below a bound. -/
def AgreeBelow (n : Nat) (env env' : Assignment) : Prop := ∀ s : Slot, s.index < n → env' s = env s

theorem AgreeBelow.refl (n : Nat) (env : Assignment) : AgreeBelow n env env := fun _ _ => rfl

/-- Combinations agree as far as both agreements reach. -/
theorem AgreeBelow.trans {m n : Nat} {env₁ env₂ env₃ : Assignment} (h : AgreeBelow m env₁ env₂)
    (h' : AgreeBelow n env₂ env₃) (hle : m ≤ n) : AgreeBelow m env₁ env₃ :=
  fun s hs => (h' s (Nat.lt_of_lt_of_le hs hle)).trans (h s hs)

/-- A row for a later table changes nothing below. -/
theorem agreeBelow_update (n : Nat) (env : Assignment) (r : TableRow) :
    AgreeBelow n env (Function.update env ⟨n⟩ r) := by
  intro s hs
  have hne : s ≠ ⟨n⟩ := by
    intro heq
    subst heq
    exact Nat.lt_irrefl _ hs
  exact Function.update_of_ne hne _ _

/-! ## joins of a subquery -/

/-- What the joins of a subquery find is what the hops lead to. -/
theorem leadsAll_of_mem_insideJoins {db : Database} {previous : Slot} {next : Nat}
    (hp : previous.index < next) (hs : List Hop) {env env' : Assignment}
    (h : env' ∈ Join.extendAll db (insideJoins previous next hs) env) :
    AgreeBelow next env env' ∧
      Hop.LeadsAll db hs (env' previous)
        (env' (Join.lastSlot previous (insideJoins previous next hs))) := by
  -- along the hops: later joins fill later slots, so what was linked stays linked
  induction hs generalizing previous next env with
  | nil =>
    obtain rfl : env' = env := by simpa [insideJoins, Join.extendAll] using h
    exact ⟨.refl _ _, rfl⟩
  | cons g rest ih =>
    simp only [insideJoins, Join.extendAll, List.mem_flatMap] at h
    obtain ⟨env₁, h₁, h'⟩ := h
    obtain ⟨r, rfl, hmet⟩ := (Join.mem_extend_inner rfl).1 h₁
    obtain ⟨hagree, hleads⟩ := ih (Nat.lt_succ_self next) h'
    obtain ⟨hkeys, hstands⟩ := met_hop_plain.1 hmet
    rw [truth_keys, ← hagree ⟨next⟩ (Nat.lt_succ_self next),
      ← hagree previous (Nat.lt_succ_of_lt hp)] at hkeys
    rw [← hagree ⟨next⟩ (Nat.lt_succ_self next)] at hstands
    exact ⟨(agreeBelow_update next env r).trans hagree (Nat.le_succ next),
      env' ⟨next⟩, hkeys, hstands, hleads⟩

/-- Whatever the hops lead to is found by the joins of a subquery. -/
theorem exists_mem_insideJoins {db : Database} {previous : Slot} {next : Nat}
    (hp : previous.index < next) {hs : List Hop} {env : Assignment} {target : TableRow}
    (h : Hop.LeadsAll db hs (env previous) target) :
    ∃ env' ∈ Join.extendAll db (insideJoins previous next hs) env,
      AgreeBelow next env env' ∧
        env' (Join.lastSlot previous (insideJoins previous next hs)) = target := by
  -- along the hops, with the row of the hop put into the next slot
  induction hs generalizing previous next env with
  | nil => exact ⟨env, by simp [insideJoins, Join.extendAll], .refl _ _, h⟩
  | cons g rest ih =>
    obtain ⟨r, hlinked, hstands, hrest⟩ := h
    have hupdate := agreeBelow_update next env r
    have hself : Function.update env ⟨next⟩ r ⟨next⟩ = r := Function.update_self ..
    obtain ⟨env', hmem, hagree, hlast⟩ :=
      ih (Nat.lt_succ_self next) (hself.symm ▸ hrest)
    have hkeys : (g.keys ⟨next⟩ previous).truth db (Function.update env ⟨next⟩ r) =
        some true := by
      rw [truth_keys, hself, hupdate previous hp]
      exact hlinked
    have hmet := (Join.mem_extend_inner rfl).2
      ⟨r, rfl, met_hop_plain.2 ⟨hkeys, hself.symm ▸ hstands⟩⟩
    rw [insideJoins, Join.extendAll]
    exact ⟨env', List.mem_flatMap.2 ⟨_, hmet, hmem⟩, hupdate.trans hagree (Nat.le_succ next), hlast⟩

/-! ## subqueries -/

/-- A subquery finds a row exactly if the route leads to one that meets the other conditions. -/
theorem finds_subQuery {db : Database} {next : Nat} {outer : Slot} (hout : outer.index < next)
    {route : Route} {filters : List Expr} {nested : List Condition} {P : TableRow → Prop}
    (hnested : ∀ env, (∀ c ∈ nested, c.truth db env = some true) ↔
      P (env (insideLast next route))) (env : Assignment) :
    (subQuery next outer route filters nested).finds db env ↔
      ∃ target, Hop.LeadsAll db route.hops (env outer) target ∧
        (∀ e ∈ filters, db.holds e target = some true) ∧ P target := by
  have hfirst (r : TableRow) : Function.update env ⟨next⟩ r ⟨next⟩ = r := Function.update_self ..
  -- the WHERE clause holds the link to the row outside and the filters of the first hop and the
  -- target; the other hops are joins
  have hmeets (env' : Assignment) :
      (∀ c ∈ route.first.keys ⟨next⟩ outer :: conditionsOn ⟨next⟩ route.first.filters ++
        conditionsOn (insideLast next route) filters ++ nested, c.truth db env' = some true) ↔
      route.first.Linked db (env' outer) (env' ⟨next⟩) ∧
        ((∀ e ∈ route.first.filters, db.holds e (env' ⟨next⟩) = some true) ∧
          ∀ e ∈ filters, db.holds e (env' (insideLast next route)) = some true) ∧
        P (env' (insideLast next route)) := by
    rw [List.cons_append, List.cons_append, List.forall_mem_cons, List.forall_mem_append,
      List.forall_mem_append, truth_keys, truth_conditionsOn, truth_conditionsOn, hnested]
  rw [subQuery, SubQuery.finds_iff]
  constructor
  · intro h
    obtain ⟨row, hrow, env', hmem, hconditions⟩ := h
    obtain ⟨hagree, hleads⟩ := leadsAll_of_mem_insideJoins (Nat.lt_succ_self next) route.rest hmem
    have hhead : env' ⟨next⟩ = ⟨route.first.destination, row⟩ :=
      (hagree ⟨next⟩ (Nat.lt_succ_self next)).trans (hfirst _)
    have houter : env' outer = env outer :=
      (hagree outer (Nat.lt_succ_of_lt hout)).trans (agreeBelow_update next env _ outer hout)
    obtain ⟨hlinked, ⟨hown, hfilters⟩, hP⟩ := (hmeets env').1 hconditions
    rw [houter] at hlinked
    have hstands : route.first.Stands db (env' ⟨next⟩) := by
      rw [hhead] at hown ⊢
      exact ⟨rfl, hrow, hown⟩
    exact ⟨_, ⟨env' ⟨next⟩, hlinked, hstands, hleads⟩, hfilters, hP⟩
  · intro h
    obtain ⟨target, ⟨r, hlinked, hstands, hrest⟩, hfilters, hP⟩ := h
    obtain ⟨env', hmem, hagree, hlast⟩ :=
      exists_mem_insideJoins (Nat.lt_succ_self next) (hfirst r ▸ hrest)
    have hhead : env' ⟨next⟩ = r := (hagree ⟨next⟩ (Nat.lt_succ_self next)).trans (hfirst r)
    have houter : env' outer = env outer :=
      (hagree outer (Nat.lt_succ_of_lt hout)).trans (agreeBelow_update next env _ outer hout)
    have hconditions := (hmeets env').2 (by
      rw [houter, hhead, insideLast, hlast]
      exact ⟨hlinked, ⟨hstands.filters, hfilters⟩, hP⟩)
    exact ⟨r.values, hstands.row, env', hstands.table ▸ hmem, hconditions⟩

mutual

/-- The subquery for a node finds a row exactly if the node lets the outer row through. -/
theorem finds_existence {db : Database} : (n : ChainNode) → {outer : Slot} → {d d' : Draft} →
    {q : SubQuery} → d.existence outer n = .ok (q, d') → outer.index < d.next →
    (env : Assignment) → (q.finds db env ↔ n.Satisfied db (env outer))
  | ⟨association, key, inclusion, requirement, filters, order, aliases, children⟩,
      outer, d, d', q, h, hout, env => by
    obtain ⟨route, nested, d₁, hroute, hnested, rfl, -⟩ := existence_eq_ok h
    have hbelow (env : Assignment) : (∀ c ∈ nested, c.truth db env = some true) ↔
        ChainNode.SatisfiedAll db children (env (insideLast d.next route)) :=
      truth_existences children hnested (index_insideLast_lt d route) env
    rw [finds_subQuery hout hbelow, ChainNode.satisfied_iff]
    constructor
    · intro h
      obtain ⟨target, htarget⟩ := h
      exact ⟨route, target, routeFor_of_plainRoute hroute, htarget⟩
    · intro h
      obtain ⟨route', target, hroute', htarget⟩ := h
      obtain rfl : route = route' :=
        Except.ok.inj ((routeFor_of_plainRoute hroute).symm.trans hroute')
      exact ⟨target, htarget⟩

theorem truth_existences {db : Database} : (nodes : List ChainNode) → {outer : Slot} →
    {table : Table} → {d d' : Draft} → {cs : List Condition} →
    d.existences outer table nodes = .ok (cs, d') → outer.index < d.next →
    (env : Assignment) →
    ((∀ c ∈ cs, c.truth db env = some true) ↔ ChainNode.SatisfiedAll db nodes (env outer))
  | [], outer, table, d, d', cs, h, hout, env => by
    obtain ⟨rfl, -⟩ : [] = cs ∧ d = d' := by simpa [existences] using h
    simp [ChainNode.SatisfiedAll]
  | n :: rest, outer, table, d, d', cs, h, hout, env => by
    rw [existences] at h
    rw [ChainNode.SatisfiedAll]
    split at h
    · next hreq =>
      simp only [bind_eq_ok, pure_eq_ok, Prod.mk.injEq] at h
      obtain ⟨-, -, ⟨q, d₁⟩, hq, ⟨cs', d₂⟩, hcs', rfl, -⟩ := h
      have hlt : outer.index < d₁.next :=
        Nat.lt_of_lt_of_le hout (aside_existence n hq).next_le
      rw [List.forall_mem_cons, truth_existences rest hcs' hlt, Condition.truth,
        Option.some.injEq, finds_existence n hq hout]
      simp [hreq]
    · next hreq =>
      rw [truth_existences rest h hout]
      simp [hreq]

end

end Draft

end AssociationQuery
