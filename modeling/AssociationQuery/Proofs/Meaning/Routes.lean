import AssociationQuery.Proofs.Meaning.Existence

/-!
# AssociationQuery.Proofs.Meaning.Routes

What the joins along a route ask of the rows of their tables.

The joins of a route can be met exactly if the hops of the route lead from the row
before them to the row of the last one, and the joins back from its end exactly if
the hops lead back.
-/

namespace AssociationQuery

namespace Draft

variable {db : Database}

/-- Joins can be met if the first is met by a row and the others can be met from there on. -/
theorem exists_met_cons {next : Nat} {previous : Slot} {j : Join} {js : List Join}
    {env : Assignment} {r target : TableRow} (hslot : j.slot = ⟨next⟩)
    (hj : ∀ ρ, AgreeBelow next env ρ → ρ ⟨next⟩ = r → j.Met db ρ)
    (hjs : ∀ env', env' ⟨next⟩ = r → ∃ ρ, AgreeBelow (next + 1) env' ρ ∧
      (∀ k ∈ js, k.Met db ρ) ∧ ρ (Join.lastSlot ⟨next⟩ js) = target) :
    ∃ ρ, AgreeBelow next env ρ ∧ (∀ k ∈ j :: js, k.Met db ρ) ∧
      ρ (Join.lastSlot previous (j :: js)) = target := by
  have hself : Function.update env ⟨next⟩ r ⟨next⟩ = r := Function.update_self ..
  obtain ⟨ρ, hagree, hmet, hlast⟩ := hjs _ hself
  have hbelow : AgreeBelow next env ρ :=
    (agreeBelow_update next env r).trans hagree (Nat.le_succ next)
  have hrow : ρ ⟨next⟩ = r := (hagree ⟨next⟩ (Nat.lt_succ_self next)).trans hself
  have hall : ∀ k ∈ j :: js, k.Met db ρ := List.forall_mem_cons.2 ⟨hj ρ hbelow hrow, hmet⟩
  have hend : ρ (Join.lastSlot j.slot js) = target := by rw [hslot, hlast]
  exact ⟨ρ, hbelow, hall, hend⟩

/-- Where the joins of a route are met, its hops lead. -/
theorem leadsAll_of_met {left : Bool} {refine : List Expr} {previous : Slot} {next : Nat} {h : Hop}
    {rest : List Hop} {ρ : Assignment}
    (hmet : ∀ j ∈ hopJoins left refine previous next h rest, j.Met db ρ) :
    let target := ρ (Join.lastSlot previous (hopJoins left refine previous next h rest))
    Hop.LeadsAll db (h :: rest) (ρ previous) target ∧
      ∀ e ∈ refine, db.holds e target = some true := by
  induction rest generalizing left previous next h with
  | nil =>
    obtain ⟨hkeys, hstands, hrefine⟩ := met_hop.1 (hmet _ List.mem_cons_self)
    exact ⟨Hop.leadsAll_single.2 ⟨truth_keys.1 hkeys, hstands⟩, hrefine⟩
  | cons g gs ih =>
    obtain ⟨hhead, hrest⟩ := List.forall_mem_cons.1 hmet
    obtain ⟨hkeys, hstands⟩ := met_hop_plain.1 hhead
    obtain ⟨hleads, hrefine⟩ := ih hrest
    exact ⟨⟨ρ ⟨next⟩, truth_keys.1 hkeys, hstands, hleads⟩, hrefine⟩

/-- Where hops lead, the joins of the route can be met. -/
theorem exists_met_hopJoins {left : Bool} {refine : List Expr} {previous : Slot} {next : Nat}
    {h : Hop} {rest : List Hop} {env : Assignment} {target : TableRow}
    (hp : previous.index < next) (hleads : Hop.LeadsAll db (h :: rest) (env previous) target)
    (hrefine : ∀ e ∈ refine, db.holds e target = some true) :
    ∃ ρ, AgreeBelow next env ρ ∧
      (∀ j ∈ hopJoins left refine previous next h rest, j.Met db ρ) ∧
      ρ (Join.lastSlot previous (hopJoins left refine previous next h rest)) = target := by
  -- along the hops: the row a hop leads to goes into its slot, which those before do not read
  induction rest generalizing left previous next h env with
  | nil =>
    obtain ⟨hlinked, hstands⟩ := Hop.leadsAll_single.1 hleads
    refine exists_met_cons rfl (fun ρ hagree hrow => met_hop.2 ?_)
      fun env' hrow => ⟨env', .refl _ _, nofun, hrow⟩
    rw [truth_keys, hagree previous hp]
    exact hrow.symm ▸ ⟨hlinked, hstands, hrefine⟩
  | cons g gs ih =>
    obtain ⟨r, hlinked, hstands, hrest⟩ := hleads
    refine exists_met_cons rfl (fun ρ hagree hrow => met_hop_plain.2 ?_)
      fun env' hrow => ih (Nat.lt_succ_self next) (hrow.symm ▸ hrest)
    rw [truth_keys, hagree previous hp]
    exact hrow.symm ▸ ⟨hlinked, hstands⟩

/-- Where the joins back are met, the hops lead back. -/
theorem leadsBack_of_met {previous : Slot} {later : Hop} {next : Nat} {hs : List Hop}
    {ρ : Assignment} (hmet : ∀ j ∈ backJoins previous later next hs, j.Met db ρ) :
    Hop.LeadsBack db later (ρ previous) hs
      (ρ (Join.lastSlot previous (backJoins previous later next hs))) := by
  induction hs generalizing previous later next with
  | nil => rfl
  | cons h rest ih =>
    obtain ⟨hhead, hrest⟩ := List.forall_mem_cons.1 hmet
    obtain ⟨hkeys, hstands⟩ := met_hop_plain.1 hhead
    exact ⟨ρ ⟨next⟩, truth_keys_back.1 hkeys, hstands, ih hrest⟩

/-- Where hops lead back, the joins back can be met. -/
theorem exists_met_backJoins {previous : Slot} {later : Hop} {next : Nat} {hs : List Hop}
    {env : Assignment} {first : TableRow} (hp : previous.index < next)
    (hleads : Hop.LeadsBack db later (env previous) hs first) :
    ∃ ρ, AgreeBelow next env ρ ∧ (∀ j ∈ backJoins previous later next hs, j.Met db ρ) ∧
      ρ (Join.lastSlot previous (backJoins previous later next hs)) = first := by
  induction hs generalizing previous later next env with
  | nil => exact ⟨env, .refl _ _, nofun, hleads.symm⟩
  | cons h rest ih =>
    obtain ⟨r, hlinked, hstands, hrest⟩ := hleads
    refine exists_met_cons rfl (fun ρ hagree hrow => met_hop_plain.2 ?_)
      fun env' hrow => ih (Nat.lt_succ_self next) (hrow.symm ▸ hrest)
    rw [truth_keys_back, hagree previous hp]
    exact hrow.symm ▸ ⟨hlinked, hstands⟩

end Draft

end AssociationQuery
