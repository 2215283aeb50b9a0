import AssociationQuery.Proofs.Meaning.Semantics
import AssociationQuery.Proofs.Visibility.Subqueries
import AssociationQuery.Proofs.Visibility.Terms

/-!
# AssociationQuery.Proofs.Meaning.Handles

What statements mean whose expressions read other tables through handles.

A linked database also knows what an expression says when it reads rows of other tables.
Nothing changes for expressions without handles, `Condition.truthIn_eq`.  A condition depends
on the rows of the tables that it refers to and of those that its handles stand for:
combinations that agree elsewhere than on tables that are not referred to stay alike,
`Join.extendAllIn_congr`.
-/

namespace AssociationQuery

open Truth (conj)

structure LinkedDatabase extends Database where
  /-- What an expression says of a row of the table that it is attached to, given the rows that
  handles stand for. -/
  tells : Expr → (TableAlias → Option TableRow) → TableRow → Option Bool
  tells_congr {e : Expr} {f g : TableAlias → Option TableRow} (r : TableRow)
    (h : ∀ a ∈ e.handles, f a = g a) : tells e f r = tells e g r
  tells_eq_holds {e : Expr} (f : TableAlias → Option TableRow) (r : TableRow)
    (h : e.handles = []) : tells e f r = holds e r

/-- The row that a handle stands for in a combination. -/
def AliasMap.row? (m : AliasMap) (env : Assignment) (a : TableAlias) : Option TableRow :=
  (m.slotOf? a).map env

/-- The row of a handle depends on the row of its table. -/
theorem AliasMap.row?_congr {m : AliasMap} {a : TableAlias} {env env' : Assignment}
    (h : ∀ slot, m.slotOf? a = some slot → env slot = env' slot) :
    m.row? env a = m.row? env' a := by
  cases hslot : m.slotOf? a with
  | none => simp only [row?, hslot, Option.map_none]
  | some slot => simp only [row?, hslot, Option.map_some, h slot hslot]

/-! ## conditions and joins -/

/-- The combinations that match or, where a left join has none, the one without a row. -/
def JoinKind.completed (k : JoinKind) (unmatched : Assignment) :
    List Assignment → List Assignment
  | [] => if k = .left then [unmatched] else []
  | env :: envs => env :: envs

mutual

def Condition.truthIn (db : LinkedDatabase) (m : AliasMap) :
    Condition → Assignment → Option Bool
  | .keys l r columns, env => keysMatch db.toDatabase columns (env l) (env r)
  | .expr e slot, env => db.tells e (m.row? env) (env slot)
  | .existence q, env => some (SubQuery.findsIn db m q env)

def Condition.truthAllIn (db : LinkedDatabase) (m : AliasMap) :
    List Condition → Assignment → List (Option Bool)
  | [], _ => []
  | c :: cs, env => Condition.truthIn db m c env :: Condition.truthAllIn db m cs env

/-- What becomes of a combination of rows. -/
def Join.extendIn (db : LinkedDatabase) (m : AliasMap) : Join → Assignment → List Assignment
  | .mk kind slot table on, env =>
    let found := (db.rows table.name).map fun row => Function.update env slot ⟨table, row⟩
    kind.completed (Function.update env slot (.absent table))
      (found.filter fun env => conj (Condition.truthAllIn db m on env) = some true)

def Join.extendAllIn (db : LinkedDatabase) (m : AliasMap) :
    List Join → Assignment → List Assignment
  | [], env => [env]
  | j :: js, env => (Join.extendIn db m j env).flatMap fun env => Join.extendAllIn db m js env

/-- Is there a row? -/
def SubQuery.findsIn (db : LinkedDatabase) (m : AliasMap) : SubQuery → Assignment → Bool
  | .mk slot _ table joins conditions, env =>
    (db.rows table.name).any fun row =>
      (Join.extendAllIn db m joins (Function.update env slot ⟨table, row⟩)).any fun env =>
        conj (Condition.truthAllIn db m conditions env) = some true

end

/-- A join extends a combination by the rows that meet it or, as a left join, by none. -/
theorem Join.extend_eq (db : Database) (kind : JoinKind) (slot : Slot) (table : Table)
    (on : List Condition) (env : Assignment) :
    (Join.mk kind slot table on).extend db env =
      kind.completed (Function.update env slot (.absent table))
        (((db.rows table.name).map fun row => Function.update env slot ⟨table, row⟩).filter
          fun env => conj (Condition.truthAll db on env) = some true) := by
  simp only [extend]
  generalize List.filter _ _ = matching
  cases kind <;> cases matching <;> rfl

mutual

/-- Without handles everything is as in the database that knows nothing of them. -/
theorem Condition.truthIn_eq {db : LinkedDatabase} {m : AliasMap} : (c : Condition) →
    (∀ e ∈ c.terms, e.handles = []) → c.truthIn db m = c.truth db.toDatabase
  | .keys .., h => by
    funext env
    rw [Condition.truthIn, Condition.truth]
  | .expr e slot, h => by
    rw [Condition.terms] at h
    funext env
    rw [Condition.truthIn, Condition.truth]
    exact db.tells_eq_holds _ _ (h e (List.mem_singleton_self e))
  | .existence q, h => by
    rw [Condition.terms] at h
    funext env
    rw [Condition.truthIn, Condition.truth, SubQuery.findsIn_eq q h]

theorem Condition.truthAllIn_eq {db : LinkedDatabase} {m : AliasMap} : (cs : List Condition) →
    (∀ e ∈ Condition.termsAll cs, e.handles = []) →
    Condition.truthAllIn db m cs = Condition.truthAll db.toDatabase cs
  | [], h => by
    funext env
    rw [Condition.truthAllIn, Condition.truthAll]
  | c :: cs, h => by
    rw [Condition.termsAll, List.forall_mem_append] at h
    funext env
    rw [Condition.truthAllIn, Condition.truthAll, Condition.truthIn_eq c h.1,
      Condition.truthAllIn_eq cs h.2]

theorem Join.extendAllIn_eq {db : LinkedDatabase} {m : AliasMap} : (js : List Join) →
    (∀ e ∈ Join.termsAll js, e.handles = []) →
    Join.extendAllIn db m js = Join.extendAll db.toDatabase js
  | [], h => by
    funext env
    rw [Join.extendAllIn, Join.extendAll]
  | .mk kind slot table on :: js, h => by
    rw [Join.termsAll, List.forall_mem_append] at h
    funext env
    rw [Join.extendAllIn, Join.extendAll, Join.extendIn, Join.extend_eq,
      Condition.truthAllIn_eq on h.1, Join.extendAllIn_eq js h.2]

theorem SubQuery.findsIn_eq {db : LinkedDatabase} {m : AliasMap} : (q : SubQuery) →
    (∀ e ∈ q.terms, e.handles = []) → q.findsIn db m = q.finds db.toDatabase
  | .mk slot slots table joins conditions, h => by
    rw [SubQuery.terms, List.forall_mem_append] at h
    funext env
    rw [SubQuery.findsIn, SubQuery.finds, Join.extendAllIn_eq joins h.1,
      Condition.truthAllIn_eq conditions h.2]

end

/-- A conjunction of conditions is true if each of them is. -/
theorem conj_truthAllIn {db : LinkedDatabase} {m : AliasMap} {cs : List Condition}
    {env : Assignment} :
    conj (Condition.truthAllIn db m cs env) = some true ↔
      ∀ c ∈ cs, c.truthIn db m env = some true := by
  induction cs with
  | nil => simp [Condition.truthAllIn, Truth.conj]
  | cons c cs ih =>
    rw [Condition.truthAllIn, Truth.conj, List.foldr_cons, ← Truth.conj, Truth.and_eq_true, ih,
      List.forall_mem_cons]

namespace JoinKind

/-- A completed list has the combination without a row, or those that it had. -/
theorem mem_completed {k : JoinKind} {unmatched env : Assignment} {envs : List Assignment}
    (h : env ∈ k.completed unmatched envs) : env = unmatched ∨ env ∈ envs := by
  cases envs with
  | nil =>
    rw [completed] at h
    split at h
    · exact .inl (List.mem_singleton.1 h)
    · cases h
  | cons => exact .inr h

/-- A left join drops no combination. -/
theorem completed_left_ne_nil (unmatched : Assignment) (envs : List Assignment) :
    left.completed unmatched envs ≠ [] := by
  cases envs <;> exact List.cons_ne_nil _ _

/-- Completing related lists gives related lists. -/
theorem forall₂_completed {R : Assignment → Assignment → Prop} (k : JoinKind)
    {unmatched unmatched' : Assignment} (hunmatched : R unmatched unmatched')
    {envs envs' : List Assignment} (h : List.Forall₂ R envs envs') :
    List.Forall₂ R (k.completed unmatched envs) (k.completed unmatched' envs') := by
  cases h with
  | nil =>
    rw [completed, completed]
    split
    · exact .cons hunmatched .nil
    · exact .nil
  | cons hd tl => exact .cons hd tl

end JoinKind

namespace Join

variable {db : LinkedDatabase} {m : AliasMap}

/-- A join adds a row for its own table, no other. -/
theorem exists_of_mem_extendIn {j : Join} {env env' : Assignment}
    (h : env' ∈ j.extendIn db m env) : ∃ r, env' = Function.update env j.slot r := by
  obtain ⟨kind, slot, table, on⟩ := j
  rw [extendIn] at h
  rcases JoinKind.mem_completed h with rfl | h
  · exact ⟨_, rfl⟩
  · obtain ⟨row, -, rfl⟩ := List.mem_map.1 (List.mem_of_mem_filter h)
    exact ⟨_, rfl⟩

/-- Joins change the rows of their own tables only. -/
theorem eq_of_mem_extendAllIn {js : List Join} {env env' : Assignment}
    (h : env' ∈ extendAllIn db m js env) {s : Slot} (hs : s ∉ js.map slot) : env' s = env s := by
  induction js generalizing env with
  | nil =>
    rw [extendAllIn, List.mem_singleton] at h
    rw [h]
  | cons j js ih =>
    rw [List.map_cons, List.mem_cons, not_or] at hs
    rw [extendAllIn, List.mem_flatMap] at h
    obtain ⟨env₁, h₁, h'⟩ := h
    obtain ⟨r, rfl⟩ := exists_of_mem_extendIn h₁
    rw [ih h' hs.2, Function.update_of_ne hs.1]

/-- Joins in a row extend what the first ones have made. -/
theorem extendAllIn_append (js ks : List Join) (env : Assignment) :
    extendAllIn db m (js ++ ks) env = (extendAllIn db m js env).flatMap (extendAllIn db m ks) := by
  induction js generalizing env with
  | nil => simp [extendAllIn]
  | cons j js ih =>
    rw [List.cons_append, extendAllIn, extendAllIn, List.flatMap_assoc]
    simp only [ih]

/-- Left joins drop no combination. -/
theorem extendAllIn_ne_nil {js : List Join} (h : ∀ j ∈ js, j.kind = .left) (env : Assignment) :
    extendAllIn db m js env ≠ [] := by
  induction js generalizing env with
  | nil => simp [extendAllIn]
  | cons j js ih =>
    obtain ⟨hj, hjs⟩ := List.forall_mem_cons.1 h
    obtain ⟨kind, slot, table, on⟩ := j
    obtain rfl : kind = .left := hj
    obtain ⟨env', henv'⟩ := List.exists_mem_of_ne_nil _ (JoinKind.completed_left_ne_nil
      (Function.update env slot (.absent table)) (((db.rows table.name).map fun row =>
        Function.update env slot ⟨table, row⟩).filter fun env =>
          conj (Condition.truthAllIn db m on env) = some true))
    obtain ⟨last, hlast⟩ := List.exists_mem_of_ne_nil _ (ih hjs env')
    refine List.ne_nil_of_mem (a := last) ?_
    rw [extendAllIn, extendIn]
    exact List.mem_flatMap.2 ⟨env', henv', hlast⟩

end Join

/-! ## tables that are not referred to -/

/-- The combinations have the same rows in all tables but the given ones. -/
def AgreeOff (hidden : List Slot) (env env' : Assignment) : Prop := ∀ s ∉ hidden, env s = env' s

/-- The same row may be set in both. -/
theorem AgreeOff.update {hidden : List Slot} {env env' : Assignment} (h : AgreeOff hidden env env')
    (slot : Slot) (r : TableRow) :
    AgreeOff hidden (Function.update env slot r) (Function.update env' slot r) := by
  intro s hs
  by_cases heq : s = slot
  · rw [heq, Function.update_self, Function.update_self]
  · rw [Function.update_of_ne heq, Function.update_of_ne heq, h s hs]

/-- No handle of the expression stands for one of the tables. -/
def Expr.Avoids (m : AliasMap) (hidden : List Slot) (e : Expr) : Prop :=
  ∀ a ∈ e.handles, ∀ slot ∈ hidden, m.slotOf? a ≠ some slot

section congr

variable {db : LinkedDatabase} {m : AliasMap} {hidden : List Slot}

/-- Rows of tables that an expression avoids change nothing in what it says. -/
theorem LinkedDatabase.tells_of_agreeOff {e : Expr} (he : e.Avoids m hidden) {env env' : Assignment}
    (h : AgreeOff hidden env env') (r : TableRow) :
    db.tells e (m.row? env) r = db.tells e (m.row? env') r := by
  refine db.tells_congr r fun a ha => AliasMap.row?_congr fun slot hslot => ?_
  exact h slot fun hmem => he a ha slot hmem hslot

/-- Combinations that agree are prolonged in the same ways if the join's condition does not tell
them apart. -/
theorem Join.extendIn_congr (kind : JoinKind) (slot : Slot) (table : Table) {on : List Condition}
    (hon : ∀ env env', AgreeOff hidden env env' →
      Condition.truthAllIn db m on env = Condition.truthAllIn db m on env')
    {env env' : Assignment} (h : AgreeOff hidden env env') :
    List.Forall₂ (AgreeOff hidden) ((Join.mk kind slot table on).extendIn db m env)
      ((Join.mk kind slot table on).extendIn db m env') := by
  have hfound : List.Forall₂ (AgreeOff hidden)
      ((db.rows table.name).map fun row => Function.update env slot ⟨table, row⟩)
      ((db.rows table.name).map fun row => Function.update env' slot ⟨table, row⟩) := by
    rw [List.forall₂_map_left_iff, List.forall₂_map_right_iff, List.forall₂_same]
    exact fun row _ => h.update slot _
  have hmatching := List.rel_filter (R := AgreeOff hidden)
    (p := fun env => conj (Condition.truthAllIn db m on env) = some true)
    (q := fun env => conj (Condition.truthAllIn db m on env) = some true)
    (fun env env' h => by simp only [hon env env' h]) hfound
  rw [extendIn, extendIn]
  exact kind.forall₂_completed (h.update slot _) hmatching

/-- Whether some element passes a test is the same for related lists. -/
theorem any_congr_of_forall₂ {R : α → β → Prop} {p : α → Bool} {q : β → Bool} {xs : List α}
    {ys : List β} (h : List.Forall₂ R xs ys) (hR : ∀ x y, R x y → p x = q y) :
    xs.any p = ys.any q := by
  induction h with
  | nil => rfl
  | cons hd _ ih => rw [List.any_cons, List.any_cons, hR _ _ hd, ih]

mutual

/-- A condition that avoids the hidden tables is as true for combinations that agree elsewhere. -/
theorem Condition.truthIn_congr : (c : Condition) → {visible : List Slot} →
    c.Within visible → (∀ e ∈ c.terms, e.Avoids m hidden) →
    (∀ s ∈ hidden, s ∉ visible ++ c.owned) → {env env' : Assignment} →
    AgreeOff hidden env env' → c.truthIn db m env = c.truthIn db m env'
  -- by the condition: it reads slots that can be seen, and a hidden one is none of them
  | .keys l r columns, visible, hc, _, hhidden, env, env', h => by
    cases hc with
    | keys hl hr =>
      have hshown : ∀ s ∈ visible, env s = env' s := fun s hs =>
        h s fun hmem => hhidden s hmem (List.mem_append_left _ hs)
      rw [Condition.truthIn, Condition.truthIn, hshown l hl, hshown r hr]
  | .expr e slot, visible, hc, hterms, hhidden, env, env', h => by
    cases hc with
    | expr hslot =>
      have hsame : env slot = env' slot :=
        h slot fun hmem => hhidden slot hmem (List.mem_append_left _ hslot)
      rw [Condition.terms] at hterms
      rw [Condition.truthIn, Condition.truthIn, hsame]
      exact db.tells_of_agreeOff (hterms e (List.mem_singleton_self e)) h _
  | .existence q, visible, hc, hterms, hhidden, env, env', h => by
    cases hc with
    | existence hq =>
      rw [Condition.terms] at hterms
      rw [Condition.owned] at hhidden
      rw [Condition.truthIn, Condition.truthIn, SubQuery.findsIn_congr q hq hterms hhidden h]

theorem Condition.truthAllIn_congr : (cs : List Condition) → {visible : List Slot} →
    (∀ c ∈ cs, c.Within visible) → (∀ e ∈ Condition.termsAll cs, e.Avoids m hidden) →
    (∀ s ∈ hidden, s ∉ visible ++ Condition.ownedAll cs) → {env env' : Assignment} →
    AgreeOff hidden env env' →
    Condition.truthAllIn db m cs env = Condition.truthAllIn db m cs env'
  | [], visible, _, _, _, env, env', h => by
    rw [Condition.truthAllIn, Condition.truthAllIn]
  | c :: cs, visible, hcs, hterms, hhidden, env, env', h => by
    obtain ⟨hc, hcs⟩ := List.forall_mem_cons.1 hcs
    rw [Condition.termsAll, List.forall_mem_append] at hterms
    simp only [Condition.ownedAll, List.mem_append, not_or] at hhidden
    have hfirst := Condition.truthIn_congr c hc hterms.1
      (fun s hs => by simp [hhidden s hs]) h
    have hrest := Condition.truthAllIn_congr cs hcs hterms.2
      (fun s hs => by simp [hhidden s hs]) h
    rw [Condition.truthAllIn, Condition.truthAllIn, hfirst, hrest]

/-- Combinations that agree stay alike under joins that do not tell them apart. -/
theorem Join.extendAllIn_congr : (js : List Join) → {visible : List Slot} →
    (∀ j ∈ js, ∀ c ∈ j.on, c.Within visible) →
    (∀ e ∈ Join.termsAll js, e.Avoids m hidden) →
    (∀ s ∈ hidden, s ∉ visible ++ Join.ownedAll js) → {env env' : Assignment} →
    AgreeOff hidden env env' →
    List.Forall₂ (AgreeOff hidden) (Join.extendAllIn db m js env) (Join.extendAllIn db m js env')
  | [], visible, _, _, _, env, env', h => by
    rw [Join.extendAllIn, Join.extendAllIn]
    exact .cons h .nil
  | .mk kind slot table on :: js, visible, hon, hterms, hhidden, env, env', h => by
    obtain ⟨hfirst, hon⟩ := List.forall_mem_cons.1 hon
    rw [Join.termsAll, List.forall_mem_append] at hterms
    simp only [Join.ownedAll, List.mem_append, not_or] at hhidden
    have hjoined := Join.extendIn_congr kind slot table
      (fun env env' h => Condition.truthAllIn_congr on hfirst hterms.1
        (fun s hs => by simp [hhidden s hs]) h) h
    rw [Join.extendAllIn, Join.extendAllIn]
    exact List.rel_flatMap hjoined fun env env' h =>
      Join.extendAllIn_congr js hon hterms.2 (fun s hs => by simp [hhidden s hs]) h

theorem SubQuery.findsIn_congr : (q : SubQuery) → {visible : List Slot} → q.Within visible →
    (∀ e ∈ q.terms, e.Avoids m hidden) → (∀ s ∈ hidden, s ∉ visible ++ q.owned) →
    {env env' : Assignment} → AgreeOff hidden env env' →
    q.findsIn db m env = q.findsIn db m env'
  | .mk slot slots table joins conditions, visible, hq, hterms, hhidden, env, env', h => by
    cases hq with
    | mk own joined filtered =>
      rw [SubQuery.terms, List.forall_mem_append] at hterms
      simp only [SubQuery.owned, List.mem_append, not_or] at hhidden
      have hrow (row : List Value) := Join.extendAllIn_congr joins joined hterms.1
        (fun s hs => by simp [hhidden s hs]) (h.update slot ⟨table, row⟩)
      have hmet (env env' : Assignment) (h : AgreeOff hidden env env') :
          Condition.truthAllIn db m conditions env = Condition.truthAllIn db m conditions env' :=
        Condition.truthAllIn_congr conditions filtered hterms.2
          (fun s hs => by simp [hhidden s hs]) h
      rw [SubQuery.findsIn, SubQuery.findsIn]
      congr 1
      funext row
      exact any_congr_of_forall₂ (hrow row) fun env env' h => by rw [hmet env env' h]

end

end congr

end AssociationQuery
