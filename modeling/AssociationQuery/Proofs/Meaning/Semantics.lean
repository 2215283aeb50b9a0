import AssociationQuery.Statement.Basic
import AssociationQuery.Value.Basic
import Mathlib.Logic.Function.Basic

/-!
# AssociationQuery.Proofs.Meaning.Semantics

What planned statements mean on a database.

Tables hold bags of rows, kept as lists.  A statement goes through the combinations
of rows of its table instances: each join prolongs the combinations so far, and a
left join keeps one that finds no row, with NULL in every column.  Conditions are
true, false or unknown; only what is true lets a combination through.  What an
expression says of a row is left open.
-/

namespace AssociationQuery

/-! ## rows and databases -/

/-- A row of a table; its values stand in the order of the table's columns. -/
structure TableRow where
  table : Table
  values : List Value

namespace TableRow

/-- The value of a column; a column that is not there counts as NULL. -/
def value (r : TableRow) (column : String) : Value :=
  (r.table.columnIndex? column >>= fun i => r.values[i]?).getD .null

/-- The row that stands for a missing one. -/
def absent (t : Table) : TableRow := ⟨t, List.replicate t.width .null⟩

end TableRow

structure Database where
  /-- The rows of the table of a name. -/
  rows : String → List (List Value)
  /-- The comparison of key columns. -/
  sameKey : Value → Value → Option Bool
  /-- What an expression says of a row of the table that it is attached to, as far as it reads no
  other table through a handle and no aggregate. -/
  holds : Expr → TableRow → Option Bool
  sameKey_comm (v w : Value) : sameKey v w = sameKey w v
  /-- NULL is never equal to anything. -/
  sameKey_null (v : Value) : sameKey .null v ≠ some true

/-- The row that each table instance stands for. -/
abbrev Assignment := Slot → TableRow

/-! ## truth -/

namespace Truth

/-- True if both are true, false if one is false. -/
def and : Option Bool → Option Bool → Option Bool
  | some true, y => y
  | some false, _ => some false
  | none, some false => some false
  | none, _ => none

/-- A conjunction of any number of terms. -/
def conj (xs : List (Option Bool)) : Option Bool := xs.foldr and (some true)

/-- A conjunction of two is true if both are. -/
theorem and_eq_true {x y : Option Bool} :
    and x y = some true ↔ x = some true ∧ y = some true := by
  rcases x with _ | _ | _ <;> rcases y with _ | _ | _ <;> simp [and]

/-- A conjunction is true if all its members are. -/
theorem conj_eq_true {xs : List (Option Bool)} :
    conj xs = some true ↔ ∀ x ∈ xs, x = some true := by
  induction xs with
  | nil => simp [conj]
  | cons x xs ih =>
    rw [conj, List.foldr_cons, ← conj, and_eq_true, ih, List.forall_mem_cons]

end Truth

open Truth (conj)

/-! ## conditions and joins -/

/-- The comparison of columns of two rows, pairwise. -/
def keysMatch (db : Database) (columns : List (String × String)) (l r : TableRow) : Option Bool :=
  conj (columns.map fun p => db.sameKey (l.value p.1) (r.value p.2))

mutual

def Condition.truth (db : Database) : Condition → Assignment → Option Bool
  | .keys l r columns, env => keysMatch db columns (env l) (env r)
  | .expr e slot, env => db.holds e (env slot)
  | .existence q, env => some (SubQuery.finds db q env)

def Condition.truthAll (db : Database) : List Condition → Assignment → List (Option Bool)
  | [], _ => []
  | c :: cs, env => Condition.truth db c env :: Condition.truthAll db cs env

/-- What becomes of a combination of rows. -/
def Join.extend (db : Database) : Join → Assignment → List Assignment
  | .mk kind slot table on, env =>
    let found := (db.rows table.name).map fun row => Function.update env slot ⟨table, row⟩
    let matching := found.filter fun env => conj (Condition.truthAll db on env) = some true
    match kind, matching with
    | .left, [] => [Function.update env slot (.absent table)]
    | _, matching => matching

def Join.extendAll (db : Database) : List Join → Assignment → List Assignment
  | [], env => [env]
  | j :: js, env => (Join.extend db j env).flatMap fun env => Join.extendAll db js env

/-- Is there a row? -/
def SubQuery.finds (db : Database) : SubQuery → Assignment → Bool
  | .mk slot _ table joins conditions, env =>
    (db.rows table.name).any fun row =>
      (Join.extendAll db joins (Function.update env slot ⟨table, row⟩)).any fun env =>
        conj (Condition.truthAll db conditions env) = some true

end

/-! ## statements -/

/-- The key columns hold one of the keys. -/
def KeyFilter.accepts (db : Database) (keys : List (List Value)) (f : KeyFilter)
    (env : Assignment) : Bool :=
  keys.any fun key =>
    conj (List.zipWith (fun column v => db.sameKey ((env f.slot).value column) v)
      f.columns key) = some true

namespace Statement

/-- The combination with a row of the statement's table and no other. -/
def start (s : Statement) (row : List Value) : Assignment :=
  Function.update (fun _ => .absent s.table) s.root ⟨s.table, row⟩

/-- The combinations of rows that a statement lets through, before it groups them or cuts
the result. -/
def combinations (db : Database) (keys : List (List Value)) (s : Statement) : List Assignment :=
  ((db.rows s.table.name).flatMap fun row => Join.extendAll db s.joins (s.start row)).filter
    fun env => s.keyFilter.toList.all (fun f => f.accepts db keys env) &&
      conj (Condition.truthAll db s.filters env) = some true

/-- Does the statement return a row for each combination? -/
def ReturnsAll (s : Statement) : Prop :=
  s.groupBy = [] ∧ s.having = [] ∧ s.distinct = false ∧ s.limit = none ∧ s.offset = none

end Statement

/-! ## what lets a combination through -/

/-- Keys match if each pair of columns does. -/
theorem keysMatch_eq_true {db : Database} {columns : List (String × String)} {l r : TableRow} :
    keysMatch db columns l r = some true ↔
      ∀ p ∈ columns, db.sameKey (l.value p.1) (r.value p.2) = some true := by
  rw [keysMatch, Truth.conj_eq_true, List.forall_mem_map]

/-- The truth of several conditions is that of each. -/
theorem truthAll_eq_map (db : Database) (cs : List Condition) (env : Assignment) :
    Condition.truthAll db cs env = cs.map fun c => c.truth db env := by
  induction cs with
  | nil => rfl
  | cons c cs ih => rw [Condition.truthAll, ih, List.map_cons]

/-- A conjunction of conditions is true if each of them is. -/
theorem conj_truthAll {db : Database} {cs : List Condition} {env : Assignment} :
    conj (Condition.truthAll db cs env) = some true ↔ ∀ c ∈ cs, c.truth db env = some true := by
  simp [truthAll_eq_map, Truth.conj_eq_true]

namespace Join

/-- The combination has a row of the join's table that meets its conditions. -/
structure Met (db : Database) (j : Join) (env : Assignment) : Prop where
  table : (env j.slot).table = j.table
  row : (env j.slot).values ∈ db.rows j.table.name
  on : ∀ c ∈ j.on, c.truth db env = some true

/-- An inner join extends a combination by the rows that it is met with. -/
theorem mem_extend_inner {db : Database} {j : Join} (h : j.kind = .inner)
    {env env' : Assignment} :
    env' ∈ j.extend db env ↔ ∃ r, env' = Function.update env j.slot r ∧ j.Met db env' := by
  obtain ⟨kind, slot, table, on⟩ := j
  obtain rfl : kind = .inner := h
  simp only [extend, List.mem_filter, List.mem_map, decide_eq_true_eq, conj_truthAll]
  constructor
  · intro h
    obtain ⟨⟨row, hrow, rfl⟩, hon⟩ := h
    exact ⟨_, rfl, by simp [Join.slot, Join.table], by simpa [Join.slot, Join.table],
      hon⟩
  · intro h
    obtain ⟨⟨t, row⟩, rfl, htable, hrow, hon⟩ := h
    simp only [Join.slot, Join.table, Function.update_self] at htable hrow
    subst htable
    exact ⟨⟨row, hrow, rfl⟩, hon⟩

/-- A left join drops no combination. -/
theorem exists_mem_extend_left {db : Database} {j : Join} (h : j.kind = .left)
    (env : Assignment) : ∃ r, Function.update env j.slot r ∈ j.extend db env := by
  obtain ⟨kind, slot, table, on⟩ := j
  obtain rfl : kind = .left := h
  simp only [extend]
  split
  · exact ⟨_, List.mem_singleton_self _⟩
  · next hne =>
    obtain ⟨env', hmem⟩ := List.exists_mem_of_ne_nil _ (hne rfl)
    obtain ⟨⟨row, hrow, rfl⟩, -⟩ := by simpa only [List.mem_filter, List.mem_map] using hmem
    exact ⟨_, hmem⟩

/-- A join adds a row for its own table, no other. -/
theorem exists_of_mem_extend {db : Database} {j : Join} {env env' : Assignment}
    (h : env' ∈ j.extend db env) : ∃ r, env' = Function.update env j.slot r := by
  obtain ⟨kind, slot, table, on⟩ := j
  simp only [extend] at h
  split at h
  · exact ⟨_, List.mem_singleton.1 h⟩
  · obtain ⟨⟨row, -, rfl⟩, -⟩ := by simpa only [List.mem_filter, List.mem_map] using h
    exact ⟨_, rfl⟩

end Join

/-- A subquery finds something if a row and its joins meet all conditions. -/
theorem SubQuery.finds_iff {db : Database} {slot : Slot} {slots : List Slot} {table : Table}
    {joins : List Join} {conditions : List Condition} {env : Assignment} :
    (SubQuery.mk slot slots table joins conditions).finds db env ↔
      ∃ row ∈ db.rows table.name,
        ∃ env' ∈ Join.extendAll db joins (Function.update env slot ⟨table, row⟩),
          ∀ c ∈ conditions, c.truth db env' = some true := by
  simp [finds, conj_truthAll]

end AssociationQuery
