import AssociationQuery.Proofs.Nesting.Layouts
import AssociationQuery.Proofs.Planning.Columns
import Mathlib.Order.Bounds.Basic

/-!
# AssociationQuery.Proofs.Decoding.Scopes

Decoded rows, scope by scope.

The scopes of a planned statement and its pairing columns divide a row into ranges without a gap,
`Layout.Divides`.  So the views on the scopes show every value once, and a name that is looked up in
one of them is looked for in its range only: `DecodedRow.Isolated`.  A result set whose rows share
the names of their columns is decoded as its rows are decoded one by one, `Layout.DecodesEach`.
-/

namespace AssociationQuery

/-! ## ranges -/

namespace Span

theorem getElem?_slice (s : Span) (xs : List α) (k : Nat) :
    (s.slice xs)[k]? = if s.start + k < s.stop then xs[s.start + k]? else none := by
  simp [slice, List.getElem?_take]

theorem Tile.le {start stop : Nat} {ss : List Span} (h : Tile start ss stop) : start ≤ stop := by
  induction ss generalizing start with
  | nil => exact Nat.le_of_eq h
  | cons s ss ih =>
    obtain ⟨rfl, hle, hss⟩ := h
    exact Nat.le_trans hle (ih hss)

theorem Tile.stop_le {start stop : Nat} {ss : List Span} (h : Tile start ss stop) :
    ∀ s ∈ ss, s.stop ≤ stop := by
  induction ss generalizing start with
  | nil => simp
  | cons s ss ih =>
    obtain ⟨-, -, hss⟩ := h
    exact List.forall_mem_cons.2 ⟨hss.le, ih hss⟩

theorem Tile.append {start middle stop : Nat} {ss ts : List Span} (h : Tile start ss middle)
    (h' : Tile middle ts stop) : Tile start (ss ++ ts) stop := by
  induction ss generalizing start with
  | nil =>
    obtain rfl : start = middle := h
    exact h'
  | cons s ss ih =>
    obtain ⟨hstart, hle, hss⟩ := h
    exact ⟨hstart, hle, ih hss⟩

theorem tile_single {start stop : Nat} (h : start ≤ stop) : Tile start [⟨start, stop⟩] stop :=
  ⟨rfl, h, rfl⟩

/-- Two ranges that follow each other show what the range over both shows. -/
theorem slice_append_slice {a b c : Nat} (hab : a ≤ b) (hbc : b ≤ c) (xs : List α) :
    slice ⟨a, b⟩ xs ++ slice ⟨b, c⟩ xs = slice ⟨a, c⟩ xs := by
  apply List.ext_getElem?
  intro k
  simp only [List.getElem?_append, getElem?_slice, length_slice]
  grind

/-- What ranges without gaps show of a list is all that lies between the ends. -/
theorem Tile.flatMap_slice {start stop : Nat} {ss : List Span} (h : Tile start ss stop)
    (xs : List α) : ss.flatMap (fun s => s.slice xs) = slice ⟨start, stop⟩ xs := by
  induction ss generalizing start with
  | nil =>
    obtain rfl : start = stop := h
    simp [slice]
  | cons s ss ih =>
    obtain ⟨rfl, hle, hss⟩ := h
    rw [List.flatMap_cons, ih hss, slice_append_slice hle hss.le]

end Span

namespace Layout

/-- The scopes and the pairing columns divide a row from its first to its last column. -/
def Divides (l : Layout) : Prop :=
  Span.Tile 0 (l.scopes.map Scope.range ++ l.pairing.toList) l.width

variable {l : Layout}

theorem Grown.pairing_eq (h : l.Grown) : l.pairing = none := by
  induction h with
  | start => rfl
  | scope _ _ _ _ _ ih => exact ih
  | announced _ _ _ ih => exact ih

theorem Grown.tile (h : l.Grown) : Span.Tile 0 (l.scopes.map Scope.range) l.width := by
  induction h with
  | start width => exact Span.tile_single (Nat.zero_le width)
  | scope _ _ _ width _ ih =>
    rw [Draft.ranges_pushScope]
    exact ih.append (Span.tile_single (Nat.le_add_right _ width))
  | announced _ _ _ ih =>
    rw [Draft.ranges_pushPrefetched]
    exact ih

theorem Grown.divides (h : l.Grown) : l.Divides := by
  rw [Divides, h.pairing_eq]
  simpa using h.tile

theorem Grown.divides_pushPairing (h : l.Grown) (width : Nat) : (l.pushPairing width).Divides :=
  h.tile.append (Span.tile_single (Nat.le_add_right l.width width))

theorem Divides.stop_le (h : l.Divides) {i : Nat} (hi : i < l.scopes.length) :
    (l.scope i).range.stop ≤ l.width := by
  refine Span.Tile.stop_le h _ (List.mem_append_left _ (List.mem_map_of_mem ?_))
  exact List.mem_of_getElem? (getElem?_scopes hi)

theorem map_scope_range (l : Layout) : (List.range l.scopes.length).map l.scope = l.scopes := by
  apply List.ext_getElem
  · simp
  · intro i _ hi
    simp [scope_of_getElem? (List.getElem?_eq_getElem hi)]

end Layout

/-! ## views -/

/-- The views on the scopes of a decoded row lose nothing and see nothing of each other.  All values
are found again scope by scope, with the pairing columns behind; a scope has the names of its own
columns; and a name stands for the first column of the scope that bears it, wherever else in the
row the name occurs. -/
structure DecodedRow.Isolated (d : DecodedRow) : Prop where
  values : ((List.range d.layout.scopes.length).flatMap fun i =>
      (ScopeView.mk d i).unscoped.values) ++ d.layout.pairing.toList.flatMap d.row.valuesIn =
    d.row.values
  columns : ∀ i < d.layout.scopes.length, ∀ k,
    (ScopeView.mk d i).unscoped.columns[k]? =
      if k < (d.layout.scope i).range.width then d.names[(d.layout.scope i).range.start + k]?
      else none
  named : ∀ i < d.layout.scopes.length, ∀ (α : Type) [FromValue α] (column : String) (k : Nat),
    IsLeast {k | (d.layout.scope i).range.start ≤ k ∧ k < (d.layout.scope i).range.stop ∧
      d.names[k]? = some column} k →
    ∃ v, d.row.get? k = some v ∧
      ((ScopeView.mk d i).readNamed column : Except TypeError α) =
        (FromValue.read v).mapError fun expected => ⟨expected, v.typeName, some column⟩
  missing : ∀ i < d.layout.scopes.length, ∀ (α : Type) [FromValue α] (column : String),
    (∀ k, (d.layout.scope i).range.start ≤ k → k < (d.layout.scope i).range.stop →
      d.names[k]? ≠ some column) →
    ((ScopeView.mk d i).readNamed column : Except TypeError α) =
      .error ⟨FromValue.fullName α, s!"column '{column}' not found", some column⟩

namespace Row

variable {s : Span} {names : List String} {values : List Value} {column : String} {k : Nat}

/-- The first column of a range that bears a name, counted from the start of the range. -/
theorem columnNamed?_slice
    (h : IsLeast {k | s.start ≤ k ∧ k < s.stop ∧ names[k]? = some column} k) :
    columnNamed? (s.slice names) column = some (k - s.start) := by
  obtain ⟨⟨hstart, hstop, hname⟩, hleast⟩ := h
  have hk : s.start + (k - s.start) = k := by omega
  have hfound : (s.slice names)[k - s.start]? = some column := by
    simp [Span.getElem?_slice, hk, hstop, hname]
  obtain ⟨hlt, heq⟩ := List.getElem?_eq_some_iff.1 hfound
  refine List.findIdx?_eq_some_iff_getElem.2 ⟨hlt, by simp [heq], ?_⟩
  intro j hj hequal
  -- a column before it with the same name would be the first
  have hbefore : (s.slice names)[j]? = some column :=
    List.getElem?_eq_some_iff.2 ⟨Nat.lt_trans hj hlt, beq_iff_eq.1 hequal⟩
  rw [Span.getElem?_slice, if_pos (by omega)] at hbefore
  have := hleast ⟨Nat.le_add_right _ j, by omega, hbefore⟩
  omega

theorem columnNamed?_slice_eq_none
    (h : ∀ k, s.start ≤ k → k < s.stop → names[k]? ≠ some column) :
    columnNamed? (s.slice names) column = none := by
  refine List.findIdx?_eq_none_iff.2 fun name hname => ?_
  obtain ⟨j, hj⟩ := List.mem_iff_getElem?.1 hname
  rw [Span.getElem?_slice] at hj
  by_cases hlt : s.start + j < s.stop
  · have hne := h _ (Nat.le_add_right _ j) hlt
    rw [if_pos hlt] at hj
    simp_all
  · simp [hlt] at hj

/-- Names are looked for in the range alone, and values counted from its start. -/
theorem named?_slice (h : IsLeast {k | s.start ≤ k ∧ k < s.stop ∧ names[k]? = some column} k) :
    Row.named? ⟨s.slice names, s.slice values⟩ column = values[k]? := by
  have hk : s.start + (k - s.start) = k := by
    have := h.1.1
    omega
  simp [named?, get?, columnNamed?_slice h, Span.getElem?_slice, hk, h.1.2.1]

theorem named?_slice_eq_none (h : ∀ k, s.start ≤ k → k < s.stop → names[k]? ≠ some column) :
    Row.named? ⟨s.slice names, s.slice values⟩ column = none := by
  simp [named?, columnNamed?_slice_eq_none h]

end Row

/-- Rows that are decoded with a layout that divides them are seen scope by scope. -/
theorem Layout.Divides.isolated {d : DecodedRow} (h : d.layout.Divides)
    (hwidth : d.row.width = d.layout.width) : d.Isolated where
  values := by
    -- the ranges of the scopes and the pairing lie end to end and cover the row
    have hscopes : ((List.range d.layout.scopes.length).flatMap fun i =>
        (ScopeView.mk d i).unscoped.values) =
        (d.layout.scopes.map Scope.range).flatMap fun s => s.slice d.row.values := by
      conv_rhs => rw [← d.layout.map_scope_range, List.map_map, List.flatMap_map]
      rfl
    have hall : Span.slice ⟨0, d.layout.width⟩ d.row.values = d.row.values := by
      simp [Span.slice, ← hwidth, Row.width]
    calc _ = (d.layout.scopes.map Scope.range ++ d.layout.pairing.toList).flatMap
            fun s => s.slice d.row.values := by
          rw [hscopes, List.flatMap_append]
          rfl
      _ = Span.slice ⟨0, d.layout.width⟩ d.row.values := h.flatMap_slice _
      _ = d.row.values := hall
  columns i _ k := by
    have hlt : (d.layout.scope i).range.start + k < (d.layout.scope i).range.stop ↔
        k < (d.layout.scope i).range.width := by
      simp only [Span.width]
      omega
    rw [← if_congr hlt rfl rfl]
    exact Span.getElem?_slice _ d.names k
  named i hi α _ column k hleast := by
    have hlt : k < d.row.values.length := by
      have : d.row.values.length = d.layout.width := hwidth
      have := h.stop_le hi
      have := hleast.1.2.1
      omega
    refine ⟨d.row.values[k], List.getElem?_eq_getElem hlt, ?_⟩
    have hnamed : (ScopeView.mk d i).unscoped.named? column = some d.row.values[k] :=
      (Row.named?_slice hleast).trans (List.getElem?_eq_getElem hlt)
    rw [ScopeView.readNamed, Row.readNamed, hnamed]
  missing i _ α _ column hnone := by
    have hnamed : (ScopeView.mk d i).unscoped.named? column = none := Row.named?_slice_eq_none hnone
    rw [ScopeView.readNamed, Row.readNamed, hnamed]

/-! ## result sets -/

namespace Layout

/-- The row that a row is decoded to keeps it whole, with its names. -/
structure Decodes (l : Layout) (r : Row) (d : DecodedRow) : Prop where
  alone : l.decode r = .ok d
  layout : d.layout = l
  names : d.names = r.columns
  row : d.row = r

/-- Rows are decoded all together as one by one: decoding fails if one of them has another number of
values than the layout has columns, at the first such row and with its error, and otherwise gives
for each row what that row alone is decoded to. -/
structure DecodesEach (l : Layout) (rows : List Row) : Prop where
  fails_iff : (∃ e, l.decodeAll rows = .error e) ↔ ∃ r ∈ rows, r.width ≠ l.width
  first : ∀ before r after, rows = before ++ r :: after → (∀ b ∈ before, b.width = l.width) →
    r.width ≠ l.width → ∃ e, l.decode r = .error e ∧ l.decodeAll rows = .error e
  each : ∀ ds, l.decodeAll rows = .ok ds → List.Forall₂ l.Decodes rows ds

variable {l : Layout}

theorem decodeAs_of_width (names : List String) {r : Row} (h : r.width = l.width) :
    l.decodeAs names r = .ok { layout := l, names, row := r } := by
  simp [decodeAs, checkWidth, h, Except.map]

theorem exists_decodeAs_error (names : List String) {r : Row} (h : r.width ≠ l.width) :
    ∃ e, l.decodeAs names r = .error e := by
  simp [decodeAs, checkWidth, h, Except.map]

/-- The first row names the columns, and so does any other one. -/
theorem decodeAll_eq_mapM {names : List String} {rows : List Row}
    (h : ∀ r ∈ rows, r.columns = names) : l.decodeAll rows = rows.mapM (l.decodeAs names) := by
  cases rows with
  | nil => rfl
  | cons first rest => rw [decodeAll, h first List.mem_cons_self]

theorem decodesEach {names : List String} {rows : List Row}
    (h : ∀ r ∈ rows, r.columns = names) : l.DecodesEach rows := by
  -- one list of names holds for all rows, so decoding them together is decoding each of them
  have hall := decodeAll_eq_mapM (l := l) h
  have hown : ∀ r ∈ rows, l.decodeAs names r = l.decode r := by
    intro r hr
    rw [decode, h r hr]
  exact {
    fails_iff := by
      constructor
      · rintro ⟨e, he⟩
        obtain ⟨before, r, after, hrows, -, hr⟩ := exists_of_mapM_eq_error (hall ▸ he)
        refine ⟨r, by simp [hrows], fun hwidth => ?_⟩
        rw [decodeAs_of_width names hwidth] at hr
        cases hr
      · rintro ⟨r, hr, hwidth⟩
        cases hds : l.decodeAll rows with
        | error e => exact ⟨e, rfl⟩
        | ok ds =>
          obtain ⟨d, hd⟩ := exists_of_mapM (hall ▸ hds) r hr
          obtain ⟨e, he⟩ := exists_decodeAs_error names hwidth
          rw [hd] at he
          cases he
    first := by
      rintro before r after rfl hbefore hwidth
      obtain ⟨e, he⟩ := exists_decodeAs_error names hwidth
      refine ⟨e, by rw [← hown r (by simp), he], hall.trans ?_⟩
      exact mapM_eq_error_of_append (fun b hb => ⟨_, decodeAs_of_width names (hbefore b hb)⟩) he
    each := by
      intro ds hds
      have hrow : ∀ r ∈ rows, ∀ d, l.decodeAs names r = .ok d → l.Decodes r d := by
        intro r hr d hd
        rw [hown r hr] at hd
        obtain ⟨-, -, rfl⟩ := map_eq_ok.1 hd
        exact ⟨hd, rfl, rfl, rfl⟩
      have hpairs : List.Forall₂ (flip l.Decodes) ds (rows.map id) :=
        forall₂_of_mapM hrow (hall ▸ hds)
      rw [List.map_id] at hpairs
      exact hpairs.flip }

/-- A layout whose decoded rows are as those of single rows, and are seen scope by scope. -/
structure Isolates (l : Layout) : Prop where
  results : ∀ names rows, (∀ r ∈ rows, r.columns = names) → l.DecodesEach rows
  views : ∀ d : DecodedRow, d.layout = l → d.row.width = l.width → d.Isolated

theorem Divides.isolates (h : l.Divides) : l.Isolates where
  results _ _ hrows := decodesEach hrows
  views := by
    rintro d rfl hwidth
    exact h.isolated hwidth

end Layout

/-! ## planned statements -/

theorem Draft.PlannedFor.divides {config : Config} {n : ChainNode} {p : PrefetchPlan}
    (h : PlannedFor config n p) : p.layout.Divides := by
  obtain ⟨route, d, -, hwalk, -, -, hlayout, -⟩ := h.exists_planned
  rw [hlayout]
  exact hwalk.grown_of_start.divides_pushPairing _

namespace Request

open PrefetchPlan (Each)

/-- The rows of every planned statement are decoded one by one and seen scope by scope. -/
theorem compile_isolates {r : Request} {config : Config} {q : CompiledQuery}
    (h : r.compile config = .ok q) :
    q.root.layout.Isolates ∧
      Each (fun _ p => p.layout.Isolates) (ChainNode.separateAll r.chain) q.prefetches := by
  obtain ⟨s, d', hs, -, hlayout, -⟩ := compile_eq_ok h
  obtain ⟨aggregates, d, js, hwalk, -, rfl, -⟩ := rootStatement_eq_ok hs
  have hroot : q.root.layout.Divides := by
    rw [hlayout]
    exact hwalk.grown_of_start.divides
  exact ⟨hroot.isolates, (each_of_compile h).imp fun _ _ hp => hp.divides.isolates⟩

/-- Books with their authors, whose rows both have an id. -/
theorem compile_isolates_library : ∃ q : CompiledQuery, Library.request.compile = .ok q ∧
    ∀ d : DecodedRow, d.layout = q.root.layout → d.row.width = d.layout.width → d.Isolated := by
  obtain ⟨q, hq⟩ := Library.exists_compile
  obtain ⟨hroot, -⟩ := compile_isolates hq
  exact ⟨q, hq, fun d hlayout hwidth => hroot.views d hlayout (hlayout ▸ hwidth)⟩

end Request

end AssociationQuery
