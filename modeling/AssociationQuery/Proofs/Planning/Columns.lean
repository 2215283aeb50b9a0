import AssociationQuery.Proofs.Planning.Plans

/-!
# AssociationQuery.Proofs.Planning.Columns

Which columns a planned statement returns, and which scopes they fall into.

The items that are selected and the layout are filled by different steps of one
walk.  `Statement.Fits` says that they agree: every scope is the columns of the
table that its node joined last, and nothing is left over.
-/

namespace AssociationQuery

/-! ## ranges in a row -/

namespace Span

/-- The ranges follow each other without a gap from one position to another. -/
def Tile : Nat → List Span → Nat → Prop
  | start, [], stop => start = stop
  | start, s :: ss, stop => s.start = start ∧ s.start ≤ s.stop ∧ Tile s.stop ss stop

/-- Consecutive ranges lie one after the other without gaps. -/
theorem tile_consecutive (start : Nat) (ws : List Nat) :
    Tile start (consecutive start ws) (start + ws.sum) := by
  induction ws generalizing start with
  | nil => rfl
  | cons w ws ih =>
    refine ⟨rfl, Nat.le_add_right start w, ?_⟩
    rw [List.sum_cons, ← Nat.add_assoc]
    exact ih (start + w)

/-- No range starts before the first. -/
theorem Tile.start_le {start stop : Nat} {ss : List Span} (h : Tile start ss stop) :
    ∀ s ∈ ss, start ≤ s.start := by
  induction ss generalizing start with
  | nil => simp
  | cons s ss ih =>
    obtain ⟨rfl, hle, hss⟩ := h
    intro t ht
    rcases List.mem_cons.1 ht with rfl | ht
    · exact Nat.le_refl _
    · exact Nat.le_trans hle (ih hss t ht)

/-- Ranges without gaps do not overlap either. -/
theorem Tile.disjoint {start stop : Nat} {ss : List Span} (h : Tile start ss stop) :
    ss.Pairwise fun s t => s.stop ≤ t.start := by
  induction ss generalizing start with
  | nil => exact .nil
  | cons s ss ih =>
    obtain ⟨-, -, hss⟩ := h
    exact .cons hss.start_le (ih hss)

/-- The slice at the place of a list is the list. -/
theorem slice_middle (before xs after : List α) :
    slice ⟨before.length, before.length + xs.length⟩ (before ++ xs ++ after) = xs := by
  simp [slice, List.take_append]

/-- Ranges of the widths of lists find these lists again where they stand in a row. -/
theorem slice_consecutive (before : List α) (xss : List (List α)) :
    (consecutive before.length (xss.map List.length)).map
      (fun s => slice s (before ++ xss.flatten)) = xss := by
  induction xss generalizing before with
  | nil => rfl
  | cons xs xss ih =>
    have hhead := slice_middle before xs xss.flatten
    have htail := ih (before ++ xs)
    simp only [List.length_append, List.append_assoc] at hhead htail
    simp only [List.map_cons, consecutive, List.flatten_cons, hhead, htail]

end Span

/-! ## key columns of parent rows -/

/-- A column that is found in a table is one of its columns. -/
theorem Table.columnIndex?_lt {t : Table} {column : String} {i : Nat}
    (h : t.columnIndex? column = some i) : i < t.width := by
  rw [columnIndex?, Option.orElse_eq_orElse, Option.orElse_eq_or, Option.or_eq_some_iff] at h
  rcases h with h | ⟨-, h⟩
  · exact (List.findIdx?_eq_some_iff_findIdx_eq.1 h).1
  · exact (List.findIdx?_eq_some_iff_findIdx_eq.1 h).1

/-- The key columns stand where the mapping's columns stand in the parent's table. -/
theorem Draft.forall₂_of_parentKeyColumns {name : String} {parent : Table} {offset : Nat}
    {first : Hop} {columns : List Nat}
    (h : parentKeyColumns name parent offset first = .ok columns) :
    List.Forall₂ (fun p c => ∃ i, parent.columnIndex? p.1 = some i ∧ c = offset + i)
      first.mapping columns := by
  have hforall := forall₂_of_mapM (g := id)
    (R := fun c p => ∃ i, parent.columnIndex? p.1 = some i ∧ c = offset + i) ?_ h
  · simpa using hforall.flip
  · intro p _ c hc
    split at hc
    · next i hi => exact ⟨i, hi, (Except.ok.inj hc).symm⟩
    · cases hc

/-! ## columns of a result -/

/-- One column of a result. -/
inductive ResultColumn where
  /-- A column of a table, by its name. -/
  | ofTable (slot : Slot) (column : String)
  /-- The value of an item that is no star. -/
  | ofItem (item : SelectItem)

/-- The columns that an item of a SELECT list stands for. -/
def SelectItem.columns (tables : List (Slot × Table)) : SelectItem → List ResultColumn
  | star slot => ((tables.lookup slot).elim [] Table.columns).map (.ofTable slot)
  | item => [.ofItem item]

namespace Statement

/-- The table instances outside of subqueries with their tables. -/
def instances (s : Statement) : List (Slot × Table) :=
  (s.root, s.table) :: s.joins.map Join.instance

/-- The columns of the rows that the statement returns. -/
def columns (s : Statement) : List ResultColumn :=
  s.select.flatMap (SelectItem.columns s.instances)

end Statement

/-! ## statements -/

open Draft (JoinedNode)
open Draft.JoinedNode (included)

/-- The columns of a statement on the rows of a table fall into the scopes of a layout: the
first scope has the table's own columns and further ones, each other scope the columns of
the table instance that its node joined last, and the pairing columns come last. -/
structure Statement.Fits (s : Statement) (l : Layout) (base : Table) (further : List SelectItem)
    (nodes : List ChainNode) (pairing : Option (List SelectItem)) : Prop where
  table : s.table = base
  width : s.columns.length = l.width
  tile : Span.Tile 0 (l.scopes.map Scope.range ++ l.pairing.toList) l.width
  disjoint : (l.scopes.map Scope.range ++ l.pairing.toList).Pairwise fun s t => s.stop ≤ t.start
  root : l.root.range.slice s.columns =
    base.columns.map (.ofTable s.root) ++ further.map .ofItem
  pairing : l.pairing.map (fun span => span.slice s.columns) =
    pairing.map fun items => items.map .ofItem
  scopes : ∃ (js : List JoinedNode) (others : List (Slot × Table)),
    js.map JoinedNode.node = ChainNode.joinedAll nodes ∧ (∀ j ∈ js, j.Follows) ∧
    s.joins.map Join.instance = js.flatMap JoinedNode.instances ++ others ∧
    (∀ j ∈ js, s.instances.lookup j.last.1 = some j.node.association.destination) ∧
    l.scopes.tail.map Scope.name = (included js).map (fun j => j.node.key) ∧
    l.scopes.tail.map (fun scope => scope.range.slice s.columns) =
      (included js).map fun j => (SelectItem.star j.last.1).columns s.instances

/-- Is the item one column? -/
def SelectItem.isSingle : SelectItem → Bool
  | star _ => false
  | _ => true

/-- Items for one column each give one column each. -/
theorem SelectItem.columns_of_isSingle {items : List SelectItem} (h : ∀ i ∈ items, i.isSingle)
    (tables : List (Slot × Table)) :
    items.flatMap (columns tables) = items.map .ofItem := by
  induction items with
  | nil => rfl
  | cons i rest ih =>
    obtain ⟨hi, hrest⟩ := List.forall_mem_cons.1 h
    rw [List.flatMap_cons, ih hrest]
    cases i <;> first | rfl | cases hi

namespace Draft.Adds

variable {numbering : AliasNumbering} {t : Table} {width : Nat} {d : Draft} {js : List JoinedNode}

/-- The scopes of a draft after the first, and their columns. -/
theorem scopes_of_start (h : Adds (.start numbering t width) d js) :
    ∃ first rest, d.layout.scopes = first :: rest ∧ first.range = ⟨0, width⟩ ∧
      rest.map Scope.name = (included js).map (fun j => j.node.key) ∧
      rest.map Scope.range =
        Span.consecutive width ((included js).map JoinedNode.width) := by
  have hnames := h.names
  have hranges := h.ranges
  cases hscopes : d.layout.scopes with
  | nil => simp [hscopes, start, Layout.ofWidth] at hnames
  | cons first rest =>
    simp [hscopes, start, Layout.ofWidth] at hnames hranges
    exact ⟨first, rest, rfl, hranges.1, hnames.2, hranges.2⟩

/-- Every joined node is found among the table instances. -/
theorem lookup_last {d' : Draft} {others : List (Slot × Table)}
    (h : Adds (.start numbering t width) d js) (hfollows : ∀ j ∈ js, j.Follows)
    (hd' : d'.Numbered) (hothers : d'.instances = d.instances ++ others) {j : JoinedNode}
    (hj : j ∈ js) :
    ((root, t) :: d'.instances).lookup j.last.1 = some j.node.association.destination := by
  have hmem : j.last ∈ d'.instances := by
    rw [hothers, h.instances]
    refine List.mem_append_left _ (List.mem_append_right _ (List.mem_flatMap.2 ⟨j, hj, ?_⟩))
    exact List.mem_append_right _ List.mem_cons_self
  rw [hd'.lookup hmem t, (hfollows j hj).last_eq]

/-- The columns of the scopes and of the pairing, piece by piece. -/
def pieces (s : Statement) (t : Table) (further : List SelectItem) (js : List JoinedNode)
    (pairing : Option (List SelectItem)) : List (List ResultColumn) :=
  ((t.columns.map (.ofTable s.root) ++ further.map .ofItem) ::
    (included js).map fun j => (SelectItem.star j.last.1).columns s.instances) ++
  pairing.toList.map fun items => items.map .ofItem

/-- The columns of a statement come in pieces: the base table with what is computed, one for each
included node, and the pairing columns. -/
theorem columns_eq_pieces {s : Statement} {further : List SelectItem}
    {pairing : Option (List SelectItem)} (htable : s.table = t)
    (hfurther : ∀ i ∈ further, i.isSingle)
    (hpairing : ∀ items ∈ pairing, ∀ i ∈ items, i.isSingle)
    (hselect : s.select = .star s.root :: further ++
      ((included js).map fun j => .star j.last.1) ++ pairing.getD []) :
    s.columns = (pieces s t further js pairing).flatten := by
  have hroot : (SelectItem.star s.root).columns s.instances = t.columns.map (.ofTable s.root) := by
    simp [SelectItem.columns, Statement.instances, htable]
  have hlast : (pairing.getD []).flatMap (SelectItem.columns s.instances) =
      (pairing.toList.map fun items => items.map ResultColumn.ofItem).flatten := by
    cases pairing with
    | none => rfl
    | some items => simpa using SelectItem.columns_of_isSingle (hpairing items rfl) _
  rw [Statement.columns, hselect, List.flatMap_append, List.flatMap_append, List.flatMap_cons,
    hroot, SelectItem.columns_of_isSingle hfurther, hlast, List.flatMap_map]
  simp [pieces, List.flatMap_def]

/-- The pieces are as wide as their tables. -/
theorem lengths_pieces {s : Statement} (t : Table) (further : List SelectItem)
    (pairing : Option (List SelectItem))
    (hlookup : ∀ j ∈ js, s.instances.lookup j.last.1 = some j.last.2) :
    (pieces s t further js pairing).map List.length =
      (t.width + further.length) :: (included js).map JoinedNode.width ++
        pairing.toList.map List.length := by
  have hstars : ((included js).map fun j =>
      ((SelectItem.star j.last.1).columns s.instances).length) =
      (included js).map JoinedNode.width := by
    refine List.map_congr_left fun j hj => ?_
    have hmem : j ∈ js := (List.mem_filter.1 hj).1
    simp [SelectItem.columns, hlookup j hmem, JoinedNode.width, Table.width]
  simp [pieces, Function.comp_def, hstars, Table.width]

/-- Options that agree as lists agree. -/
theorem map_eq_of_toList {f : α → γ} {g : β → γ} {x : Option α} {y : Option β}
    (h : x.toList.map f = y.toList.map g) : x.map f = y.map g := by
  cases x <;> cases y <;> simp_all

/-- What the walk has added to a draft fits the statement that selects it. -/
theorem fits {further : List SelectItem} {pairing : Option (List SelectItem)}
    {nodes : List ChainNode} {d' : Draft} {others : List (Slot × Table)} {s : Statement}
    {l : Layout} (h : Adds (.start numbering t (t.width + further.length)) d js)
    (hnodes : js.map JoinedNode.node = ChainNode.joinedAll nodes)
    (hfollows : ∀ j ∈ js, j.Follows)
    (hd' : d'.Numbered) (hothers : d'.instances = d.instances ++ others)
    (hfurther : ∀ i ∈ further, i.isSingle)
    (hpairing : ∀ items ∈ pairing, ∀ i ∈ items, i.isSingle)
    (hroot : s.root = root) (htable : s.table = t) (hjoins : s.joins = d'.joins)
    (hselect : s.select = .star s.root :: further ++ d.stars.map .star ++ pairing.getD [])
    (hscopes : l.scopes = d.layout.scopes)
    (hpair : l.pairing.toList =
      Span.consecutive d.layout.width (pairing.toList.map List.length))
    (hwidth : l.width = d.layout.width + (pairing.toList.map List.length).sum) :
    s.Fits l t further nodes pairing := by
  have hinstances : s.instances = (root, t) :: d'.instances := by
    rw [Statement.instances, hroot, htable, hjoins]
    rfl
  have hlookup : ∀ j ∈ js, s.instances.lookup j.last.1 = some j.node.association.destination :=
    fun j hj => hinstances ▸ h.lookup_last hfollows hd' hothers hj
  have hstars : d.stars = (included js).map fun j => j.last.1 := h.stars
  have hcolumns : s.columns = (pieces s t further js pairing).flatten :=
    columns_eq_pieces htable hfurther hpairing (by rw [hselect, hstars, List.map_map]; rfl)
  have hlengths := lengths_pieces t further pairing
    fun j hj => (hfollows j hj).last_eq ▸ hlookup j hj
  obtain ⟨first, rest, hfirst, hrange, hnames, hranges⟩ := h.scopes_of_start
  have hw : d.layout.width = t.width + further.length +
      ((included js).map JoinedNode.width).sum := h.width
  -- the scopes and the pairing have the widths of the pieces, in the same order
  have hspans : l.scopes.map Scope.range ++ l.pairing.toList =
      Span.consecutive 0 ((pieces s t further js pairing).map List.length) := by
    rw [hlengths, Span.consecutive_append, hpair, hscopes, hfirst, hw, List.map_cons, hrange,
      hranges, Span.consecutive, List.sum_cons]
    simp
  have htile : Span.Tile 0 (l.scopes.map Scope.range ++ l.pairing.toList) l.width := by
    have hsum : l.width = 0 + ((pieces s t further js pairing).map List.length).sum := by
      rw [hlengths, hwidth, hw]
      simp [Nat.add_assoc]
    rw [hspans, hsum]
    exact Span.tile_consecutive 0 _
  have hslices : (l.scopes.map Scope.range ++ l.pairing.toList).map
      (fun span => span.slice s.columns) = pieces s t further js pairing := by
    rw [hspans, hcolumns]
    simpa using Span.slice_consecutive [] (pieces s t further js pairing)
  have hlength : s.columns.length = l.width := by
    rw [hcolumns, List.length_flatten, hlengths, hwidth, hw]
    simp [Nat.add_assoc]
  have hcount : rest.length = (included js).length := by
    simpa using congrArg List.length hnames
  -- so their slices are the pieces, and the pairing has the last one
  obtain ⟨hown, hlast⟩ := List.append_inj (List.map_append ▸ hslices) (by
    simp [hscopes, hfirst, hcount])
  rw [hscopes, hfirst, List.map_cons, List.map_cons, List.map_map] at hown
  obtain ⟨hslice, hrest⟩ := List.cons.inj hown
  exact {
    table := htable
    width := hlength
    tile := htile
    disjoint := htile.disjoint
    root := by
      rw [Layout.root, Layout.scope, hscopes, hfirst]
      exact hslice
    pairing := map_eq_of_toList hlast
    scopes := by
      have hinstances' : s.joins.map Join.instance = js.flatMap JoinedNode.instances ++ others := by
        rw [hjoins]
        exact hothers.trans (congrArg (· ++ others) h.instances)
      rw [hscopes, hfirst]
      exact ⟨js, others, hnodes, hfollows, hinstances', hlookup, hnames, hrest⟩ }

end Draft.Adds

namespace PrefetchPlan

mutual

/-- The columns of the plan's statement for a node, and of the statements below it, fall
into the scopes of their layouts, with the pairing columns last. -/
def Fits : ChainNode → PrefetchPlan → Prop
  | n, ⟨_, _, _, _, statement, layout, children⟩ =>
    (∃ pairing, statement.Fits layout n.association.destination [] n.children (some pairing)) ∧
      FitAll (ChainNode.separateAll n.children) children

def FitAll : List ChainNode → List PrefetchPlan → Prop
  | [], [] => True
  | n :: ns, p :: ps => Fits n p ∧ FitAll ns ps
  | _, _ => False

end

/-- A plan fits its node if its statement does and the plans below fit the nodes below. -/
theorem fits_iff (n : ChainNode) (p : PrefetchPlan) :
    p.Fits n ↔ (∃ pairing,
      p.statement.Fits p.layout n.association.destination [] n.children (some pairing)) ∧
      FitAll (ChainNode.separateAll n.children) p.children := by
  cases p
  rw [Fits]

end PrefetchPlan

namespace Draft

open PrefetchPlan (Each FitAll)

/-- Pairing columns are single columns. -/
theorem isSingle_pairingColumns (name : String) (slot : Slot) (columns : List String) :
    ∀ i ∈ pairingColumns name slot columns, i.isSingle := by
  intro i hi
  obtain ⟨k, hk, rfl⟩ := List.mem_mapIdx.1 hi
  rfl

/-- The table that holds the keys of the parent rows is the first of the route. -/
theorem Numbered.lookup_keySlot {d d' : Draft} {route : Route} (h : d'.Numbered)
    (hjoins : d'.instances = d.instances ++ (keyJoins route d).map Join.instance) :
    ((root, route.backwards.1.destination) :: d'.instances).lookup (d.keySlot route) =
      some route.first.destination := by
  have hturn : route.backwards.2.reverse ++ [route.backwards.1] = route.first :: route.rest :=
    route.reverse_backwards
  have htables : (keyJoins route d).map Join.table = route.backwards.2.map Hop.destination :=
    tables_backJoins ..
  rw [keySlot, Join.lastSlot_eq]
  cases hlast : (keyJoins route d).getLast? with
  | none =>
    -- without joins the route has one hop
    have hnil := List.getLast?_eq_none_iff.1 hlast
    simp only [hnil, List.map_nil, List.nil_eq, List.map_eq_nil_iff] at htables
    rw [htables] at hturn
    simp only [List.reverse_nil, List.nil_append, List.cons.injEq] at hturn
    rw [← hturn.1]
    exact List.lookup_cons_self
  | some j =>
    have hj : j.instance ∈ d'.instances := by
      rw [hjoins]
      exact List.mem_append_right _ (List.mem_map_of_mem (List.mem_of_getLast? hlast))
    have htable := congrArg List.getLast? htables
    rw [List.getLast?_map, List.getLast?_map, hlast, ← List.head?_reverse] at htable
    have hfirst : route.backwards.2.reverse.head? = some route.first := by
      cases hback : route.backwards.2.reverse with
      | nil => simp [hback] at htable
      | cons g gs =>
        rw [hback, List.cons_append] at hturn
        rw [(List.cons.inj hturn).1]
        rfl
    rw [hfirst] at htable
    refine (h.lookup hj _).trans ?_
    exact htable

/-- The statement that is planned for the rows of a node is filtered by the key columns of the
first table of its route, returns them last, and fits its layout. -/
theorem PlannedFor.fits_pairing {config : Config} {n : ChainNode} {p : PrefetchPlan}
    (h : PlannedFor config n p) :
    ∃ route slot start, n.association.routeFor n.requirement = .ok route ∧
      p.statement.keyFilter = some ⟨slot, route.first.mapping.map Prod.snd⟩ ∧
      p.statement.instances.lookup slot = some route.first.destination ∧
      p.layout.pairing = some ⟨start, start + route.first.mapping.length⟩ ∧
      p.statement.Fits p.layout n.association.destination [] n.children
        (some (pairingColumns config.pairingName slot (route.first.mapping.map Prod.snd))) := by
  obtain ⟨route, d, hroute, hwalk, -, hstatement, hlayout, -⟩ := h.exists_planned
  have hfetches := fetches_prefetchStatement hstatement
  have hlast : route.backwards.1.destination = n.association.destination :=
    Association.destination_backwards_routeFor hroute
  obtain ⟨js, hnodes, hfollows, hadds⟩ := hwalk.exists_adds
  have hjoins : NumberedFrom d.next (keyJoins route d) := numberedFrom_backJoins ..
  have hnumbered : (d.prefetched n route).Numbered :=
    (adds_register _ _ _).numbered ((hadds.numbered (numbered_start ..)).withJoins hjoins)
  have hothers : (d.prefetched n route).instances =
      d.instances ++ (keyJoins route d).map Join.instance := List.map_append
  let columns := pairingColumns config.pairingName (d.keySlot route)
    (route.first.mapping.map Prod.snd)
  have hsingle : ∀ items ∈ some columns, ∀ i ∈ items, i.isSingle := by
    intro items hitems
    rw [← Option.some.inj hitems]
    exact isSingle_pairingColumns _ _ _
  have hinstances : p.statement.instances =
      (root, route.backwards.1.destination) :: (d.prefetched n route).instances := by
    rw [Statement.instances, hfetches.root, hfetches.table, hfetches.joins]
    rfl
  have hscopes : p.layout.scopes = d.layout.scopes := by rw [hlayout]; rfl
  -- the key columns come last and are the pairing
  have hpair : p.layout.pairing.toList = Span.consecutive d.layout.width [columns.length] := by
    simp [columns, hlayout, Layout.pushPairing, Span.consecutive, pairingColumns]
  have hwidth : p.layout.width = d.layout.width + [columns.length].sum := by
    simp [columns, hlayout, Layout.pushPairing, pairingColumns]
  have hfits := hadds.fits hnodes hfollows hnumbered hothers (List.forall_mem_nil _) hsingle
    hfetches.root (hfetches.table.trans hlast) hfetches.joins hfetches.select hscopes hpair hwidth
  have hkey : p.statement.instances.lookup (d.keySlot route) = some route.first.destination := by
    rw [hinstances]
    exact hnumbered.lookup_keySlot hothers
  exact ⟨route, d.keySlot route, d.layout.width, hroute, hfetches.keyFilter, hkey,
    by rw [hlayout]; rfl, hfits⟩

/-- The statement that is planned for the rows of a node fits its layout. -/
theorem PlannedFor.fits {config : Config} {n : ChainNode} {p : PrefetchPlan}
    (h : PlannedFor config n p) :
    ∃ pairing,
      p.statement.Fits p.layout n.association.destination [] n.children (some pairing) := by
  obtain ⟨_, _, _, -, -, -, -, hfits⟩ := h.fits_pairing
  exact ⟨_, hfits⟩

/-- Plans that were made for nodes fit them. -/
theorem fitAll_of_each {config : Config} {ns : List ChainNode} {ps : List PrefetchPlan}
    (h : Each (PlannedFor config) ns ps) : FitAll ns ps := by
  induction h with
  | nil => trivial
  | cons own _ _ ihBelow ihOthers =>
    rw [FitAll]
    exact ⟨(PrefetchPlan.fits_iff ..).2 ⟨own.fits, ihBelow⟩, ihOthers⟩

/-- The plans that the walk leaves behind are those of the nodes with statements of their own,
and each fits its layout. -/
theorem Planned.fitAll {config : Config} {anchor : Anchor} {nodes : List ChainNode}
    {d d' : Draft} (h : Planned config anchor nodes d d') :
    ∃ more : List (Except AssociationError PrefetchPlan), d'.pending = d.pending ++ more ∧
      ∀ ps, more = ps.map .ok → FitAll (ChainNode.separateAll nodes) ps := by
  obtain ⟨more, hmore, heach⟩ := h.each
  exact ⟨more, hmore, fun ps hps => fitAll_of_each (heach ps hps)⟩

end Draft

namespace Request

open PrefetchPlan (FitAll)

/-- The SELECT list of every planned statement agrees with its layout. -/
theorem compile_fits {r : Request} {config : Config} {q : CompiledQuery}
    (h : r.compile config = .ok q) :
    ∃ s d, r.rootStatement config = .ok (s, d) ∧ s.bind config.dialect [] = .ok q.root.text ∧
      s.Fits q.root.layout r.table (r.annotations.map fun p => .expr p.1 Draft.root p.2) r.chain
        none ∧
      FitAll (ChainNode.separateAll r.chain) q.prefetches := by
  obtain ⟨s, d', hs, hbind, hlayout, hpending⟩ := compile_eq_ok h
  obtain ⟨aggregates, d, js, hwalk, hjs, rfl, hstatement⟩ := rootStatement_eq_ok hs
  obtain ⟨ns, hnodes, hfollows, hadds⟩ := hwalk.exists_adds
  obtain ⟨more, hmore, hfit⟩ := hwalk.fitAll
  have hlength : (r.annotations.map fun p => SelectItem.expr p.1 Draft.root p.2).length =
      r.annotations.length := List.length_map _
  rw [← hlength] at hadds
  have hall : FitAll (ChainNode.separateAll r.chain) q.prefetches := by
    apply hfit
    rw [← hpending]
    exact hmore.symm
  have hfits : s.Fits q.root.layout r.table
      (r.annotations.map fun p => .expr p.1 Draft.root p.2) r.chain none := by
    have hnumbered : ((d.withJoins js).register Draft.root r.aliases).Numbered :=
      (Draft.adds_register _ _ _).numbered
        ((hadds.numbered (Draft.numbered_start ..)).withJoins hjs)
    -- the joins of the aggregates come behind those of the nodes and bring no columns
    have hothers : ((d.withJoins js).register Draft.root r.aliases).instances =
        d.instances ++ js.map Join.instance := List.map_append
    have hsingle : ∀ i ∈ r.annotations.map fun p => SelectItem.expr p.1 Draft.root p.2,
        i.isSingle := by
      intro i hi
      obtain ⟨a, -, rfl⟩ := List.mem_map.1 hi
      rfl
    have hstarts := starts_statement rfl hstatement
    have hselect : s.select = .star s.root ::
        (r.annotations.map fun p => .expr p.1 Draft.root p.2) ++ d.stars.map .star ++ [] :=
      hstarts.select.trans (List.append_nil _).symm
    have hpairing : d.layout.pairing.toList = [] := congrArg Option.toList hadds.pairing
    rw [hlayout]
    exact hadds.fits hnodes hfollows hnumbered hothers hsingle (by simp) hstarts.root hstarts.table
      hstarts.joins hselect rfl hpairing rfl
  exact ⟨s, _, hs, hbind, hfits, hall⟩

/-- In the library the columns are those of the layouts. -/
theorem compile_fits_library :
    ∃ (q : CompiledQuery) (s : Statement), Library.request.compile = .ok q ∧
      s.Fits q.root.layout Library.books [] [Library.author, Library.chaptersOfBook] none ∧
      FitAll [Library.chaptersOfBook] q.prefetches := by
  obtain ⟨q, hq⟩ := Library.exists_compile
  obtain ⟨s, d, -, -, hs, hall⟩ := compile_fits hq
  exact ⟨q, s, hq, hs, hall⟩

end Request

end AssociationQuery
