import AssociationQuery.Proofs.Nesting.Outline
import AssociationQuery.Proofs.Planning.Places
import AssociationQuery.Proofs.Planning.Plans

/-!
# AssociationQuery.Proofs.Nesting.Layouts

The scopes of a statement are the included nodes of its chain, nested as they are there.

The walk adds scopes one by one, each after a test that its name is free.  What this keeps is
that the scopes form a tree with different names below each of them, `Layout.IsTree`; which
nodes the scopes belong to, and below which scope each of them is put, is read off the chain by
`ChainNode.nestedAll`.  Together they make `Request.compile_flattens`.
-/

namespace AssociationQuery

namespace Layout

/-! ## trees of scopes -/

/-- The scopes form a tree: each lies below an earlier one and is listed there, in order, and no
name is used twice below a scope. -/
structure IsTree (l : Layout) : Prop where
  nonempty : 0 < l.scopes.length
  root : l.root.parent = none
  earlier : ∀ i < l.scopes.length, ∀ p, (l.scope i).parent = some p → p < i
  children : ∀ i < l.scopes.length, (l.scope i).children =
    (List.range l.scopes.length).filter fun k => (l.scope k).parent = some i
  names : ∀ i < l.scopes.length,
    ((l.scope i).children.map (fun k => (l.scope k).name) ++ (l.scope i).prefetched).Nodup

variable {l : Layout}

/-- Children stand in the list of scopes. -/
theorem IsTree.child_lt (h : l.IsTree) {i : Nat} (hi : i < l.scopes.length) {k : Nat}
    (hk : k ∈ (l.scope i).children) : k < l.scopes.length := by
  rw [h.children i hi] at hk
  exact List.mem_range.1 (List.mem_filter.1 hk).1

/-- A name that is not taken is not that of a child, nor of announced rows. -/
theorem notMem_of_not_isTaken {parent : Nat} {name : String} (hp : parent < l.scopes.length)
    (h : l.isTaken parent name = false) :
    name ∉ (l.scope parent).children.map (fun k => (l.scope k).name) ∧
      name ∉ (l.scope parent).prefetched := by
  simp only [isTaken, child?, getElem?_scopes hp, Bool.or_eq_false_iff] at h
  obtain ⟨hchild, hprefetched⟩ := h
  constructor
  · intro hmem
    obtain ⟨k, hk, heq⟩ := List.mem_map.1 hmem
    have hnone := Option.isNone_iff_eq_none.1 (Option.isSome_eq_false_iff.1 hchild)
    have hne := List.find?_eq_none.1 hnone k hk
    simp [heq] at hne
  · simpa using hprefetched

/-- A single scope is a tree. -/
theorem isTree_ofWidth (width : Nat) : (ofWidth width).IsTree where
  nonempty := Nat.zero_lt_one
  root := rfl
  earlier i hi p hp := by
    obtain rfl : i = 0 := Nat.lt_one_iff.1 hi
    cases hp
  children i hi := by
    obtain rfl : i = 0 := Nat.lt_one_iff.1 hi
    rfl
  names i hi := by
    obtain rfl : i = 0 := Nat.lt_one_iff.1 hi
    exact .nil

/-- A scope under a name that is free below its parent. -/
theorem IsTree.pushScope (h : l.IsTree) {parent : Nat} {name : String}
    (hp : parent < l.scopes.length) (hfree : l.isTaken parent name = false) (width : Nat)
    (nullable : Bool) : (l.pushScope parent name width nullable).IsTree := by
  have hlength := length_scopes_pushScope l parent name width nullable
  have hold (i : Nat) (hi : i < l.scopes.length) := scope_pushScope hi parent name width nullable
  have hnew := scope_pushScope_last l parent name width nullable
  -- a scope is the new one or an old one, which may have got one more child
  have hlast (i : Nat) (hi : i < l.scopes.length + 1) : i < l.scopes.length ∨ i = l.scopes.length :=
    by omega
  generalize hl' : l.pushScope parent name width nullable = l' at hlength hold hnew
  exact {
    nonempty := by omega
    root := by
      rw [Layout.root, hold 0 h.nonempty]
      exact h.root
    earlier := by
      intro i hi p hparent
      rcases hlast i (hlength ▸ hi) with hi | rfl
      · rw [hold i hi] at hparent
        exact h.earlier i hi p hparent
      · rw [hnew] at hparent
        obtain rfl := Option.some.inj hparent
        exact hp
    children := by
      intro i hi
      have hbefore : (List.range l.scopes.length).filter (fun k => (l'.scope k).parent = some i) =
          (List.range l.scopes.length).filter (fun k => (l.scope k).parent = some i) :=
        List.filter_congr fun k hk => by rw [hold k (List.mem_range.1 hk)]
      rw [hlength, List.range_succ, List.filter_append, hbefore]
      rcases hlast i (hlength ▸ hi) with hi | rfl
      · rw [hold i hi, h.children i hi]
        by_cases heq : parent = i <;> simp [hnew, heq]
      · have hnone : ∀ k ∈ List.range l.scopes.length,
            ¬(decide ((l.scope k).parent = some l.scopes.length)) = true := by
          intro k hk hparent
          have hlt := List.mem_range.1 hk
          have := h.earlier k hlt _ (of_decide_eq_true hparent)
          omega
        rw [hnew, List.filter_eq_nil_iff.2 hnone]
        simp [hnew]
        omega
    names := by
      intro i hi
      rcases hlast i (hlength ▸ hi) with hi | rfl
      · have hnames : (l.scope i).children.map (fun k => (l'.scope k).name) =
            (l.scope i).children.map (fun k => (l.scope k).name) :=
          List.map_congr_left fun k hk => by rw [hold k (h.child_lt hi hk)]
        have hnodup := h.names i hi
        rw [hold i hi]
        by_cases heq : parent = i
        · subst heq
          obtain ⟨hchildren, hprefetched⟩ := notMem_of_not_isTaken hp hfree
          simp only [if_pos, List.map_append, hnames, List.map_singleton, hnew]
          grind
        · simpa [if_neg heq, hnames] using hnodup
      · rw [hnew]
        exact .nil }

/-- A name under which rows are added later. -/
theorem IsTree.pushPrefetched (h : l.IsTree) {parent : Nat} {name : String}
    (hp : parent < l.scopes.length) (hfree : l.isTaken parent name = false) :
    (l.pushPrefetched parent name).IsTree := by
  have hlength : (l.pushPrefetched parent name).scopes.length = l.scopes.length :=
    List.length_modify _ _ _
  -- the scopes stay, one of them announces one more name
  have hold (i : Nat) (hi : i < l.scopes.length) := scope_pushPrefetched hi parent name
  generalize hl' : l.pushPrefetched parent name = l' at hlength hold
  exact {
    nonempty := hlength ▸ h.nonempty
    root := by
      rw [Layout.root, hold 0 h.nonempty]
      exact h.root
    earlier := by
      intro i hi p hparent
      rw [hold i (hlength ▸ hi)] at hparent
      exact h.earlier i (hlength ▸ hi) p hparent
    children := by
      intro i hi
      rw [hold i (hlength ▸ hi), hlength, h.children i (hlength ▸ hi)]
      exact List.filter_congr fun k hk => by rw [hold k (List.mem_range.1 hk)]
    names := by
      intro i hi
      rw [hlength] at hi
      have hnames : (l.scope i).children.map (fun k => (l'.scope k).name) =
          (l.scope i).children.map (fun k => (l.scope k).name) :=
        List.map_congr_left fun k hk => by rw [hold k (h.child_lt hi hk)]
      have hnodup := h.names i hi
      rw [hold i hi, hnames]
      by_cases heq : parent = i
      · subst heq
        obtain ⟨hchildren, hprefetched⟩ := notMem_of_not_isTaken hp hfree
        simp only [if_pos]
        grind
      · simpa [if_neg heq] using hnodup }

/-- The name of each scope and the scope that it lies below. -/
def marks (l : Layout) : List (String × Option Nat) := l.scopes.map fun s => (s.name, s.parent)

theorem length_marks (l : Layout) : l.marks.length = l.scopes.length := List.length_map _

/-- A new scope is marked with its name and its parent. -/
theorem marks_pushScope (l : Layout) (parent : Nat) (name : String) (width : Nat)
    (nullable : Bool) :
    (l.pushScope parent name width nullable).marks = l.marks ++ [(name, some parent)] := by
  have hmark (s : Scope) : (fun s : Scope => (s.name, s.parent))
      { s with children := s.children ++ [l.scopes.length] } = (s.name, s.parent) := rfl
  simp only [marks, pushScope, List.map_append]
  exact congrArg (· ++ [(name, some parent)]) (Draft.map_modify hmark _ _)

/-- Announced rows leave the marks as they are. -/
theorem marks_pushPrefetched (l : Layout) (parent : Nat) (name : String) :
    (l.pushPrefetched parent name).marks = l.marks := by
  have hmark (s : Scope) : (fun s : Scope => (s.name, s.parent))
      { s with prefetched := s.prefetched ++ [name] } = (s.name, s.parent) := rfl
  exact Draft.map_modify hmark _ _

/-! ## growing layouts -/

/-- The layouts that the walk makes.  It begins with one scope, and each step adds a scope or
announces rows of a later statement, under a name that is free. -/
inductive Grown : Layout → Prop
  | start (width : Nat) : Grown (ofWidth width)
  | scope {l : Layout} {parent : Nat} {name : String} (before : Grown l)
      (below : parent < l.scopes.length) (free : l.isTaken parent name = false) (width : Nat)
      (nullable : Bool) : Grown (l.pushScope parent name width nullable)
  | announced {l : Layout} {parent : Nat} {name : String} (before : Grown l)
      (below : parent < l.scopes.length) (free : l.isTaken parent name = false) :
      Grown (l.pushPrefetched parent name)

/-- A layout that has grown by the walk is a tree. -/
theorem Grown.isTree (h : l.Grown) : l.IsTree := by
  induction h with
  | start width => exact isTree_ofWidth width
  | scope _ below free width nullable ih => exact ih.pushScope below free width nullable
  | announced _ below free ih => exact ih.pushPrefetched below free

end Layout

/-! ## the walk -/

open ChainNode (NearestIs Nested Position nestedAll scopePositions)
open ChainNode.Nested (scopes)

/-- The name of a node's scope and the scope that it lies below. -/
def ChainNode.Nested.mark (e : Nested) : String × Option Nat := (e.node.key, some e.around)

namespace Draft

/-- A name that could be claimed was not taken. -/
theorem not_isTaken_of_claimScope {d : Draft} {scope : Nat} {key : String}
    (h : d.claimScope scope key = .ok ()) : d.layout.isTaken scope key = false := by
  rw [claimScope] at h
  split at h
  · cases h
  · next hfree => simpa using hfree

/-- The walk only adds scopes. -/
theorem Planned.length_scopes_le {config : Config} {anchor : Anchor} {nodes : List ChainNode}
    {d d' : Draft} (h : Planned config anchor nodes d d') :
    d.layout.scopes.length ≤ d'.layout.scopes.length := by
  obtain ⟨js, -, -, hadds⟩ := h.exists_adds
  have hnames := congrArg List.length hadds.names
  simp at hnames
  omega

/-- The walk adds to a layout step by step. -/
theorem Planned.grown {config : Config} {anchor : Anchor} {nodes : List ChainNode}
    {d d' : Draft} (h : Planned config anchor nodes d d')
    (hscope : anchor.scope < d.layout.scopes.length) (hd : d.layout.Grown) :
    d'.layout.Grown := by
  -- along the walk: a scope is pushed only under a name that is free
  induction h with
  | done => exact hd
  | @separate anchor n rest d d₁ d' _ _ _ _ free guarded _ _ _ ihOthers =>
    have hlength : (d₁.leave config anchor n).layout.scopes.length = d.layout.scopes.length :=
      (List.length_modify _ _ _).trans (by rw [guarded.layout])
    have hleave : (d₁.leave config anchor n).layout.Grown := by
      rw [leave, guarded.layout]
      exact hd.announced hscope (not_isTaken_of_claimScope free)
    exact ihOthers (hlength ▸ hscope) hleave
  | @joined anchor n rest route d d₁ d' _ _ _ free hchildren _ ihChildren ihOthers =>
    have hjoin : (d.join anchor n route).layout.Grown := by
      cases hinclusion : n.inclusion with
      | joining => rwa [layout_join_joining hinclusion]
      | including =>
        rw [layout_join_included hinclusion]
        exact hd.scope hscope (not_isTaken_of_claimScope (free hinclusion)) _ _
    have hlt : anchor.scope < d₁.layout.scopes.length :=
      Nat.lt_of_lt_of_le hscope
        (Nat.le_trans (keeps_join d anchor n route).scopes hchildren.length_scopes_le)
    exact ihOthers hlt (ihChildren (scope_below_lt n route hscope) hjoin)

/-- The walk from a base table grows a layout. -/
theorem Planned.grown_of_start {config : Config} {numbering : AliasNumbering} {t : Table}
    {width : Nat} {nodes : List ChainNode} {d : Draft}
    (h : Planned config (.base t) nodes (.start numbering t width) d) : d.layout.Grown :=
  h.grown Nat.zero_lt_one (.start width)

/-- A joined node itself, if it has a scope. -/
def ownNested (anchor : Anchor) (above : List ChainNode) (n : ChainNode) : List Nested :=
  if n.inclusion = .including then [⟨⟨n, above⟩, anchor.scope⟩] else []

section joined

variable {anchor : Anchor} {n : ChainNode} (route : Route) (d : Draft) (above : List ChainNode)

/-- The nodes below a joined one are nested as the walk goes on. -/
theorem nested_of_joined (h : ¬(n.inclusion = .including ∧ n.association.isToMany)) :
    n.nested above anchor.scope d.layout.scopes.length = ownNested anchor above n ++
      nestedAll (n :: above) (below anchor n route d).scope
        (d.join anchor n route).layout.scopes.length n.children := by
  cases hinclusion : n.inclusion with
  | joining =>
    rw [layout_join_joining hinclusion, scope_below_joining hinclusion,
      ChainNode.nested_of_joining hinclusion, ownNested, if_neg (by simp [hinclusion])]
    rfl
  | including =>
    rw [layout_join_included hinclusion, scope_below_included hinclusion,
      ChainNode.nested_of_included hinclusion fun hm => h ⟨hinclusion, hm⟩,
      Layout.length_scopes_pushScope, ownNested, if_pos hinclusion]
    rfl

/-- Joining a node marks its scope, if it is included. -/
theorem marks_join (h : ¬(n.inclusion = .including ∧ n.association.isToMany)) :
    (d.join anchor n route).layout.marks =
      d.layout.marks ++ (scopes (ownNested anchor above n)).map Nested.mark := by
  cases hinclusion : n.inclusion with
  | joining =>
    rw [layout_join_joining hinclusion, ownNested, if_neg (by simp [hinclusion])]
    exact (List.append_nil _).symm
  | including =>
    rw [layout_join_included hinclusion, ownNested, if_pos hinclusion, Layout.marks_pushScope,
      ChainNode.scopes_cons_of_included fun hm => h ⟨hinclusion, hm⟩]
    rfl

end joined

/-- The walk adds scopes for the included nodes that it joins. -/
theorem Planned.marks {config : Config} {anchor : Anchor} {nodes : List ChainNode}
    {d d' : Draft} (h : Planned config anchor nodes d d') (above : List ChainNode) :
    d'.layout.marks = d.layout.marks ++
      (scopes (nestedAll above anchor.scope d.layout.scopes.length nodes)).map Nested.mark := by
  -- along the walk: a node's scopes are numbered from the number of those there already
  induction h generalizing above with
  | done => exact (List.append_nil _).symm
  | @separate anchor n rest d d₁ d' _ including toMany _ _ guarded _ _ _ ihOthers =>
    have hmarks : (d₁.leave config anchor n).layout.marks = d.layout.marks := by
      rw [leave, guarded.layout, Layout.marks_pushPrefetched]
    have hlength := congrArg List.length hmarks
    simp only [Layout.length_marks] at hlength
    rw [ihOthers above, hmarks, hlength, nestedAll,
      ChainNode.nested_of_separate ⟨including, toMany⟩, ChainNode.Nested.scopes_append,
      ChainNode.scopes_cons_of_separate ⟨including, toMany⟩]
    rfl
  | @joined anchor n rest route d d₁ d' _ kind _ _ _ _ ihChildren ihOthers =>
    have hown : d₁.layout.marks = d.layout.marks ++
        (scopes (n.nested above anchor.scope d.layout.scopes.length)).map Nested.mark := by
      rw [ihChildren (n :: above), marks_join route d above kind,
        nested_of_joined route d above kind, ChainNode.Nested.scopes_append, List.map_append,
        List.append_assoc]
    have hlength := congrArg List.length hown
    simp only [Layout.length_marks, List.length_append, List.length_map] at hlength
    have hregister : (d₁.register (nodeSlot anchor n route d.next) n.aliases).layout = d₁.layout :=
      rfl
    rw [ihOthers above, hregister, hown, hlength, nestedAll, ChainNode.Nested.scopes_append,
      List.map_append, List.append_assoc]

/-- The number of scopes after a joined node and all below it. -/
theorem Planned.length_scopes_of_joined {config : Config} {anchor : Anchor} {n : ChainNode}
    {route : Route} {d d' : Draft}
    (h : Planned config (Draft.below anchor n route d) n.children (d.join anchor n route) d')
    (kind : ¬(n.inclusion = .including ∧ n.association.isToMany)) (above : List ChainNode) :
    d'.layout.scopes.length =
      d.layout.scopes.length +
        (scopes (n.nested above anchor.scope d.layout.scopes.length)).length := by
  have hmarks := congrArg List.length (h.marks (n :: above))
  rw [marks_join route d above kind, List.append_assoc, ← List.map_append,
    ← ChainNode.Nested.scopes_append, ← nested_of_joined route d above kind] at hmarks
  simpa [Layout.length_marks] using hmarks

end Draft

/-! ## flattened chains -/

/-- The scopes of a layout are the first scope and those of the included nodes that are joined,
in the order of the chain.  Each lies below that of the nearest included node above its own,
and the places of the nodes are different, so that this is one scope. -/
structure Layout.Flattens (l : Layout) (nodes : List ChainNode) : Prop where
  tree : l.IsTree
  names : l.scopes.map Scope.name = "" :: (scopePositions nodes).map fun x => x.node.key
  parents : ∀ i x, (scopePositions nodes)[i]? = some x →
    ∃ p, (l.scope (i + 1)).parent = some p ∧ NearestIs (scopePositions nodes) x.above p
  distinct : (scopePositions nodes).Nodup

namespace Layout

/-- The outline depends on the scopes. -/
theorem Flattens.of_scopes {l l' : Layout} {nodes : List ChainNode} (h : l.Flattens nodes)
    (hl : l'.scopes = l.scopes) : l'.Flattens nodes := by
  obtain ⟨scopes, pairing, width⟩ := l
  obtain ⟨scopes', pairing', width'⟩ := l'
  obtain rfl : scopes' = scopes := hl
  exact ⟨⟨h.tree.nonempty, h.tree.root, h.tree.earlier, h.tree.children, h.tree.names⟩,
    h.names, h.parents, h.distinct⟩

/-- The names of scopes are those of the nodes at their places. -/
theorem name_of_names {l : Layout} {places : List Position}
    (names : l.scopes.map Scope.name = "" :: places.map fun x => x.node.key) {i : Nat}
    {x : Position} (h : places[i]? = some x) : (l.scope (i + 1)).name = x.node.key := by
  have hi := congrArg (fun names => names[i + 1]?) names
  simp only [List.getElem?_map, List.getElem?_cons_succ, h, Option.map_some,
    Option.map_eq_some_iff] at hi
  obtain ⟨s, hs, heq⟩ := hi
  rw [scope_of_getElem? hs, heq]

/-- Nodes whose scopes form a tree in this way have different places. -/
theorem nodup_of_parents {l : Layout} {places : List Position} (tree : l.IsTree)
    (names : l.scopes.map Scope.name = "" :: places.map fun x => x.node.key)
    (parents : ∀ i x, places[i]? = some x →
      ∃ p, (l.scope (i + 1)).parent = some p ∧ NearestIs places x.above p) : places.Nodup := by
  have hlength : l.scopes.length = places.length + 1 := by
    simpa using congrArg List.length names
  have hlt {i : Nat} {x : Position} (h : places[i]? = some x) : i + 1 < l.scopes.length := by
    have := (List.getElem?_eq_some_iff.1 h).1
    omega
  -- two equal places would lie in one scope, since those around them come earlier
  have hne : ∀ k j : Nat, j < k → ∀ x, places[j]? = some x → places[k]? ≠ some x := by
    intro k
    induction k using Nat.strongRecOn with
    | ind k ih =>
      intro j hj x hxj hxk
      obtain ⟨p, hp, hnear⟩ := parents j x hxj
      obtain ⟨p', hp', hnear'⟩ := parents k x hxk
      have hpj := tree.earlier _ (hlt hxj) p hp
      have hpk := tree.earlier _ (hlt hxk) p' hp'
      have heq : p = p' := by
        unfold NearestIs at hnear hnear'
        split at hnear
        · simp_all
        · next y hy =>
          simp only [hy] at hnear'
          obtain ⟨i, rfl, hi⟩ := hnear
          obtain ⟨i', rfl, hi'⟩ := hnear'
          rcases Nat.lt_trichotomy i i' with hii | rfl | hii
          · exact absurd hi' (ih i' (by omega) i hii y hi)
          · rfl
          · exact absurd hi (ih i (by omega) i' hii y hi')
      subst heq
      have hmem {i : Nat} (hi : i < l.scopes.length) (hparent : (l.scope i).parent = some p) :
          i ∈ (l.scope p).children := by
        rw [tree.children p (by have := hlt hxj; omega)]
        exact List.mem_filter.2 ⟨List.mem_range.2 hi, decide_eq_true hparent⟩
      have hnodup := (List.nodup_append.1 (tree.names p (by have := hlt hxj; omega))).1
      have hsame := List.inj_on_of_nodup_map hnodup (hmem (hlt hxj) hp) (hmem (hlt hxk) hp')
        ((name_of_names names hxj).trans (name_of_names names hxk).symm)
      omega
  refine List.nodup_iff_getElem?_ne_getElem?.2 fun j k hj hk heq => ?_
  have hplace := List.getElem?_eq_getElem (l := places) (Nat.lt_trans hj hk)
  exact hne k j hj _ hplace (heq ▸ hplace)

end Layout

namespace Draft

/-- The walk from the base table of a statement makes a flattened chain of its layout. -/
theorem Planned.flattens {config : Config} {numbering : AliasNumbering} {t : Table} {width : Nat}
    {nodes : List ChainNode} {d : Draft}
    (h : Planned config (.base t) nodes (.start numbering t width) d) :
    d.layout.Flattens nodes := by
  -- the scopes in order, each with the node above it and the scope around it
  let es := scopes (nestedAll [] 0 1 nodes)
  have hplaces : es.map Nested.position = scopePositions nodes :=
    ChainNode.positions_nestedAll nodes [] 0 1
  have hmarks : d.layout.marks = ("", none) :: es.map Nested.mark := h.marks []
  have hnear : ∀ e ∈ nestedAll [] 0 1 nodes,
      NearestIs (scopePositions nodes) e.position.above e.around :=
    ChainNode.nearestIs_scopePositions nodes
  have htree : d.layout.IsTree := h.grown_of_start.isTree
  have hnames : d.layout.scopes.map Scope.name =
      "" :: (scopePositions nodes).map fun x => x.node.key := by
    have hfst := congrArg (List.map Prod.fst) hmarks
    rw [Layout.marks, List.map_map, List.map_cons, List.map_map] at hfst
    rw [← hplaces, List.map_map]
    exact hfst
  have hparents : ∀ i x, (scopePositions nodes)[i]? = some x →
      ∃ p, (d.layout.scope (i + 1)).parent = some p ∧
        NearestIs (scopePositions nodes) x.above p := by
    intro i x hx
    rw [← hplaces, List.getElem?_map, Option.map_eq_some_iff] at hx
    obtain ⟨e, he, rfl⟩ := hx
    have hmark := congrArg (fun marks => marks[i + 1]?) hmarks
    simp only [Layout.marks, List.getElem?_map, List.getElem?_cons_succ, he, Option.map_some,
      Option.map_eq_some_iff] at hmark
    obtain ⟨s, hs, heq⟩ := hmark
    have hparent : (d.layout.scope (i + 1)).parent = some e.around := by
      rw [Layout.scope_of_getElem? hs]
      exact congrArg Prod.snd heq
    exact ⟨e.around, hparent, hnear e (List.mem_of_mem_filter (List.mem_of_getElem? he))⟩
  exact ⟨htree, hnames, hparents, Layout.nodup_of_parents htree hnames hparents⟩

/-- The layout of a plan flattens the nodes below its node. -/
theorem PlannedFor.flattens {config : Config} {n : ChainNode} {p : PrefetchPlan}
    (h : PlannedFor config n p) : p.layout.Flattens n.children := by
  obtain ⟨route, d, -, hwalk, -, -, hlayout, -⟩ := h.exists_planned
  refine hwalk.flattens.of_scopes ?_
  rw [hlayout]
  rfl

end Draft

namespace Request

open PrefetchPlan (Each)

/-- The layout of every statement is the flattened chain of its nodes. -/
theorem compile_flattens {r : Request} {config : Config} {q : CompiledQuery}
    (h : r.compile config = .ok q) :
    q.root.layout.Flattens r.chain ∧
      Each (fun n p => p.layout.Flattens n.children) (ChainNode.separateAll r.chain)
        q.prefetches := by
  obtain ⟨s, d', hs, -, hlayout, -⟩ := compile_eq_ok h
  obtain ⟨aggregates, d, js, hwalk, -, rfl, -⟩ := rootStatement_eq_ok hs
  have hroot : q.root.layout.Flattens r.chain := by
    rw [hlayout]
    exact hwalk.flattens
  exact ⟨hroot, (each_of_compile h).imp fun _ _ hp => hp.flattens⟩

end Request

namespace Library

def book : ChainNode :=
  .ofAssociation (.direct .belongsTo "book" chapters books [("bookId", "id")] [] [] none)

/-- Chapters with the authors of their books, but without the books. -/
def authored : Request where
  table := chapters
  chain := [{ book with inclusion := .joining, children := [author] }]

/-- The request compiles. -/
theorem exists_compile_authored : ∃ q, authored.compile = .ok q :=
  exists_of_isOk (by decide +kernel)

end Library

/-- The author lies in the scope of the chapter: the book between them has none. -/
theorem Request.compile_flattens_authored :
    ∃ q : CompiledQuery, Library.authored.compile = .ok q ∧
      q.root.layout.scopes.map Scope.name = ["", "author"] ∧
      (q.root.layout.scope 1).parent = some 0 := by
  obtain ⟨q, hq⟩ := Library.exists_compile_authored
  obtain ⟨hroot, -⟩ := compile_flattens hq
  obtain ⟨p, hparent, hnear⟩ := hroot.parents 0 _ rfl
  obtain rfl : p = 0 := hnear
  exact ⟨q, hq, hroot.names, hparent⟩

end AssociationQuery
