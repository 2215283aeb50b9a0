import AssociationQuery.Proofs.Decoding.Scopes
import Mathlib.Data.List.Induction
import Mathlib.Data.List.Nodup
import Mathlib.Logic.Relation

/-!
# AssociationQuery.Proofs.Decoding.Paths

Scopes and the paths to them.

A path is written by putting dots between the names that lead down to a scope, and read by cutting
it at its dots.  That the reading undoes the writing takes names without dots, and a name that is
not empty right below the first scope, whose own path is the empty one: these are the names of
`Layout.Legible`.  With them, and only with them, paths stand for scopes, `Layout.Addresses`.
-/

namespace AssociationQuery

namespace Layout

/-! ## names in a path -/

/-- Paths are split at dots. -/
theorem segments_eq_splitOn (cs : List Char) : segments cs = cs.splitOn '.' := by
  induction cs with
  | nil => rfl
  | cons c cs ih =>
    rw [segments, List.splitOn_cons_eq_if_modifyHead, ih]
    by_cases hc : c = '.'
    · simp [hc]
    · cases h : cs.splitOn '.' <;> simp_all

/-- A dot between two parts parts their names. -/
theorem names_append (parent name : String) :
    names (parent ++ "." ++ name) = names parent ++ names name := by
  have hlist : (parent ++ "." ++ name).toList = parent.toList ++ '.' :: name.toList := by simp
  simp only [names, segments_eq_splitOn, hlist, List.splitOn_append_cons_self, List.map_append]

/-- No part has a dot. -/
theorem dot_notMem_of_mem_segments {cs : List Char} : ∀ s ∈ segments cs, '.' ∉ s := by
  induction cs with
  | nil => simp [segments]
  | cons c cs ih =>
    rw [segments]
    by_cases hc : c = '.'
    · simpa [hc] using ih
    · cases h : segments cs <;> simp_all [Ne.symm hc]

/-- No name read off a path has a dot. -/
theorem dot_notMem_of_mem_names {path name : String} (h : name ∈ names path) :
    '.' ∉ name.toList := by
  obtain ⟨s, hs, rfl⟩ := List.mem_map.1 h
  simpa using dot_notMem_of_mem_segments s hs

/-- A path without a dot is one name. -/
theorem names_of_dot_notMem {name : String} (h : '.' ∉ name.toList) : names name = [name] := by
  simp [names, segments_eq_splitOn, List.splitOn_eq_singleton h]

/-! ## the way to a scope -/

/-- A tree of scopes in which a path goes on from the path of the scope above. -/
structure Traced (l : Layout) : Prop extends l.IsTree where
  start : l.root.path = "" ∧ l.root.nullable = false
  below : ∀ i < l.scopes.length, 0 < i → ∃ p, (l.scope i).parent = some p ∧
    (l.scope i).path = pathBelow (l.scope p).path (l.scope i).name

variable {l : Layout} {i p : Nat}

/-- The first scope alone is traced. -/
theorem traced_ofWidth (width : Nat) : (ofWidth width).Traced where
  toIsTree := isTree_ofWidth width
  start := ⟨rfl, rfl⟩
  below i hi hpos := by
    have : i < 1 := hi
    omega

/-- A new scope with a free name leaves the layout traced. -/
theorem Traced.pushScope (h : l.Traced) {parent : Nat} {name : String}
    (hp : parent < l.scopes.length) (hfree : l.isTaken parent name = false) (width : Nat)
    (nullable : Bool) : (l.pushScope parent name width nullable).Traced where
  toIsTree := h.toIsTree.pushScope hp hfree width nullable
  start := by
    rw [root, scope_pushScope h.nonempty]
    exact h.start
  below i hi hpos := by
    rw [length_scopes_pushScope] at hi
    rcases Nat.lt_succ_iff_lt_or_eq.1 hi with hi | rfl
    · obtain ⟨p, hparent, hpath⟩ := h.below i hi hpos
      have hlt := h.earlier i hi p hparent
      rw [scope_pushScope hi]
      refine ⟨p, hparent, ?_⟩
      rw [scope_pushScope (Nat.lt_trans hlt hi)]
      exact hpath
    · rw [scope_pushScope_last]
      refine ⟨parent, rfl, ?_⟩
      rw [scope_pushScope hp]

/-- So do announced rows with a free name. -/
theorem Traced.pushPrefetched (h : l.Traced) {parent : Nat} {name : String}
    (hp : parent < l.scopes.length) (hfree : l.isTaken parent name = false) :
    (l.pushPrefetched parent name).Traced where
  toIsTree := h.toIsTree.pushPrefetched hp hfree
  start := by
    rw [root, scope_pushPrefetched h.nonempty]
    exact h.start
  below i hi hpos := by
    have hi : i < l.scopes.length := by simpa [Layout.pushPrefetched] using hi
    obtain ⟨p, hparent, hpath⟩ := h.below i hi hpos
    have hlt := h.earlier i hi p hparent
    rw [scope_pushPrefetched hi]
    refine ⟨p, hparent, ?_⟩
    rw [scope_pushPrefetched (Nat.lt_trans hlt hi)]
    exact hpath

/-- A layout that has grown by the walk is traced. -/
theorem Grown.traced (h : l.Grown) : l.Traced := by
  induction h with
  | start width => exact traced_ofWidth width
  | scope _ below free width nullable ih => exact ih.pushScope below free width nullable
  | announced _ below free ih => exact ih.pushPrefetched below free

/-- What is traced depends on the scopes. -/
theorem Traced.of_scopes {l' : Layout} (h : l.Traced) (hl : l'.scopes = l.scopes) : l'.Traced := by
  obtain ⟨scopes, pairing, width⟩ := l
  obtain ⟨scopes', pairing', width'⟩ := l'
  obtain rfl : scopes' = scopes := hl
  exact ⟨⟨h.nonempty, h.toIsTree.root, h.earlier, h.children, h.names⟩, h.start, h.below⟩

/-- The names that lead down to a scope from the first one. -/
def trail (l : Layout) (i : Nat) : List String :=
  match (l.scope i).parent with
  | none => []
  | some p => if p < i then l.trail p ++ [(l.scope i).name] else []
termination_by i

/-- A child is found under its name, and under no other scope. -/
theorem IsTree.child?_eq_some (h : l.IsTree) (hp : p < l.scopes.length) {name : String} :
    l.child? p name = some i ↔
      i < l.scopes.length ∧ (l.scope i).parent = some p ∧ (l.scope i).name = name := by
  have hchildren : i ∈ (l.scope p).children ↔
      i < l.scopes.length ∧ (l.scope i).parent = some p := by
    simp [h.children p hp]
  simp only [child?, getElem?_scopes hp]
  constructor
  · intro hfind
    have hmem := hchildren.1 (List.mem_of_find?_eq_some hfind)
    exact ⟨hmem.1, hmem.2, by simpa using List.find?_some hfind⟩
  · rintro ⟨hi, hparent, hname⟩
    have hmem := hchildren.2 ⟨hi, hparent⟩
    cases hfind : (l.scope p).children.find? fun c => (l.scope c).name == name with
    | none => simpa [hname] using List.find?_eq_none.1 hfind i hmem
    | some k =>
      -- no other scope below has the name
      have hnodup := (List.nodup_append.1 (h.names p hp)).1
      have hk : (l.scope k).name = name := by simpa using List.find?_some hfind
      rw [List.inj_on_of_nodup_map hnodup (List.mem_of_find?_eq_some hfind) hmem
        (hk.trans hname.symm)]

/-- Only the first scope has no way to go. -/
theorem Traced.trail_eq_nil_iff (h : l.Traced) (hi : i < l.scopes.length) :
    l.trail i = [] ↔ i = 0 := by
  constructor
  · intro htrail
    by_contra hne
    obtain ⟨p, hp, -⟩ := h.below i hi (Nat.pos_of_ne_zero hne)
    rw [trail, hp] at htrail
    simp [h.earlier i hi p hp] at htrail
  · rintro rfl
    have hroot : (l.scope 0).parent = none := h.root
    rw [trail, hroot]

/-- The way to a scope is that to the one above and its name. -/
theorem Traced.trail_eq_append_iff (h : l.Traced) (hi : i < l.scopes.length)
    {names : List String} {name : String} : l.trail i = names ++ [name] ↔
      ∃ p < l.scopes.length, l.child? p name = some i ∧ l.trail p = names := by
  constructor
  · intro htrail
    -- the root has an empty trail
    have hpos : 0 < i := by
      by_contra hzero
      have hnil := (h.trail_eq_nil_iff hi).2 (by omega)
      simp [htrail] at hnil
    obtain ⟨p, hp, -⟩ := h.below i hi hpos
    have hlt := h.earlier i hi p hp
    have hplt := Nat.lt_trans hlt hi
    rw [trail, hp] at htrail
    simp only [hlt, if_true] at htrail
    obtain ⟨habove, hname⟩ := List.append_inj' htrail rfl
    exact ⟨p, hplt, (h.child?_eq_some hplt).2 ⟨hi, hp, (List.cons.inj hname).1⟩, habove⟩
  · rintro ⟨p, hplt, hchild, rfl⟩
    obtain ⟨-, hp, rfl⟩ := (h.child?_eq_some hplt).1 hchild
    rw [trail, hp]
    simp [h.earlier i hi p hp]

/-- So it is with the scope above it that the layout lists. -/
theorem Traced.trail_eq (h : l.Traced) (hi : i < l.scopes.length)
    (hp : (l.scope i).parent = some p) : l.trail i = l.trail p ++ [(l.scope i).name] := by
  have hplt := Nat.lt_trans (h.earlier i hi p hp) hi
  exact (h.trail_eq_append_iff hi).2 ⟨p, hplt, (h.child?_eq_some hplt).2 ⟨hi, hp, rfl⟩, rfl⟩

/-- The names on the way lead to one scope only. -/
theorem Traced.trail_injective (h : l.Traced) {j : Nat} (hi : i < l.scopes.length)
    (hj : j < l.scopes.length) (heq : l.trail i = l.trail j) : i = j := by
  generalize hnames : l.trail j = names at heq
  induction names using List.reverseRecOn generalizing i j with
  | nil => rw [(h.trail_eq_nil_iff hi).1 heq, (h.trail_eq_nil_iff hj).1 hnames]
  | append_singleton names name ih =>
    obtain ⟨p, hp, hchild, htrail⟩ := (h.trail_eq_append_iff hi).1 heq
    obtain ⟨p', hp', hchild', htrail'⟩ := (h.trail_eq_append_iff hj).1 hnames
    obtain rfl := ih hp hp' htrail' htrail
    exact Option.some.inj (hchild.symm.trans hchild')

end Layout

/-! ## views along a path -/

namespace DecodedRow

/-- A scope behind which there may be no row, and all whose values are NULL. -/
def Absent (d : DecodedRow) (i : Nat) : Prop :=
  (d.layout.scope i).nullable ∧ (ScopeView.mk d i).isNull

/-- Neither the scope nor any of those it lies below is absent. -/
def Shows (d : DecodedRow) (i : Nat) : Prop :=
  ∀ a, Relation.ReflTransGen (fun i p => (d.layout.scope i).parent = some p) i a → ¬d.Absent a

variable {d : DecodedRow} {i p : Nat}

/-- The first scope is always there. -/
theorem shows_zero (h : d.layout.Traced) : d.Shows 0 := by
  intro a ha habsent
  rcases ha.cases_head with rfl | ⟨p, hp, -⟩
  · have hroot : (d.layout.scope 0).nullable = false := h.start.2
    simp [Absent, hroot] at habsent
  · have hroot : (d.layout.scope 0).parent = none := h.root
    simp [hroot] at hp

/-- A scope shows if it is there and the one above it shows. -/
theorem shows_iff (hp : (d.layout.scope i).parent = some p) :
    d.Shows i ↔ ¬d.Absent i ∧ d.Shows p := by
  constructor
  · intro h
    exact ⟨h i .refl, fun a ha => h a (ha.head hp)⟩
  · rintro ⟨hown, habove⟩ a ha
    rcases ha.cases_head with rfl | ⟨p', hp', ha⟩
    · exact hown
    · obtain rfl : p = p' := Option.some.inj (hp.symm.trans hp')
      exact habove a ha

/-- A child is found in a row if it is a child in the layout and there. -/
theorem child?_eq_some {name : String} {v : ScopeView} :
    (ScopeView.mk d p).child? name = some v ↔
      ∃ i, d.layout.child? p name = some i ∧ ¬d.Absent i ∧ v = ⟨d, i⟩ := by
  simp only [ScopeView.child?, Option.bind_eq_bind, Option.bind_eq_some_iff]
  refine exists_congr fun i => and_congr_right fun _ => ?_
  simp only [Absent, ScopeView.info]
  grind

/-- Names lead down to the scope whose way they are, unless a scope on the way is absent. -/
theorem descend_eq_some (h : d.layout.Traced) {names : List String} {v : ScopeView} :
    d.descend names = some v ↔
      ∃ i < d.layout.scopes.length, d.layout.trail i = names ∧ d.Shows i ∧ v = ⟨d, i⟩ := by
  -- from the back: the last step leads from a scope already reached to one of its children
  induction names using List.reverseRecOn generalizing v with
  | nil =>
    constructor
    · rintro ⟨⟩
      exact ⟨0, h.nonempty, (h.trail_eq_nil_iff h.nonempty).2 rfl, shows_zero h, rfl⟩
    · rintro ⟨i, hi, htrail, -, rfl⟩
      obtain rfl := (h.trail_eq_nil_iff hi).1 htrail
      rfl
  | append_singleton names name ih =>
    have hstep : d.descend (names ++ [name]) = (d.descend names).bind fun v => v.child? name := by
      simp [descend, List.foldlM_append]
    rw [hstep, Option.bind_eq_some_iff]
    constructor
    · rintro ⟨u, hu, hv⟩
      obtain ⟨p, hp, htrail, hshows, rfl⟩ := ih.1 hu
      obtain ⟨i, hchild, hown, rfl⟩ := child?_eq_some.1 hv
      obtain ⟨hi, hparent, -⟩ := (h.child?_eq_some hp).1 hchild
      exact ⟨i, hi, (h.trail_eq_append_iff hi).2 ⟨p, hp, hchild, htrail⟩,
        (shows_iff hparent).2 ⟨hown, hshows⟩, rfl⟩
    · rintro ⟨i, hi, htrail, hshows, rfl⟩
      obtain ⟨p, hp, hchild, habove⟩ := (h.trail_eq_append_iff hi).1 htrail
      obtain ⟨-, hparent, -⟩ := (h.child?_eq_some hp).1 hchild
      obtain ⟨hown, hup⟩ := (shows_iff hparent).1 hshows
      exact ⟨⟨d, p⟩, ih.2 ⟨p, hp, habove, hup, rfl⟩, child?_eq_some.2 ⟨i, hchild, hown, rfl⟩⟩

/-- A path is read as the names between its dots. -/
theorem scopedPath_eq_some (h : d.layout.Traced) (hi : i < d.layout.scopes.length)
    {path : String} :
    d.scopedPath path = some ⟨d, i⟩ ↔ d.layout.trail i = Layout.names path ∧ d.Shows i := by
  rw [scopedPath, descend_eq_some h]
  constructor
  · rintro ⟨j, -, htrail, hshows, heq⟩
    obtain rfl : i = j := congrArg ScopeView.scope heq
    exact ⟨htrail, hshows⟩
  · rintro ⟨htrail, hshows⟩
    exact ⟨i, hi, htrail, hshows, rfl⟩

end DecodedRow

/-! ## legible names -/

namespace Layout

/-- Names that paths can be read by: none has a dot in it, and none right below the first scope is
empty. -/
def Legible (l : Layout) : Prop :=
  ∀ i < l.scopes.length, 0 < i →
    '.' ∉ (l.scope i).name.toList ∧ ((l.scope i).parent = some 0 → (l.scope i).name ≠ "")

/-- Paths stand for scopes: no two scopes have the same, a scope is found by its own, and in every
decoded row the path leads to the view on the scope, unless it or a scope that it lies below is
absent. -/
structure Addresses (l : Layout) : Prop where
  distinct : (l.scopes.map Scope.path).Nodup
  found : ∀ i < l.scopes.length, 0 < i → l.find? (l.scope i).path = some i
  viewed : ∀ d : DecodedRow, d.layout = l → d.row.width = l.width →
    ∀ i < l.scopes.length, 0 < i →
      (d.Shows i → d.scopedPath (l.scope i).path = some ⟨d, i⟩) ∧
        (¬d.Shows i → d.scopedPath (l.scope i).path = none)

variable {l : Layout} {i p : Nat}

theorem pathBelow_empty (name : String) : pathBelow "" name = name := rfl

/-- Below a scope with a path, the path goes on behind a dot. -/
theorem pathBelow_of_ne {path : String} (h : path ≠ "") (name : String) :
    pathBelow path name = path ++ "." ++ name := by
  simp [pathBelow, h]

/-- Legible names are read off a path as they stand on the way. -/
theorem Traced.names_path (h : l.Traced) (hlegible : l.Legible) : ∀ i < l.scopes.length, 0 < i →
    (l.scope i).path ≠ "" ∧ names (l.scope i).path = l.trail i := by
  intro i
  -- a parent comes before its scope, and its path is read back first
  induction i using Nat.strongRecOn with
  | ind i ih =>
    intro hi hpos
    obtain ⟨p, hp, hpath⟩ := h.below i hi hpos
    have hlt := h.earlier i hi p hp
    obtain ⟨hdot, hempty⟩ := hlegible i hi hpos
    rw [hpath, h.trail_eq hi hp]
    rcases Nat.eq_zero_or_pos p with rfl | hppos
    · have hroot : (l.scope 0).path = "" := h.start.1
      rw [hroot, pathBelow_empty, (h.trail_eq_nil_iff h.nonempty).2 rfl]
      exact ⟨hempty hp, names_of_dot_notMem hdot⟩
    · obtain ⟨hne, hnames⟩ := ih p hlt (Nat.lt_trans hlt hi) hppos
      rw [pathBelow_of_ne hne, names_append, hnames, names_of_dot_notMem hdot]
      refine ⟨fun heq => ?_, rfl⟩
      have hlist := congrArg String.toList heq
      simp at hlist

/-- With legible names no two scopes have the same path. -/
theorem Traced.path_injective (h : l.Traced) (hlegible : l.Legible) {j : Nat}
    (hi : i < l.scopes.length) (hj : j < l.scopes.length)
    (heq : (l.scope i).path = (l.scope j).path) : i = j := by
  have hroot : (l.scope 0).path = "" := h.start.1
  rcases Nat.eq_zero_or_pos i with rfl | hipos <;> rcases Nat.eq_zero_or_pos j with rfl | hjpos
  · rfl
  · exact absurd (heq.symm.trans hroot) (h.names_path hlegible j hj hjpos).1
  · exact absurd (heq.trans hroot) (h.names_path hlegible i hi hipos).1
  · apply h.trail_injective hi hj
    rw [← (h.names_path hlegible i hi hipos).2, heq, (h.names_path hlegible j hj hjpos).2]

/-- All paths are different if no two scopes have the same. -/
theorem nodup_paths_iff : (l.scopes.map Scope.path).Nodup ↔
    ∀ i < l.scopes.length, ∀ j < l.scopes.length,
      (l.scope i).path = (l.scope j).path → i = j := by
  have hpaths : l.scopes.map Scope.path =
      (List.range l.scopes.length).map fun i => (l.scope i).path := by
    conv_lhs => rw [← l.map_scope_range, List.map_map]
    rfl
  rw [hpaths]
  constructor
  · intro h i hi j hj heq
    exact List.inj_on_of_nodup_map h (List.mem_range.2 hi) (List.mem_range.2 hj) heq
  · intro h
    refine List.Nodup.map_on (fun i hi j hj heq => ?_) List.nodup_range
    exact h i (List.mem_range.1 hi) j (List.mem_range.1 hj) heq

/-- A scope whose path is its own is found by it. -/
theorem find?_path (hi : i < l.scopes.length)
    (h : ∀ j < l.scopes.length, (l.scope j).path = (l.scope i).path → j = i) :
    l.find? (l.scope i).path = some i := by
  have hscope {j : Nat} (hj : j < l.scopes.length) : l.scope j = l.scopes[j] :=
    scope_of_getElem? (List.getElem?_eq_getElem hj)
  refine List.findIdx?_eq_some_iff_getElem.2 ⟨hi, by simp [hscope hi], ?_⟩
  intro j hj hequal
  have hlt := Nat.lt_trans hj hi
  have := h j hlt (by simpa [hscope hlt] using hequal)
  omega

/-- With legible names, paths stand for scopes. -/
theorem Traced.addresses (h : l.Traced) (hlegible : l.Legible) : l.Addresses where
  distinct := nodup_paths_iff.2 fun i hi j hj heq => h.path_injective hlegible hi hj heq
  found i hi _ := find?_path hi fun j hj heq => h.path_injective hlegible hj hi heq
  viewed := by
    rintro d rfl - i hi hpos
    have hway := (h.names_path hlegible i hi hpos).2
    constructor
    · intro hshows
      exact (DecodedRow.scopedPath_eq_some h hi).2 ⟨hway.symm, hshows⟩
    · intro hnot
      refine Option.eq_none_iff_forall_ne_some.2 fun v hv => hnot ?_
      obtain ⟨j, hj, htrail, hshows, -⟩ := (DecodedRow.descend_eq_some h).1 hv
      obtain rfl := h.trail_injective hj hi (htrail.trans hway)
      exact hshows

/-- A row without NULL. -/
def solid (l : Layout) : DecodedRow where
  layout := l
  names := []
  row := ⟨[], List.replicate l.width (.bool true)⟩

/-- All scopes of a row without NULL are there, as far as they have columns. -/
theorem Divides.shows_solid (h : l.Divides)
    (hcolumns : ∀ i < l.scopes.length, (l.scope i).nullable → 0 < (l.scope i).range.width)
    (i : Nat) : l.solid.Shows i := by
  rintro a - ⟨hnullable, hnull⟩
  by_cases ha : a < l.scopes.length
  · have hwidth : (l.scope a).range.start < (l.scope a).range.stop :=
      Nat.lt_of_sub_pos (hcolumns a ha hnullable)
    have hstop := h.stop_le ha
    have hfirst : (ScopeView.mk l.solid a).values[0]? = some (.bool true) := by
      refine (Span.getElem?_slice (l.scope a).range l.solid.row.values 0).trans ?_
      simp [solid, hwidth, Nat.lt_of_lt_of_le hwidth hstop]
    have := List.all_eq_true.1 hnull _ (List.mem_of_getElem? hfirst)
    simp [Value.isNull] at this
  · have hdefault : l.solid.layout.scope a = default := scope_of_length_le (Nat.not_lt.1 ha)
    rw [hdefault] at hnullable
    cases hnullable

/-- Names that paths stand for scopes with are legible. -/
theorem Traced.legible (h : l.Traced) (hdivides : l.Divides)
    (hcolumns : ∀ i < l.scopes.length, (l.scope i).nullable → 0 < (l.scope i).range.width)
    (haddresses : l.Addresses) : l.Legible := by
  intro i hi hpos
  obtain ⟨p, hp, hpath⟩ := h.below i hi hpos
  constructor
  · have hwidth : l.solid.row.width = l.width := List.length_replicate
    have hview := (haddresses.viewed l.solid rfl hwidth i hi hpos).1
      (hdivides.shows_solid hcolumns i)
    obtain ⟨htrail, -⟩ := (DecodedRow.scopedPath_eq_some (d := l.solid) h hi).1 hview
    have hmem : (l.scope i).name ∈ l.trail i := by simp [h.trail_eq hi hp]
    exact dot_notMem_of_mem_names (htrail ▸ hmem)
  · intro htop hempty
    obtain rfl : p = 0 := Option.some.inj (hp.symm.trans htop)
    have hroot : (l.scope 0).path = "" := h.start.1
    -- the path is that of the first scope
    have hsame : (l.scope i).path = (l.scope 0).path := by
      rw [hpath, hroot, hempty, pathBelow_empty]
    have := nodup_paths_iff.1 haddresses.distinct i hi 0 h.nonempty hsame
    omega

end Layout

/-! ## planned statements -/

open ChainNode (nearest scopePositions NearestIs)

/-- The keys of the included nodes have no dots, and those that belong to the first scope are not
empty. -/
def ChainNode.LegibleKeys (nodes : List ChainNode) : Prop :=
  ∀ x ∈ scopePositions nodes,
    '.' ∉ x.node.key.toList ∧ (nearest x.above = none → x.node.key ≠ "")

namespace Layout

variable {l : Layout} {nodes : List ChainNode}

/-- A layout is legible if the keys of its nodes are. -/
theorem Flattens.legible_iff (h : l.Flattens nodes) :
    l.Legible ↔ ChainNode.LegibleKeys nodes := by
  have hlength : l.scopes.length = (scopePositions nodes).length + 1 := by
    simpa using congrArg List.length h.names
  -- the scope of a node hangs from the root iff no node above it has a scope of its own
  have htop {i : Nat} {x : ChainNode.Position} (hx : (scopePositions nodes)[i]? = some x) :
      (l.scope (i + 1)).parent = some 0 ↔ nearest x.above = none := by
    obtain ⟨p, hp, hnear⟩ := h.parents i x hx
    rw [hp, Option.some.injEq]
    rw [NearestIs] at hnear
    cases hx : nearest x.above with
    | none => simpa [hx] using hnear
    | some y =>
      simp only [hx] at hnear
      obtain ⟨k, rfl, -⟩ := hnear
      simp
  constructor
  · intro hlegible x hx
    obtain ⟨i, hi⟩ := List.mem_iff_getElem?.1 hx
    have hlt := (List.getElem?_eq_some_iff.1 hi).1
    rw [← name_of_names h.names hi, ← htop hi]
    exact hlegible (i + 1) (by omega) (Nat.succ_pos i)
  · intro hkeys i hi hpos
    obtain ⟨k, rfl⟩ := Nat.exists_eq_add_one_of_ne_zero (Nat.ne_of_gt hpos)
    have hx := List.getElem?_eq_getElem (l := scopePositions nodes) (i := k) (by omega)
    rw [name_of_names h.names hx, htop hx]
    exact hkeys _ (List.getElem_mem _)

/-- Paths stand for the scopes of nodes if the keys of the nodes are legible, and, when every scope
that may be absent has columns, only then. -/
structure PathsFollow (l : Layout) (nodes : List ChainNode) : Prop where
  addresses : ChainNode.LegibleKeys nodes → l.Addresses
  legible : (∀ i < l.scopes.length, (l.scope i).nullable → 0 < (l.scope i).range.width) →
    l.Addresses → ChainNode.LegibleKeys nodes

/-- The paths of a layout follow its nodes. -/
theorem Traced.pathsFollow (h : l.Traced) (hdivides : l.Divides) (hflattens : l.Flattens nodes) :
    l.PathsFollow nodes where
  addresses hkeys := h.addresses (hflattens.legible_iff.2 hkeys)
  legible hcolumns haddresses :=
    hflattens.legible_iff.1 (h.legible hdivides hcolumns haddresses)

end Layout

/-- The layout of a plan is traced. -/
theorem Draft.PlannedFor.traced {config : Config} {n : ChainNode} {p : PrefetchPlan}
    (h : PlannedFor config n p) : p.layout.Traced := by
  obtain ⟨route, d, -, hwalk, -, -, hlayout, -⟩ := h.exists_planned
  refine hwalk.grown_of_start.traced.of_scopes ?_
  rw [hlayout]
  rfl

namespace Library

/-- Books with their authors, under a key of two words. -/
def writtenBy : Request where
  table := books
  chain := [{ author with key := "written.by" }]

/-- The request compiles, and every scope that may be absent has columns. -/
theorem exists_compile_writtenBy : ∃ q, writtenBy.compile = .ok q ∧
    ∀ i < q.root.layout.scopes.length, (q.root.layout.scope i).nullable →
      0 < (q.root.layout.scope i).range.width := by
  have hall : (writtenBy.compile.toOption.map fun q => q.root.layout.scopes.all fun s =>
      !s.nullable || 0 < s.range.width) = some true := by decide +kernel
  obtain ⟨q, hq, hscopes⟩ := Option.map_eq_some_iff.1 hall
  refine ⟨q, ?_, fun i hi hnullable => ?_⟩
  · cases hcompile : writtenBy.compile <;> simp_all [Except.toOption]
  · have := List.all_eq_true.1 hscopes _ (List.mem_of_getElem? (Layout.getElem?_scopes hi))
    simpa [hnullable] using this

end Library

namespace Request

open PrefetchPlan (Each)

/-- Paths stand for the scopes of every planned statement if the keys are legible, and only
then. -/
theorem compile_pathsFollow {r : Request} {config : Config} {q : CompiledQuery}
    (h : r.compile config = .ok q) :
    q.root.layout.PathsFollow r.chain ∧
      Each (fun n p => p.layout.PathsFollow n.children) (ChainNode.separateAll r.chain)
        q.prefetches := by
  obtain ⟨s, d', hs, -, hlayout, -⟩ := compile_eq_ok h
  obtain ⟨aggregates, d, js, hwalk, -, rfl, -⟩ := rootStatement_eq_ok hs
  have hroot : q.root.layout.PathsFollow r.chain := by
    rw [hlayout]
    exact hwalk.grown_of_start.traced.pathsFollow hwalk.grown_of_start.divides hwalk.flattens
  exact ⟨hroot, (each_of_compile h).imp fun _ _ hp =>
    hp.traced.pathsFollow hp.divides hp.flattens⟩

/-- The author of a book is found by the path that the scope has, but not under a key with a dot. -/
theorem compile_pathsFollow_author :
    (∃ q : CompiledQuery, Library.request.compile = .ok q ∧ q.root.layout.Addresses) ∧
      ∃ q : CompiledQuery, Library.writtenBy.compile = .ok q ∧ ¬q.root.layout.Addresses := by
  obtain ⟨q, hq⟩ := Library.exists_compile
  obtain ⟨q', hq', hcolumns⟩ := Library.exists_compile_writtenBy
  refine ⟨⟨q, hq, (compile_pathsFollow hq).1.addresses ?_⟩, q', hq', fun haddresses => ?_⟩
  · have hplaces : scopePositions Library.request.chain = [⟨Library.author, []⟩] := rfl
    rw [ChainNode.LegibleKeys, hplaces]
    decide
  · have hkeys := (compile_pathsFollow hq').1.legible hcolumns haddresses
    exact (hkeys ⟨{ Library.author with key := "written.by" }, []⟩ List.mem_cons_self).1 (by decide)

end Request

end AssociationQuery
