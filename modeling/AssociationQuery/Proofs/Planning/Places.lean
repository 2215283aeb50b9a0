import AssociationQuery.Proofs.Planning.Statements
import Mathlib.Data.List.Forall2

/-!
# AssociationQuery.Proofs.Planning.Places

Where the rows of further statements are attached.

The walk claims a name below a scope before it leaves a node to a statement of its
own, and the layout remembers it.  So no two plans of one statement attach their
rows under the same name to the same scope.
-/

namespace AssociationQuery

/-! ## names that a layout has announced -/

namespace Layout

/-- The scope at a place in the list. -/
theorem scope_of_getElem? {l : Layout} {i : Nat} {s : Scope} (h : l.scopes[i]? = some s) :
    l.scope i = s := by
  simp [scope, List.getD_eq_getElem?_getD, h]

/-- Every scope that there is stands in the list. -/
theorem getElem?_scopes {l : Layout} {i : Nat} (h : i < l.scopes.length) :
    l.scopes[i]? = some (l.scope i) := by
  rw [scope_of_getElem? (List.getElem?_eq_getElem h), List.getElem?_eq_getElem h]

theorem scope_of_length_le {l : Layout} {i : Nat} (h : l.scopes.length ≤ i) :
    l.scope i = default := by
  rw [scope, List.getD_eq_getElem?_getD, List.getElem?_eq_none h]
  rfl

/-- A new scope is listed below its parent; the others stay as they are. -/
theorem scope_pushScope {l : Layout} {i : Nat} (h : i < l.scopes.length) (parent : Nat)
    (name : String) (width : Nat) (nullable : Bool) :
    (l.pushScope parent name width nullable).scope i =
      { l.scope i with
        children := (l.scope i).children ++ if parent = i then [l.scopes.length] else [] } := by
  simp only [scope, pushScope, List.getD_eq_getElem?_getD]
  rw [List.getElem?_append_left (by simpa using h), List.getElem?_modify]
  split <;> simp [List.getElem?_eq_getElem h]

/-- The new scope comes last. -/
theorem scope_pushScope_last (l : Layout) (parent : Nat) (name : String) (width : Nat)
    (nullable : Bool) :
    (l.pushScope parent name width nullable).scope l.scopes.length =
      { path := pathBelow (l.scope parent).path name, name, nullable, parent := some parent
        range := ⟨l.width, l.width + width⟩ } := by
  simp [scope, pushScope, List.getD_eq_getElem?_getD]

/-- Announced rows are listed below their parent; the other scopes stay as they are. -/
theorem scope_pushPrefetched {l : Layout} {i : Nat} (h : i < l.scopes.length) (parent : Nat)
    (name : String) :
    (l.pushPrefetched parent name).scope i =
      { l.scope i with
        prefetched := (l.scope i).prefetched ++ if parent = i then [name] else [] } := by
  simp only [scope, pushPrefetched, List.getD_eq_getElem?_getD, List.getElem?_modify]
  split <;> simp [List.getElem?_eq_getElem h]

end Layout

/-! ## places -/

namespace PrefetchPlan

/-- Where the rows of the plan are attached: the scope and the name below it. -/
def place (p : PrefetchPlan) : Nat × String := (p.parentScope, p.name)

mutual

/-- Do the plans below a plan, and those below them, have different places? -/
def Distinct : PrefetchPlan → Prop
  | ⟨_, _, _, _, _, _, children⟩ => DistinctAll children

def DistinctAll : List PrefetchPlan → Prop
  | [] => True
  | p :: ps => (p.place ∉ ps.map place ∧ Distinct p) ∧ DistinctAll ps

end

theorem distinct_iff (p : PrefetchPlan) : p.Distinct ↔ DistinctAll p.children := by
  cases p
  rw [Distinct]

end PrefetchPlan

namespace Draft

/-- The waiting plans of a draft have these places, all different, and the layout knows
them; so it is with the plans below. -/
structure Announces (d : Draft) (places : List (Nat × String)) : Prop where
  nodup : places.Nodup
  known : ∀ m ∈ places, m.1 < d.layout.scopes.length ∧ m.2 ∈ (d.layout.scope m.1).prefetched
  plans : List.Forall₂ (fun x m => ∀ p, x = .ok p → p.place = m) d.pending places
  distinct : ∀ p, .ok p ∈ d.pending → p.Distinct

/-- A step after which everything announced still is. -/
structure Keeps (d d' : Draft) : Prop where
  pending : d'.pending = d.pending
  scopes : d.layout.scopes.length ≤ d'.layout.scopes.length
  prefetched : ∀ i < d.layout.scopes.length,
    (d'.layout.scope i).prefetched = (d.layout.scope i).prefetched

/-- What is announced depends on the waiting plans and on the layout. -/
theorem Keeps.of_layout {d d' : Draft} (hp : d'.pending = d.pending) (hl : d'.layout = d.layout) :
    d.Keeps d' :=
  ⟨hp, Nat.le_of_eq (by rw [hl]), fun _ _ => by rw [hl]⟩

/-- Joining a node leaves everything announced. -/
theorem keeps_join (d : Draft) (anchor : Anchor) (n : ChainNode) (route : Route) :
    d.Keeps (d.join anchor n route) := by
  cases hinclusion : n.inclusion with
  | joining =>
    exact .of_layout (pending_join d anchor n route) (layout_join_joining hinclusion d anchor route)
  | including =>
    have hlayout := layout_join_included hinclusion d anchor route
    refine ⟨pending_join d anchor n route, ?_, fun i hi => ?_⟩
    · rw [hlayout, Layout.length_scopes_pushScope]
      omega
    · rw [hlayout, Layout.scope_pushScope hi]

/-- What hangs from a joined node finds its scope. -/
theorem scope_below_lt {d : Draft} {anchor : Anchor} (n : ChainNode) (route : Route)
    (h : anchor.scope < d.layout.scopes.length) :
    (below anchor n route d).scope < (d.join anchor n route).layout.scopes.length := by
  unfold below join
  cases n.inclusion with
  | joining => exact h
  | including => simp [Layout.length_scopes_pushScope]

/-- A plan that is left behind is announced if its name was free. -/
theorem Announces.leave {config : Config} {anchor : Anchor} {n : ChainNode} {d : Draft}
    {places : List (Nat × String)} (hd : d.Announces places)
    (hscope : anchor.scope < d.layout.scopes.length)
    (hfree : n.key ∉ (d.layout.scope anchor.scope).prefetched)
    (hdistinct : ∀ p, prefetchPlan config n anchor.scope
      (d.layout.scope anchor.scope).range.start anchor.table
      (planNodes config (.base n.association.destination) n.children) = .ok p → p.Distinct) :
    (d.leave config anchor n).Announces (places ++ [(anchor.scope, n.key)]) := by
  -- the places so far are announced in their scopes, and this name is not
  have hnew : (anchor.scope, n.key) ∉ places := fun hmem => hfree (hd.known _ hmem).2
  have hlength : (d.leave config anchor n).layout.scopes.length = d.layout.scopes.length :=
    List.length_modify _ _ _
  have hnames {i : Nat} (hi : i < d.layout.scopes.length) :=
    congrArg Scope.prefetched (Layout.scope_pushPrefetched hi anchor.scope n.key)
  exact {
    nodup := by
      have hother : ∀ m ∈ places, ∀ k ∈ [(anchor.scope, n.key)], m ≠ k := by
        intro m hm k hk heq
        subst heq
        exact hnew (List.mem_singleton.1 hk ▸ hm)
      exact List.nodup_append.2 ⟨hd.nodup, by simp, hother⟩
    known := by
      intro m hm
      rcases List.mem_append.1 hm with hm | hm
      · obtain ⟨hlt, hmem⟩ := hd.known m hm
        exact ⟨hlength ▸ hlt, hnames hlt ▸ List.mem_append_left _ hmem⟩
      · obtain rfl := List.mem_singleton.1 hm
        have hmem : n.key ∈ if anchor.scope = anchor.scope then [n.key] else [] := by
          rw [if_pos rfl]
          exact List.mem_cons_self
        exact ⟨hlength ▸ hscope, hnames hscope ▸ List.mem_append_right _ hmem⟩
    plans := by
      have hplace : ∀ p, prefetchPlan config n anchor.scope
          (d.layout.scope anchor.scope).range.start anchor.table
          (planNodes config (.base n.association.destination) n.children) = .ok p →
          p.place = (anchor.scope, n.key) := by
        intro p hp
        obtain ⟨_, _, -, -, -, -, hname, hparent, -⟩ := prefetchPlan_eq_ok hp
        rw [PrefetchPlan.place, hname, hparent]
      exact List.rel_append hd.plans (.cons hplace .nil)
    distinct := by
      intro p hp
      rcases List.mem_append.1 hp with hp | hp
      · exact hd.distinct p hp
      · exact hdistinct p (List.mem_singleton.1 hp).symm }

end Draft

end AssociationQuery
