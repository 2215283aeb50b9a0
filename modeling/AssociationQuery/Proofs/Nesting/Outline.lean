import AssociationQuery.Proofs.Planning.Steps

/-!
# AssociationQuery.Proofs.Nesting.Outline

The nodes of a chain whose rows are part of the result, and the scopes that they lie in.

An included node has a scope, or, if it is to-many, a statement of its own; nodes that only
filter have neither, and what hangs below them belongs to the scope around.  `nestedAll` lists
the included nodes of one statement in the order of the chain, each with the number of the
scope around it.  That this is the scope of the nearest included node above, or the first
scope, is `nearestIs_nestedAll`.
-/

namespace AssociationQuery

namespace ChainNode

/-! ## places -/

/-- Is the node left to a statement of its own? -/
def isSeparate (n : ChainNode) : Bool := n.inclusion = .including ∧ n.association.isToMany

theorem isSeparate_iff {n : ChainNode} :
    n.isSeparate ↔ n.inclusion = .including ∧ n.association.isToMany := by
  simp [isSeparate]

/-- The places of the nodes that have scopes in the statement of the nodes, in their order. -/
def scopePositions (nodes : List ChainNode) : List Position :=
  (positionsAll [] nodes).filter Position.isIncluded

mutual

/-- The places of the first nodes on each path that have statements of their own. -/
def separatePositions (above : List ChainNode) : ChainNode → List Position
  | ⟨association, key, inclusion, requirement, filters, order, aliases, children⟩ =>
    let n : ChainNode :=
      ⟨association, key, inclusion, requirement, filters, order, aliases, children⟩
    if inclusion = .including ∧ association.isToMany then [⟨n, above⟩]
    else separatePositionsAll (n :: above) children

def separatePositionsAll (above : List ChainNode) : List ChainNode → List Position
  | [] => []
  | n :: ns => separatePositions above n ++ separatePositionsAll above ns

end

/-- A node with a statement of its own has that one place. -/
theorem separatePositions_of_separate {above : List ChainNode} {n : ChainNode}
    (h : n.inclusion = .including ∧ n.association.isToMany) :
    n.separatePositions above = [⟨n, above⟩] := by
  cases n
  exact if_pos h

/-- Below a joined node, the places are those of its children. -/
theorem separatePositions_of_joined {above : List ChainNode} {n : ChainNode}
    (h : ¬(n.inclusion = .including ∧ n.association.isToMany)) :
    n.separatePositions above = separatePositionsAll (n :: above) n.children := by
  cases n
  exact if_neg h

/-- The place of the nearest of several nodes whose rows are part of the result. -/
def nearest : List ChainNode → Option Position
  | [] => none
  | n :: above => if n.inclusion = .including then some ⟨n, above⟩ else nearest above

/-- With scopes of these places after the first scope, `scope` is the number of that of the
nearest included node; it is 0, the first scope, when there is none. -/
def NearestIs (places : List Position) (above : List ChainNode) (scope : Nat) : Prop :=
  match nearest above with
  | none => scope = 0
  | some x => ∃ i, scope = i + 1 ∧ places[i]? = some x

/-- More places behind do not change which is nearest. -/
theorem NearestIs.mono {places : List Position} {above : List ChainNode} {scope : Nat}
    (h : NearestIs places above scope) (more : List Position) :
    NearestIs (places ++ more) above scope := by
  unfold NearestIs at *
  split at h
  · exact h
  · obtain ⟨i, rfl, hi⟩ := h
    exact ⟨i, rfl, List.getElem?_append_left (List.getElem?_eq_some_iff.1 hi).1 ▸ hi⟩

/-- An included node is the nearest for those below it. -/
theorem nearestIs_included {n : ChainNode} (h : n.inclusion = .including)
    (places : List Position) (above : List ChainNode) :
    NearestIs (places ++ [⟨n, above⟩]) (n :: above) (places.length + 1) := by
  simp [NearestIs, nearest, h]

/-- A node that is only joined is passed over. -/
theorem nearestIs_joining {n : ChainNode} {places : List Position} {above : List ChainNode}
    {scope : Nat} (h : n.inclusion = .joining) :
    NearestIs places (n :: above) scope ↔ NearestIs places above scope := by
  simp [NearestIs, nearest, h]

/-! ## nesting -/

/-- An included node at its place, with the number of the scope around it. -/
structure Nested where
  position : Position
  around : Nat

namespace Nested

def node (e : Nested) : ChainNode := e.position.node

/-- The nodes with scopes. -/
def scopes (es : List Nested) : List Nested := es.filter fun e => !e.node.isSeparate

/-- The nodes with statements of their own. -/
def separates (es : List Nested) : List Nested := es.filter fun e => e.node.isSeparate

/-- The scopes of two outlines, one after the other. -/
theorem scopes_append (es fs : List Nested) : scopes (es ++ fs) = scopes es ++ scopes fs :=
  List.filter_append _ _

theorem separates_append (es fs : List Nested) :
    separates (es ++ fs) = separates es ++ separates fs :=
  List.filter_append _ _

end Nested

open Nested (scopes separates)

mutual

/-- The included nodes from a node on, down to those with statements of their own.  The node lies
in the scope `around`, and `next` is the number that the next scope gets. -/
def nested (above : List ChainNode) (around next : Nat) : ChainNode → List Nested
  | ⟨association, key, inclusion, requirement, filters, order, aliases, children⟩ =>
    let n : ChainNode :=
      ⟨association, key, inclusion, requirement, filters, order, aliases, children⟩
    match inclusion with
    | .joining => nestedAll (n :: above) around next children
    | .including =>
      if association.isToMany then [⟨⟨n, above⟩, around⟩]
      else ⟨⟨n, above⟩, around⟩ :: nestedAll (n :: above) next (next + 1) children

def nestedAll (above : List ChainNode) (around next : Nat) : List ChainNode → List Nested
  | [] => []
  | n :: ns =>
    let es := nested above around next n
    es ++ nestedAll above around (next + (scopes es).length) ns

end

section nested

variable {above : List ChainNode} {around next : Nat} {n : ChainNode}

/-- A node with a statement of its own stands for itself in the outline. -/
theorem nested_of_separate (h : n.inclusion = .including ∧ n.association.isToMany) :
    n.nested above around next = [⟨⟨n, above⟩, around⟩] := by
  obtain ⟨association, key, inclusion, requirement, filters, order, aliases, children⟩ := n
  obtain ⟨rfl, hmany⟩ := h
  exact if_pos hmany

/-- An included node stands before those below it, which are nested in it. -/
theorem nested_of_included (hi : n.inclusion = .including) (hm : ¬n.association.isToMany) :
    n.nested above around next =
      ⟨⟨n, above⟩, around⟩ :: nestedAll (n :: above) next (next + 1) n.children := by
  obtain ⟨association, key, inclusion, requirement, filters, order, aliases, children⟩ := n
  obtain rfl := hi
  exact if_neg hm

/-- A node that is only joined is left out; those below it are nested where it is. -/
theorem nested_of_joining (h : n.inclusion = .joining) :
    n.nested above around next = nestedAll (n :: above) around next n.children := by
  obtain ⟨association, key, inclusion, requirement, filters, order, aliases, children⟩ := n
  obtain rfl := h
  rfl

/-- A node has a scope, a statement of its own, or neither. -/
theorem kind_cases (n : ChainNode) :
    (n.inclusion = .including ∧ n.association.isToMany) ∨
      (n.inclusion = .including ∧ ¬n.association.isToMany) ∨ n.inclusion = .joining := by
  cases n.inclusion <;> cases n.association.isToMany <;> simp

/-- A node with a statement of its own has no scope. -/
theorem scopes_cons_of_separate (h : n.inclusion = .including ∧ n.association.isToMany)
    (es : List Nested) : scopes (⟨⟨n, above⟩, around⟩ :: es) = scopes es :=
  List.filter_cons_of_neg (by simp [Nested.node, isSeparate_iff.2 h])

/-- An included node that is joined has one. -/
theorem scopes_cons_of_included (h : ¬n.association.isToMany) (es : List Nested) :
    scopes (⟨⟨n, above⟩, around⟩ :: es) = ⟨⟨n, above⟩, around⟩ :: scopes es :=
  List.filter_cons_of_pos (by simp [Nested.node, isSeparate, h])

/-- A node with a statement of its own comes with its plan. -/
theorem separates_cons_of_separate (h : n.inclusion = .including ∧ n.association.isToMany)
    (es : List Nested) :
    separates (⟨⟨n, above⟩, around⟩ :: es) = ⟨⟨n, above⟩, around⟩ :: separates es :=
  List.filter_cons_of_pos (isSeparate_iff.2 h)

/-- An included node that is joined comes without one. -/
theorem separates_cons_of_included (h : ¬n.association.isToMany) (es : List Nested) :
    separates (⟨⟨n, above⟩, around⟩ :: es) = separates es :=
  List.filter_cons_of_neg (by simp [Nested.node, isSeparate, h])

end nested

/-- The nodes with scopes are the included ones that are joined. -/
theorem positions_nestedAll (ns above : List ChainNode) (around next : Nat) :
    (scopes (nestedAll above around next ns)).map Nested.position =
      (positionsAll above ns).filter Position.isIncluded := by
  -- over the forest; a node that is only joined is no scope, but its children may be
  induction ns using forest_induction generalizing above around next with
  | nil => rfl
  | cons n ns below others =>
    have hn : (scopes (n.nested above around next)).map Nested.position =
        (n.positions above).filter Position.isIncluded := by
      rcases kind_cases n with h | ⟨hi, hm⟩ | hj
      · rw [nested_of_separate h, scopes_cons_of_separate h, positions_of_separate h]
        rfl
      · have hincluded : (⟨n, above⟩ : Position).isIncluded := decide_eq_true hi
        rw [nested_of_included hi hm, scopes_cons_of_included hm,
          positions_of_joined (fun h => hm h.2), List.filter_cons_of_pos hincluded,
          List.map_cons, below]
      · have hjoining : ¬(⟨n, above⟩ : Position).isIncluded := by simp [Position.isIncluded, hj]
        rw [nested_of_joining hj, positions_of_joined (by simp [hj]),
          List.filter_cons_of_neg hjoining, below]
    rw [nestedAll, positionsAll, Nested.scopes_append, List.map_append, List.filter_append,
      hn, others]

/-- The other included nodes are those with statements of their own. -/
theorem separates_nestedAll (ns above : List ChainNode) (around next : Nat) :
    (separates (nestedAll above around next ns)).map Nested.position =
      separatePositionsAll above ns := by
  induction ns using forest_induction generalizing above around next with
  | nil => rfl
  | cons n ns below others =>
    have hn : (separates (n.nested above around next)).map Nested.position =
        n.separatePositions above := by
      rcases kind_cases n with h | ⟨hi, hm⟩ | hj
      · rw [nested_of_separate h, separates_cons_of_separate h, separatePositions_of_separate h]
        rfl
      · rw [nested_of_included hi hm, separates_cons_of_included hm,
          separatePositions_of_joined (fun h => hm h.2), below]
      · rw [nested_of_joining hj, separatePositions_of_joined (by simp [hj]), below]
    rw [nestedAll, separatePositionsAll, Nested.separates_append, List.map_append, hn, others]

/-- Each included node lies in the scope of the nearest included node above it. -/
theorem nearestIs_nestedAll (ns : List ChainNode) {above : List ChainNode} {around next : Nat}
    {before : List Position} (hnext : before.length + 1 = next)
    (habove : NearestIs before above around) :
    ∀ e ∈ nestedAll above around next ns,
      NearestIs (before ++ (scopes (nestedAll above around next ns)).map Nested.position)
        e.position.above e.around := by
  induction ns using forest_induction generalizing above around next before with
  | nil => exact List.forall_mem_nil _
  | cons n ns below others =>
    have hn : ∀ e ∈ n.nested above around next,
        NearestIs (before ++ (scopes (n.nested above around next)).map Nested.position)
          e.position.above e.around := by
      rcases kind_cases n with h | ⟨hi, hm⟩ | hj
      · rw [nested_of_separate h]
        exact List.forall_mem_singleton.2 (habove.mono _)
      · -- the node's own scope is the one that its children lie in
        have hlength : (before ++ [(⟨n, above⟩ : Position)]).length + 1 = next + 1 := by
          simp [hnext]
        have hown : NearestIs (before ++ [⟨n, above⟩]) (n :: above) next :=
          hnext ▸ nearestIs_included hi before above
        have hchildren := below hlength hown
        rw [nested_of_included hi hm, scopes_cons_of_included hm, List.map_cons,
          List.append_cons before]
        refine List.forall_mem_cons.2 ⟨?_, hchildren⟩
        rw [List.append_assoc]
        exact habove.mono _
      · rw [nested_of_joining hj]
        exact below hnext ((nearestIs_joining hj).2 habove)
    have hlength : (before ++ (scopes (n.nested above around next)).map Nested.position).length
        + 1 = next + (scopes (n.nested above around next)).length := by
      simp only [List.length_append, List.length_map]
      omega
    have hns := others hlength (habove.mono _)
    rw [nestedAll, Nested.scopes_append, List.map_append, ← List.append_assoc]
    exact List.forall_mem_append.2 ⟨fun e he => (hn e he).mono _, hns⟩

/-- Every entry of the outline is nested in the nearest node above it whose rows are part of the
result. -/
theorem nearestIs_scopePositions (nodes : List ChainNode) :
    ∀ e ∈ nestedAll [] 0 1 nodes, NearestIs (scopePositions nodes) e.position.above e.around := by
  have hnear := @nearestIs_nestedAll nodes [] 0 1 [] rfl rfl
  rwa [positions_nestedAll] at hnear

end ChainNode

end AssociationQuery
