import AssociationQuery.Proofs.Building.Equality
import AssociationQuery.Proofs.Building.Order

/-!
# AssociationQuery.Proofs.Building.Merging

Attaching two alike nodes is attaching one merged node.

This rests on siblings never being alike, at any depth: `Tidy`, which every call keeps.  With
it merging is associative, so that it does not matter in which groups wishes for one
association come together.  What a node brings along counts each time that it is attached.
-/

namespace AssociationQuery

theorem Inclusion.stronger_self (i : Inclusion) : i.stronger i = i := by cases i <;> rfl

theorem Requirement.stronger_self (r : Requirement) : r.stronger r = r := by cases r <;> rfl

namespace ChainNode

/-! ## alike nodes -/

/-- Being alike goes both ways. -/
theorem alike_comm (a b : ChainNode) : a.alike b = b.alike a := by
  simp only [alike, Association.equal_comm a.association, BEq.comm (a := a.key)]

@[simp] theorem alike_self (n : ChainNode) : n.alike n := by
  simp [alike, Association.equal_self]

/-- What is alike is alike to the same nodes. -/
theorem alike_congr {a b : ChainNode} (h : a.alike b) (c : ChainNode) : a.alike c = b.alike c := by
  simp only [alike, Bool.and_eq_true, beq_iff_eq] at *
  rw [h.1, Association.equal_congr _ h.2]

/-- A merged node takes the stronger wishes and has the terms, handles and children of both. -/
theorem merge_eq (a b : ChainNode) :
    a.merge b = { a with
      inclusion := a.inclusion.stronger b.inclusion
      requirement := a.requirement.stronger b.requirement
      filters := a.filters ++ b.filters
      order := a.order ++ b.order
      aliases := b.aliases.foldl addHandle a.aliases
      children := attachAll a.children b.children } := by
  cases b
  rw [merge]

/-- Merging keeps the name and the association. -/
@[simp] theorem alike_merge_left (a b c : ChainNode) : (a.merge b).alike c = a.alike c := by
  simp [merge_eq, alike]

/-- It is as alike to others as before. -/
@[simp] theorem alike_merge_right (a b c : ChainNode) : c.alike (a.merge b) = c.alike a := by
  simp [merge_eq, alike]

/-! ## attaching -/

@[simp] theorem attach_nil (c : ChainNode) : attach [] c = [c] := rfl

/-- A node is merged into the first sibling that is alike, and stands last if there is none. -/
theorem attach_cons (s : ChainNode) (siblings : List ChainNode) (c : ChainNode) :
    attach (s :: siblings) c =
      if s.alike c then s.merge c :: siblings else s :: attach siblings c := by
  rw [attach, place, attach]

@[simp] theorem attachAll_nil (siblings : List ChainNode) : attachAll siblings [] = siblings := rfl

@[simp] theorem attachAll_cons (siblings : List ChainNode) (c : ChainNode) (cs : List ChainNode) :
    attachAll siblings (c :: cs) = attachAll (attach siblings c) cs := rfl

/-- A node among siblings is an old one, the attached one, or an old one with the wishes of the
attached one added. -/
theorem mem_attach {siblings : List ChainNode} {c m : ChainNode} (h : m ∈ attach siblings c) :
    m ∈ siblings ∨ m = c ∨ ∃ s ∈ siblings, m = s.merge c := by
  induction siblings with
  | nil => simp_all
  | cons s siblings ih =>
    rw [attach_cons] at h
    split at h <;> grind

/-- After attaching there is a sibling for the node, and the others have kept theirs. -/
theorem any_alike_attach (siblings : List ChainNode) (a b : ChainNode) :
    (attach siblings a).any (·.alike b) = (siblings.any (·.alike b) || a.alike b) := by
  induction siblings with
  | nil => simp
  | cons s siblings ih =>
    by_cases h : s.alike a
    · rw [attach_cons, if_pos h, List.any_cons, List.any_cons, alike_merge_left, alike_congr h]
      grind
    · rw [attach_cons, if_neg h, List.any_cons, List.any_cons, ih, Bool.or_assoc]

/-- With a sibling for the second node there, nodes that are not alike can be attached in either
order. -/
theorem attach_comm {siblings : List ChainNode} {b c : ChainNode} (hbc : ¬b.alike c)
    (h : siblings.any (·.alike c)) :
    attach (attach siblings b) c = attach (attach siblings c) b := by
  induction siblings with
  | nil => simp at h
  | cons s siblings ih =>
    by_cases hb : s.alike b <;> by_cases hc : s.alike c
    · exact absurd ((alike_congr hb c).symm.trans hc) hbc
    · simp [attach_cons, hb, hc]
    · simp [attach_cons, hb, hc]
    · have hrest : siblings.any (·.alike c) := by simpa [hc] using h
      simp [attach_cons, hb, hc, ih hrest]

/-- A node that has its sibling already may be attached before or after others that are not alike.
-/
theorem attach_attachAll_comm {siblings cs : List ChainNode} {c : ChainNode}
    (hcs : ∀ m ∈ cs, ¬m.alike c) (h : siblings.any (·.alike c)) :
    attach (attachAll siblings cs) c = attachAll (attach siblings c) cs := by
  induction cs generalizing siblings with
  | nil => rfl
  | cons m cs ih =>
    obtain ⟨hm, hrest⟩ := List.forall_mem_cons.1 hcs
    have hstays : (attach siblings m).any (·.alike c) := by simp [any_alike_attach, h]
    rw [attachAll_cons, attachAll_cons, ih hrest hstays, attach_comm hm h]

/-! ## siblings that are not alike -/

/-- No two siblings are alike, at any depth. -/
inductive Tidy : List ChainNode → Prop
  | nil : Tidy []
  | cons {n : ChainNode} {ns : List ChainNode} (apart : ∀ m ∈ ns, ¬n.alike m)
      (below : Tidy n.children) (others : Tidy ns) : Tidy (n :: ns)

/-- Nodes among tidy ones are tidy below. -/
theorem Tidy.below_of_mem {ns : List ChainNode} (h : Tidy ns) : ∀ n ∈ ns, Tidy n.children := by
  induction h with
  | nil => exact List.forall_mem_nil _
  | cons _ below _ _ ihOthers => exact List.forall_mem_cons.2 ⟨below, ihOthers⟩

/-- Attaching leaves siblings tidy if merging does. -/
theorem Tidy.attach {siblings : List ChainNode} {c : ChainNode} (h : Tidy siblings)
    (hc : Tidy c.children) (hmerge : ∀ s ∈ siblings, Tidy (s.merge c).children) :
    Tidy (attach siblings c) := by
  induction h with
  | nil => exact .cons (List.forall_mem_nil _) hc .nil
  | @cons s siblings apart below others _ ih =>
    obtain ⟨hs, hrest⟩ := List.forall_mem_cons.1 hmerge
    rw [attach_cons]
    split
    · exact .cons (by simpa using apart) hs others
    · next hnot =>
      refine .cons (fun m hm => ?_) below (ih hrest)
      obtain hm | rfl | ⟨t, ht, rfl⟩ := mem_attach hm
      · exact apart m hm
      · exact hnot
      · simpa using apart t ht

/-- Attaching tidy nodes to tidy siblings leaves tidy siblings. -/
theorem Tidy.attachAll {siblings cs : List ChainNode} (h : Tidy siblings) (hcs : Tidy cs) :
    Tidy (attachAll siblings cs) := by
  induction cs using forest_induction generalizing siblings with
  | nil => exact h
  | cons c cs below others =>
    cases hcs with
    | cons apart hbelow hothers =>
      refine others (h.attach hbelow fun s hs => ?_) hothers
      rw [merge_eq]
      exact below (h.below_of_mem s hs) hbelow

/-- Merging leaves children tidy. -/
theorem Tidy.merge {a b : ChainNode} (ha : Tidy a.children) (hb : Tidy b.children) :
    Tidy (a.merge b).children := by
  rw [merge_eq]
  exact ha.attachAll hb

/-! ## merging in groups -/

/-- A handle that is added is there afterwards, and those before it still are. -/
theorem any_same_addHandle (handles : List TableAlias) (a b : TableAlias) :
    (addHandle handles a).any b.same = (handles.any b.same || b.same a) := by
  rw [addHandle]
  split
  · next h =>
    have hmem : b.same a → handles.any b.same := by
      intro hab
      simp only [List.any_eq_true, TableAlias.same, beq_iff_eq] at h hab ⊢
      simpa [hab] using h
    grind
  · simp

/-- So with several handles. -/
theorem any_same_foldl_addHandle (as bs : List TableAlias) (c : TableAlias) :
    (bs.foldl addHandle as).any c.same = (as.any c.same || bs.any c.same) := by
  induction bs generalizing as with
  | nil => simp
  | cons b bs ih => rw [List.foldl_cons, ih, any_same_addHandle, List.any_cons, Bool.or_assoc]

/-- Whether a handle is added before or after others, it stands in the same place. -/
theorem addHandle_foldl_addHandle (as bs : List TableAlias) (c : TableAlias) :
    addHandle (bs.foldl addHandle as) c = (addHandle bs c).foldl addHandle as := by
  by_cases h : bs.any c.same
  · rw [addHandle, any_same_foldl_addHandle, h, Bool.or_true, if_pos rfl, addHandle, if_pos h]
  · rw [addHandle.eq_def bs, if_neg h, List.foldl_append]
    rfl

/-- Handles may be added in two steps. -/
theorem foldl_addHandle_foldl (as bs cs : List TableAlias) :
    cs.foldl addHandle (bs.foldl addHandle as) = (cs.foldl addHandle bs).foldl addHandle as := by
  induction cs generalizing bs with
  | nil => rfl
  | cons c cs ih => rw [List.foldl_cons, addHandle_foldl_addHandle, ih, List.foldl_cons]

/-- Merging is associative as far as attaching the children is. -/
theorem merge_merge {a b c : ChainNode}
    (h : attachAll (attachAll a.children b.children) c.children =
      attachAll a.children (attachAll b.children c.children)) :
    (a.merge b).merge c = a.merge (b.merge c) := by
  have hinclusion : (a.inclusion.stronger b.inclusion).stronger c.inclusion =
      a.inclusion.stronger (b.inclusion.stronger c.inclusion) := by
    cases c.inclusion <;> rfl
  have hrequirement : (a.requirement.stronger b.requirement).stronger c.requirement =
      a.requirement.stronger (b.requirement.stronger c.requirement) := by
    cases c.requirement <;> rfl
  simp [merge_eq, h, hinclusion, hrequirement, foldl_addHandle_foldl]

/-- Attaching two alike nodes is attaching the merged one, as far as merging is associative. -/
theorem attach_attach (siblings : List ChainNode) {a b : ChainNode} (hab : a.alike b)
    (hassoc : ∀ s : ChainNode, (s.merge a).merge b = s.merge (a.merge b)) :
    attach (attach siblings a) b = attach siblings (a.merge b) := by
  induction siblings with
  | nil => simp [attach_cons, hab]
  | cons s siblings ih =>
    by_cases hs : s.alike a
    · have hb : s.alike b := (alike_congr hs b).trans hab
      simp [attach_cons, hs, hb, hassoc]
    · have hb : ¬s.alike b := by rwa [alike_comm, ← alike_congr hab, alike_comm]
      simp [attach_cons, hs, hb, ih]

/-- The first of the nodes that is alike takes the wishes of the last one, wherever it comes to
stand; those behind it are not alike and do not interfere. -/
theorem attach_attachAll (siblings : List ChainNode) {bs : List ChainNode} {c : ChainNode}
    (hbs : Tidy bs)
    (hassoc : ∀ b ∈ bs, ∀ s : ChainNode, (s.merge b).merge c = s.merge (b.merge c)) :
    attach (attachAll siblings bs) c = attachAll siblings (attach bs c) := by
  induction hbs generalizing siblings with
  | nil => rfl
  | @cons b bs apart _ _ _ ih =>
    obtain ⟨hb, hrest⟩ := List.forall_mem_cons.1 hassoc
    by_cases hbc : b.alike c
    · have hothers : ∀ m ∈ bs, ¬m.alike c := by
        intro m hm hmc
        exact apart m hm (by rw [alike_congr hbc, alike_comm, hmc])
      have hthere : (attach siblings b).any (·.alike c) := by simp [any_alike_attach, hbc]
      rw [attach_cons, if_pos hbc, attachAll_cons, attachAll_cons,
        attach_attachAll_comm hothers hthere, attach_attach siblings hbc hb]
    · rw [attach_cons, if_neg hbc, attachAll_cons, attachAll_cons, ih _ hrest]

/-- The induction is on the last of the three forests: below its nodes the same is known. -/
theorem attachAll_assoc (as : List ChainNode) {bs cs : List ChainNode} (hbs : Tidy bs)
    (hcs : Tidy cs) : attachAll (attachAll as bs) cs = attachAll as (attachAll bs cs) := by
  induction cs using forest_induction generalizing as bs with
  | nil => rfl
  | cons c cs below others =>
    cases hcs with
    | cons apart hbelow hothers =>
      have hassoc : ∀ b ∈ bs, ∀ s : ChainNode, (s.merge b).merge c = s.merge (b.merge c) :=
        fun b hb s => merge_merge (below _ (hbs.below_of_mem b hb) hbelow)
      have htidy : Tidy (attach bs c) :=
        hbs.attach hbelow fun b hb => (hbs.below_of_mem b hb).merge hbelow
      rw [attachAll_cons, attach_attachAll as hbs hassoc, others as htidy hothers, attachAll_cons]

/-- Merging is associative. -/
theorem merge_assoc (a : ChainNode) {b c : ChainNode} (hb : Tidy b.children)
    (hc : Tidy c.children) : (a.merge b).merge c = a.merge (b.merge c) :=
  merge_merge (attachAll_assoc a.children hb hc)

/-- Attaching two alike nodes is attaching the merged one. -/
theorem attach_merge (siblings : List ChainNode) {a b : ChainNode} (ha : Tidy a.children)
    (hb : Tidy b.children) (hab : a.alike b) :
    attach (attach siblings a) b = attach siblings (a.merge b) :=
  attach_attach siblings hab fun s => merge_assoc s ha hb

/-- A merged node includes its rows if one of the two does. -/
theorem inclusion_merge (a b : ChainNode) :
    (a.merge b).inclusion = .including ↔ a.inclusion = .including ∨ b.inclusion = .including := by
  rw [merge_eq]
  cases b.inclusion <;> simp [Inclusion.stronger]

/-- A merged node is required if one of the two is. -/
theorem requirement_merge (a b : ChainNode) :
    (a.merge b).requirement = .required ↔
      a.requirement = .required ∨ b.requirement = .required := by
  rw [merge_eq]
  cases b.requirement <;> simp [Requirement.stronger]

/-! ## what a node brings along -/

/-- The number of conditions and orderings, at every depth. -/
def termCount (nodes : List ChainNode) : Nat :=
  ((everywhereAll nodes).map fun n => n.filters.length + n.order.length).sum

theorem termCount_cons (n : ChainNode) (ns : List ChainNode) :
    termCount (n :: ns) =
      n.filters.length + n.order.length + termCount n.children + termCount ns := by
  simp [termCount, everywhereAll, everywhere_eq, Nat.add_assoc]

@[simp] theorem termCount_nil : termCount [] = 0 := rfl

/-- Attaching loses no terms if attaching below does not. -/
theorem termCount_attach {siblings : List ChainNode} {c : ChainNode}
    (h : ∀ s : ChainNode, termCount (attachAll s.children c.children) =
      termCount s.children + termCount c.children) :
    termCount (attach siblings c) = termCount siblings + termCount [c] := by
  induction siblings with
  | nil => simp [termCount, everywhereAll]
  | cons s siblings ih =>
    rw [attach_cons]
    split
    · simp only [termCount_cons, termCount_nil, merge_eq, List.length_append, h]
      omega
    · simp only [termCount_cons, ih]
      omega

/-- Nothing is lost or left out when nodes are attached. -/
theorem termCount_attachAll (siblings cs : List ChainNode) :
    termCount (attachAll siblings cs) = termCount siblings + termCount cs := by
  induction cs using forest_induction generalizing siblings with
  | nil => rfl
  | cons c cs below others =>
    rw [attachAll_cons, others, termCount_attach fun s => below s.children]
    simp only [termCount_cons, termCount_nil]
    omega

/-- Does the node bring no condition and no ordering along, at any depth? -/
def IsPlain (n : ChainNode) : Prop := ∀ x ∈ n.everywhere, x.filters = [] ∧ x.order = []

/-- A node without terms is one whose terms are none in number. -/
theorem isPlain_iff (n : ChainNode) : n.IsPlain ↔ termCount [n] = 0 := by
  simp only [IsPlain, termCount, everywhereAll, List.append_nil,
    List.sum_eq_zero_iff_forall_eq_nat, List.forall_mem_map, Nat.add_eq_zero_iff,
    List.length_eq_zero_iff]

instance (n : ChainNode) : Decidable n.IsPlain := decidable_of_iff _ n.isPlain_iff.symm

/-- Handles that are there already are not added again. -/
theorem foldl_addHandle_of_subset {handles as : List TableAlias} (h : as ⊆ handles) :
    as.foldl addHandle handles = handles := by
  induction as with
  | nil => rfl
  | cons a as ih =>
    obtain ⟨ha, has⟩ := List.cons_subset.1 h
    have hthere : handles.any a.same := List.any_eq_true.2 ⟨a, ha, by simp [TableAlias.same]⟩
    rw [List.foldl_cons, addHandle, if_pos hthere, ih has]

/-- Attaching a sibling once more changes nothing if merging it with itself does not. -/
theorem attach_of_mem {siblings : List ChainNode} {c : ChainNode} (h : Tidy siblings)
    (hc : c ∈ siblings) (hmerge : c.merge c = c) : attach siblings c = siblings := by
  induction h with
  | nil => simp at hc
  | @cons s siblings apart _ _ _ ih =>
    rw [attach_cons]
    rcases List.mem_cons.1 hc with rfl | hc
    · rw [if_pos c.alike_self, hmerge]
    · rw [if_neg (apart c hc), ih hc]

/-- Nodes that are there already, and that merging with themselves does not change, are not added
again. -/
theorem attachAll_of_subset {siblings cs : List ChainNode} (h : Tidy siblings)
    (hsub : cs ⊆ siblings) (hcs : ∀ c ∈ cs, c.merge c = c) :
    attachAll siblings cs = siblings := by
  induction cs with
  | nil => rfl
  | cons c cs ih =>
    obtain ⟨hc, hsub⟩ := List.cons_subset.1 hsub
    obtain ⟨hmerge, hcs⟩ := List.forall_mem_cons.1 hcs
    rw [attachAll_cons, attach_of_mem h hc hmerge, ih hsub hcs]

/-- What holds everywhere below a node holds of the node and everywhere below its children. -/
theorem forall_everywhere_iff {P : ChainNode → Prop} (n : ChainNode) :
    (∀ x ∈ n.everywhere, P x) ↔ P n ∧ ∀ c ∈ n.children, ∀ x ∈ c.everywhere, P x := by
  have hall (ns : List ChainNode) : (∀ x ∈ everywhereAll ns, P x) ↔
      ∀ c ∈ ns, ∀ x ∈ c.everywhere, P x := by
    induction ns with
    | nil => simp [everywhereAll]
    | cons c ns ih => rw [everywhereAll, List.forall_mem_append, ih, List.forall_mem_cons]
  rw [everywhere_eq, List.forall_mem_cons, hall]

/-- Merging nodes with themselves changes nothing if they bring nothing along. -/
theorem merge_self_of_mem {nodes : List ChainNode} (h : Tidy nodes)
    (hplain : ∀ n ∈ nodes, n.IsPlain) : ∀ n ∈ nodes, n.merge n = n := by
  induction h with
  | nil => exact List.forall_mem_nil _
  | @cons n ns _ below _ ihBelow ihOthers =>
    obtain ⟨hn, hns⟩ := List.forall_mem_cons.1 hplain
    refine List.forall_mem_cons.2 ⟨?_, ihOthers hns⟩
    obtain ⟨⟨hfilters, horder⟩, hplains⟩ := (forall_everywhere_iff n).1 hn
    have hchildren : attachAll n.children n.children = n.children :=
      attachAll_of_subset below (List.Subset.refl _) (ihBelow hplains)
    rw [merge_eq, hchildren, Inclusion.stronger_self, Requirement.stronger_self, hfilters, horder,
      foldl_addHandle_of_subset (List.Subset.refl _)]
    cases n
    simp_all

/-- A node without conditions and orderings, attached with two conditions in turn. -/
theorem filter_merge_filter {a : ChainNode} (h : Tidy a.children) (hplain : a.IsPlain)
    (f g : Expr) : (a.filter f).merge (a.filter g) = (a.filter f).filter g := by
  obtain ⟨⟨hfilters, horder⟩, hplains⟩ := (forall_everywhere_iff a).1 hplain
  have hchildren : attachAll a.children a.children = a.children :=
    attachAll_of_subset h (List.Subset.refl _) (merge_self_of_mem h hplains)
  simp [merge_eq, filter, hchildren, hfilters, horder, Inclusion.stronger_self,
    Requirement.stronger_self, foldl_addHandle_of_subset]

end ChainNode

/-! ## scripts -/

open ChainNode (Tidy)

mutual

/-- Scripts build tidy nodes. -/
theorem NodeScript.tidy_build : (s : NodeScript) → Tidy s.build.children
  | ⟨_, _, cs⟩ => by
    rw [NodeScript.build]
    exact NodeCall.tidy_runAll cs .nil

theorem NodeCall.tidy_run : (c : NodeCall) → {n : ChainNode} → Tidy n.children →
    Tidy (c.run n).children
  | .filter _, n, h | .orderBy _, n, h | .aliased _, n, h | .named _, n, h => by
    rw [NodeCall.run]
    exact h
  | .attach inclusion requirement child, n, h => by
    have hchild : Tidy child.build.children := NodeScript.tidy_build child
    rw [NodeCall.run]
    exact h.attach hchild fun s hs => (h.below_of_mem s hs).merge hchild

theorem NodeCall.tidy_runAll : (cs : List NodeCall) → {n : ChainNode} → Tidy n.children →
    Tidy (NodeCall.runAll n cs).children
  | [], n, h => by
    rw [NodeCall.runAll]
    exact h
  | c :: cs, n, h => by
    rw [NodeCall.runAll]
    exact NodeCall.tidy_runAll cs (NodeCall.tidy_run c h)

end

/-- A call on a request leaves its chain tidy. -/
theorem RequestCall.tidy_run (c : RequestCall) {r : Request} (h : Tidy r.chain) :
    Tidy (c.run r).chain := by
  cases c with
  | attach inclusion requirement child =>
    have hchild : Tidy child.build.children := child.tidy_build
    exact h.attach hchild fun s hs => (h.below_of_mem s hs).merge hchild
  | _ => exact h

/-- No calls ever make two siblings alike. -/
theorem RequestScript.tidy_build (s : RequestScript) : Tidy s.build.chain := by
  have hruns (cs : List RequestCall) (r : Request) (h : Tidy r.chain) :
      Tidy (cs.foldl RequestCall.run r).chain := by
    induction cs generalizing r with
    | nil => exact h
    | cons c cs ih => exact ih _ (c.tidy_run h)
  exact hruns s.calls _ .nil

/-! ## attaching twice -/

namespace Request

open ChainNode (attach attachAll termCount)

variable (r : Request) (i : Inclusion) (q : Requirement) (f g : Expr)

/-- A node attached with one condition and then with another. -/
def attachedTwice (a : ChainNode) : Request :=
  (r.attached i q (a.filter f)).attached i q (a.filter g)

variable {a : ChainNode}

/-- Attached with one condition and then with another, a node is merged from both. -/
theorem attachedTwice_eq (h : Tidy a.children) :
    r.attachedTwice i q f g a = r.attached i q ((a.filter f).merge (a.filter g)) := by
  let w : ChainNode := { a with inclusion := i, requirement := q }
  have hmerge : attach (attach r.chain (w.filter f)) (w.filter g) =
      attach r.chain ((w.filter f).merge (w.filter g)) :=
    ChainNode.attach_merge r.chain h h w.alike_self
  have hwish : { (a.filter f).merge (a.filter g) with inclusion := i, requirement := q } =
      (w.filter f).merge (w.filter g) := by
    simp [w, ChainNode.merge_eq, ChainNode.filter, Inclusion.stronger_self,
      Requirement.stronger_self]
  rw [attached, hwish, ← hmerge]
  rfl

/-- This is to attach it once with both conditions exactly if it brings nothing else along. -/
theorem attachedTwice_eq_iff (h : Tidy a.children) :
    r.attachedTwice i q f g a = r.attached i q ((a.filter f).filter g) ↔ a.IsPlain := by
  constructor
  · intro heq
    have hcount := congrArg (fun r : Request => termCount r.chain) heq
    have hattach (siblings : List ChainNode) (c : ChainNode) :
        termCount (attach siblings c) = termCount siblings + termCount [c] :=
      ChainNode.termCount_attachAll siblings [c]
    simp only [attachedTwice, attached, hattach, ChainNode.termCount_cons, ChainNode.filter,
      List.length_append, List.length_singleton, ChainNode.termCount_nil] at hcount
    rw [ChainNode.isPlain_iff, ChainNode.termCount_cons, ChainNode.termCount_nil]
    omega
  · intro hplain
    rw [r.attachedTwice_eq i q f g h, ChainNode.filter_merge_filter h hplain]

/-- Calls never make siblings alike, so that to attach two alike nodes is to attach a merged one.
Merging is associative; it takes the stronger wishes and adds up conditions and orderings.  So a
node that is attached twice compiles like the merged one, and like the node with both conditions
if it brings no others along. -/
theorem attaching_merges :
    ((∀ s : RequestScript, Tidy s.build.chain) ∧ ∀ s : NodeScript, Tidy s.build.children) ∧
    (∀ (siblings : List ChainNode) (a b : ChainNode), Tidy a.children → Tidy b.children →
      a.alike b → attach (attach siblings a) b = attach siblings (a.merge b)) ∧
    (∀ a b c : ChainNode, Tidy b.children → Tidy c.children →
      (a.merge b).merge c = a.merge (b.merge c)) ∧
    (∀ a b : ChainNode,
      ((a.merge b).inclusion = .including ↔ a.inclusion = .including ∨ b.inclusion = .including) ∧
      ((a.merge b).requirement = .required ↔
        a.requirement = .required ∨ b.requirement = .required) ∧
      (a.merge b).filters = a.filters ++ b.filters ∧ (a.merge b).order = a.order ++ b.order) ∧
    ∀ (r : Request) (i : Inclusion) (q : Requirement) (a : ChainNode) (f g : Expr),
      Tidy a.children →
      (∀ config, (r.attachedTwice i q f g a).compile config =
        (r.attached i q ((a.filter f).merge (a.filter g))).compile config) ∧
      (a.IsPlain → ∀ config, (r.attachedTwice i q f g a).compile config =
        (r.attached i q ((a.filter f).filter g)).compile config) ∧
      (r.attachedTwice i q f g a = r.attached i q ((a.filter f).filter g) → a.IsPlain) := by
  refine ⟨⟨RequestScript.tidy_build, NodeScript.tidy_build⟩,
    fun siblings a b ha hb hab => ChainNode.attach_merge siblings ha hb hab,
    fun a b c hb hc => ChainNode.merge_assoc a hb hc,
    fun a b => ⟨ChainNode.inclusion_merge a b, ChainNode.requirement_merge a b, ?_, ?_⟩,
    fun r i q a f g h => ⟨fun config => ?_, fun hplain config => ?_, ?_⟩⟩
  · rw [ChainNode.merge_eq]
  · rw [ChainNode.merge_eq]
  -- attaching one after the other is attaching the merge, before anything is compiled
  · rw [r.attachedTwice_eq i q f g h]
  · rw [(r.attachedTwice_eq_iff i q f g h).2 hplain]
  · exact (r.attachedTwice_eq_iff i q f g h).1

end Request

namespace Library

def everyBook : Request where
  table := books

/-- Authors with their books. -/
def prolificAuthor : ChainNode := { author with children := [booksOfAuthor] }

def isEarlier : Expr := .binary .lt (.col "id") (.literal (.int 9))

/-- An author node that is restricted from the start. -/
def authorWithA : ChainNode := .ofAssociation (author.association.filter startsWithA)

/-- The author node is tidy. -/
theorem tidy_prolificAuthor : ChainNode.Tidy prolificAuthor.children :=
  .cons (List.forall_mem_nil _) .nil .nil

end Library

/-- Attached twice, also next to a restricted one, the author is joined once. -/
theorem Request.attaching_merges_library :
    ChainNode.attach (ChainNode.attach [Library.authorWithA] Library.prolificAuthor)
        Library.authorWithA =
      ChainNode.attach [Library.authorWithA] (Library.prolificAuthor.merge Library.authorWithA) ∧
    (Library.prolificAuthor.merge Library.prolificAuthor).merge Library.authorWithA =
      Library.prolificAuthor.merge (Library.prolificAuthor.merge Library.authorWithA) ∧
    (Library.everyBook.attachedTwice .including .required Library.startsWithA Library.isLater
        Library.prolificAuthor).compile =
      (Library.everyBook.attached .including .required
        ((Library.prolificAuthor.filter Library.startsWithA).filter Library.isLater)).compile := by
  obtain ⟨-, hattach, hassoc, -, htwice⟩ := attaching_merges
  have htidy : ChainNode.Tidy Library.prolificAuthor.children := Library.tidy_prolificAuthor
  obtain ⟨-, hplain, -⟩ := htwice Library.everyBook .including .required Library.prolificAuthor
    Library.startsWithA Library.isLater htidy
  have hjoined := hattach [Library.authorWithA] _ Library.authorWithA htidy .nil (by decide +kernel)
  exact ⟨hjoined, hassoc _ _ _ htidy .nil, hplain (by decide) {}⟩

/-- A condition that the node has from the start is repeated. -/
theorem Request.attachedTwice_repeats :
    ChainNode.Tidy Library.authorWithA.children ∧
    (Library.everyBook.attachedTwice .including .required Library.isLater Library.isEarlier
        Library.authorWithA).compile.toOption.map (fun q => q.root.text.sql) ≠
      (Library.everyBook.attached .including .required
        ((Library.authorWithA.filter Library.isLater).filter
          Library.isEarlier)).compile.toOption.map (fun q => q.root.text.sql) :=
  ⟨.nil, by decide +kernel⟩

end AssociationQuery
