import AssociationQuery.Proofs.Building.Calls
import AssociationQuery.Proofs.Planning.Optionality

/-!
# AssociationQuery.Proofs.Building.Order

The order of calls of different kinds does not matter.

Every call changes one field of what it is made on, so that the calls of one kind have the same
effect whatever stands between them.  A script therefore makes what can be made from its parts
alone, `RequestScript.build_eq`, and requests with the same parts compile to the same result.
-/

namespace AssociationQuery

/-! ## building from the parts -/

/-- An association under the last of several names, and settled as the last of several calls
says. -/
def Association.settled (a : Association) (names : List String) (requirements : List Requirement) :
    Association :=
  requirements.foldl (fun a r => a.withOptionality r) (names.foldl (fun a name => a.named name) a)

mutual

/-- The node that is built from parts. -/
def NodeParts.build : NodeParts → ChainNode
  | ⟨base, names, requirements, filters, order, aliases, keys, attached⟩ =>
    let a := base.settled names requirements
    { association := a.bare
      key := keys.getLastD a.name
      inclusion := .including
      requirement := .required
      filters := base.filters ++ filters
      order := base.order ++ order
      aliases := aliases.foldl addHandle []
      children := (NodeParts.buildAll attached).foldl ChainNode.attach [] }

def NodeParts.buildAttached : Inclusion × Requirement × NodeParts → ChainNode
  | (inclusion, requirement, parts) => { parts.build with inclusion, requirement }

def NodeParts.buildAll : List (Inclusion × Requirement × NodeParts) → List ChainNode
  | [] => []
  | x :: xs => NodeParts.buildAttached x :: NodeParts.buildAll xs

end

def RequestParts.build (p : RequestParts) : Request where
  table := p.table
  aliases := p.aliases.foldl addHandle []
  filters := p.filters
  having := p.having
  order := p.order
  annotations := p.annotations
  chain := (NodeParts.buildAll p.attached).foldl ChainNode.attach []
  limit := p.limits.getLast?
  offset := p.offsets.getLast?
  distinct := !p.distincts.isEmpty

/-! ## refined associations -/

namespace Association

variable (a : Association)

/-- Filters and orderings are settled by themselves. -/
theorem settled_withTerms (fs : List Expr) (os : List OrderTerm) (names : List String)
    (requirements : List Requirement) :
    (a.withTerms fs os).settled names requirements =
      (a.settled names requirements).withTerms fs os := by
  have hnamed (a : Association) (name : String) :
      (a.withTerms fs os).named name = (a.named name).withTerms fs os := by cases a <;> rfl
  have hsettled (a : Association) (r : Requirement) :
      (a.withTerms fs os).withOptionality r = (a.withOptionality r).withTerms fs os := by
    cases a <;> rfl
  have hnames (a : Association) : names.foldl (fun a name => a.named name) (a.withTerms fs os) =
      (names.foldl (fun a name => a.named name) a).withTerms fs os := by
    induction names generalizing a with
    | nil => rfl
    | cons name names ih => rw [List.foldl_cons, hnamed, ih, List.foldl_cons]
  rw [settled, settled, hnames]
  generalize names.foldl (fun a name => a.named name) a = b
  induction requirements generalizing b with
  | nil => rfl
  | cons r requirements ih => rw [List.foldl_cons, hsettled, ih, List.foldl_cons]

/-- Of all names that are given the last one counts. -/
theorem settled_named (name : String) (names : List String) (requirements : List Requirement) :
    (a.named name).settled names requirements = a.settled (name :: names) requirements := rfl

/-- So it is with the requirements. -/
theorem settled_withOptionality (r : Requirement) (names : List String)
    (requirements : List Requirement) :
    (a.withOptionality r).settled names requirements = a.settled names (r :: requirements) := by
  have hnamed (a : Association) (name : String) :
      (a.withOptionality r).named name = (a.named name).withOptionality r := by cases a <;> rfl
  have hnames : names.foldl (fun a name => a.named name) (a.withOptionality r) =
      (names.foldl (fun a name => a.named name) a).withOptionality r := by
    induction names generalizing a with
    | nil => rfl
    | cons name names ih => rw [List.foldl_cons, hnamed, ih, List.foldl_cons]
  rw [settled, settled, hnames, List.foldl_cons]

@[simp] theorem withTerms_self : a.withTerms a.filters a.order = a := by cases a <;> rfl

@[simp] theorem withTerms_withTerms (fs gs : List Expr) (os ps : List OrderTerm) :
    (a.withTerms fs os).withTerms gs ps = a.withTerms gs ps := by cases a <;> rfl

@[simp] theorem name_withTerms (fs : List Expr) (os : List OrderTerm) :
    (a.withTerms fs os).name = a.name := by cases a <;> rfl

@[simp] theorem filters_withTerms (fs : List Expr) (os : List OrderTerm) :
    (a.withTerms fs os).filters = fs := by cases a <;> rfl

@[simp] theorem order_withTerms (fs : List Expr) (os : List OrderTerm) :
    (a.withTerms fs os).order = os := by cases a <;> rfl

@[simp] theorem filters_named (name : String) : (a.named name).filters = a.filters := by
  cases a <;> rfl

@[simp] theorem order_named (name : String) : (a.named name).order = a.order := by
  cases a <;> rfl

@[simp] theorem filters_withOptionality (r : Requirement) :
    (a.withOptionality r).filters = a.filters := by cases a <;> rfl

@[simp] theorem order_withOptionality (r : Requirement) :
    (a.withOptionality r).order = a.order := by cases a <;> rfl

end Association

/-- The refinements of one kind act on one part of the association. -/
theorem AssociationCall.runs_eq (cs : List AssociationCall) (a : Association) :
    cs.foldl run a =
      (a.settled (cs.filterMap name?) (cs.filterMap requirement?)).withTerms
        (a.filters ++ cs.filterMap filter?) (a.order ++ cs.filterMap order?) := by
  induction cs generalizing a with
  | nil => simp [Association.settled]
  | cons c cs ih =>
    rw [List.foldl_cons, ih]
    cases c <;> simp [run, Association.filter, Association.orderBy, Association.settled_withTerms,
      Association.settled_named, Association.settled_withOptionality, List.filterMap_cons]

/-! ## nodes and requests -/

open NodeParts (buildAll)

/-- The effect of calls on a node, field by field. -/
def ChainNode.called (n : ChainNode) (cs : List NodeCall) : ChainNode :=
  { n with
    key := (cs.filterMap NodeCall.key?).getLastD n.key
    filters := n.filters ++ cs.filterMap NodeCall.filter?
    order := n.order ++ cs.filterMap NodeCall.order?
    aliases := (cs.filterMap NodeCall.alias?).foldl addHandle n.aliases
    children := (buildAll (NodeCall.attachedParts cs)).foldl ChainNode.attach n.children }

/-- Without calls a node stays as it is. -/
theorem ChainNode.called_nil (n : ChainNode) : n.called [] = n := by
  cases n
  simp [called, buildAll]

/-- Calls may be made one after the other. -/
theorem ChainNode.called_cons (n : ChainNode) (c : NodeCall) (cs : List NodeCall) :
    n.called (c :: cs) = (n.called [c]).called cs := by
  cases c <;> simp [called, buildAll, List.filterMap_cons, List.getLastD_nil, List.getLastD_cons,
    -List.getLastD_eq_getLast?]

mutual

/-- A script makes what its parts make. -/
theorem NodeScript.build_eq : (s : NodeScript) → s.build = s.parts.build
  | ⟨base, refinements, cs⟩ => by
    rw [NodeScript.build, NodeCall.runAll_eq cs, AssociationCall.runs_eq]
    simp [ChainNode.called, ChainNode.ofAssociation, NodeScript.parts, NodeParts.build,
      Association.bare]

/-- Every call changes one field. -/
theorem NodeCall.run_eq : (c : NodeCall) → (n : ChainNode) → c.run n = n.called [c]
  | .filter e, n => by
    simp [NodeCall.run, ChainNode.filter, ChainNode.called, buildAll, List.filterMap_cons]
  | .orderBy o, n => by
    simp [NodeCall.run, ChainNode.orderBy, ChainNode.called, buildAll, List.filterMap_cons]
  | .aliased a, n => by
    simp [NodeCall.run, ChainNode.aliased, ChainNode.called, buildAll, List.filterMap_cons]
  | .named key, n => by
    simp [NodeCall.run, ChainNode.named, ChainNode.called, buildAll, List.filterMap_cons]
  | .attach inclusion requirement child, n => by
    rw [NodeCall.run, NodeScript.build_eq child]
    simp [ChainNode.attached, ChainNode.called, buildAll, NodeParts.buildAttached,
      List.filterMap_cons]

/-- Running the calls on a node is calling them. -/
theorem NodeCall.runAll_eq : (cs : List NodeCall) → (n : ChainNode) →
    NodeCall.runAll n cs = n.called cs
  | [], n => n.called_nil.symm
  | c :: cs, n => by
    rw [NodeCall.runAll, NodeCall.runAll_eq cs, NodeCall.run_eq c, ← ChainNode.called_cons]

end

/-- The effect of calls on a request, field by field. -/
def Request.called (r : Request) (cs : List RequestCall) : Request where
  table := r.table
  aliases := (cs.filterMap RequestCall.alias?).foldl addHandle r.aliases
  filters := r.filters ++ cs.filterMap RequestCall.filter?
  having := r.having ++ cs.filterMap RequestCall.having?
  order := r.order ++ cs.filterMap RequestCall.order?
  annotations := r.annotations ++ cs.filterMap RequestCall.annotation?
  chain := (buildAll (cs.filterMap RequestCall.attached?)).foldl ChainNode.attach r.chain
  limit := (cs.filterMap RequestCall.limit?).getLast?.or r.limit
  offset := (cs.filterMap RequestCall.offset?).getLast?.or r.offset
  distinct := r.distinct || !(cs.filterMap RequestCall.distinct?).isEmpty

/-- Without calls a request stays as it is. -/
theorem Request.called_nil (r : Request) : r.called [] = r := by
  simp [called, buildAll]

/-- Calls may be made one after the other. -/
theorem Request.called_cons (r : Request) (c : RequestCall) (cs : List RequestCall) :
    r.called (c :: cs) = (r.called [c]).called cs := by
  cases c <;> simp [called, buildAll, List.filterMap_cons, List.getLast?_cons]

/-- Every call changes one field. -/
theorem RequestCall.run_eq (c : RequestCall) (r : Request) : c.run r = r.called [c] := by
  cases c with
  | attach inclusion requirement child =>
    rw [run, NodeScript.build_eq child]
    simp [Request.attached, Request.called, buildAll, NodeParts.buildAttached, List.filterMap_cons]
  | _ =>
    simp [run, Request.filter, Request.havingTerm, Request.orderBy, Request.annotated,
      Request.aliased, Request.withLimit, Request.withOffset, Request.withDistinct,
      Request.called, buildAll, List.filterMap_cons]

/-- Running the calls on a request is calling them. -/
theorem RequestCall.runs_eq (cs : List RequestCall) (r : Request) :
    cs.foldl run r = r.called cs := by
  induction cs generalizing r with
  | nil => exact r.called_nil.symm
  | cons c cs ih => rw [List.foldl_cons, ih, run_eq, ← Request.called_cons]

namespace RequestScript

/-- A script makes what its parts make. -/
theorem build_eq (s : RequestScript) : s.build = s.parts.build := by
  rw [build, RequestCall.runs_eq]
  simp [Request.called, parts, RequestParts.build]

/-- Scripts with the same calls of each kind, at every depth, make requests that compile to the
same result. -/
theorem compile_eq_of_parts {s t : RequestScript} (h : s.parts = t.parts) (config : Config) :
    s.build.compile config = t.build.compile config := by
  rw [s.build_eq, h, ← t.build_eq]

end RequestScript

namespace Library

def startsWithA : Expr := .like (.col "name") "A%" false

def isLater : Expr := .binary .gt (.col "id") (.literal (.int 1))

/-- Authors and their books with chapters, conditions first. -/
def conditionsFirst : RequestScript where
  table := authors
  calls := [.filter startsWithA, .filter isLater,
    .attach .including .optional ⟨booksOfAuthor.association,
      [.filter isLater, .orderBy (Expr.col "id").desc],
      [.attach .joining .required ⟨chaptersOfBook.association, [.filter isLater], []⟩]⟩,
    .orderBy (Expr.col "name").asc, .limit 5]

/-- The same, conditions last. -/
def conditionsLast : RequestScript where
  table := authors
  calls := [.limit 5,
    .attach .including .optional ⟨booksOfAuthor.association, [],
      [.attach .joining .required ⟨chaptersOfBook.association, [], [.filter isLater]⟩,
        .orderBy (Expr.col "id").desc, .filter isLater]⟩,
    .orderBy (Expr.col "name").asc, .filter startsWithA, .filter isLater]

/-- The request with its conditions first compiles. -/
theorem exists_compile_conditionsFirst : ∃ q, conditionsFirst.build.compile = .ok q :=
  exists_of_isOk (by decide +kernel)

end Library

/-- Whether conditions or chapters are asked for first, the same is compiled. -/
theorem RequestScript.compile_eq_of_parts_library :
    ∃ q : CompiledQuery, Library.conditionsFirst.parts = Library.conditionsLast.parts ∧
      Library.conditionsFirst.build.compile = .ok q ∧
      Library.conditionsLast.build.compile = .ok q := by
  obtain ⟨q, hq⟩ := Library.exists_compile_conditionsFirst
  exact ⟨q, rfl, hq, (compile_eq_of_parts rfl {}).symm.trans hq⟩

end AssociationQuery
