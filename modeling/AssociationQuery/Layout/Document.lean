import AssociationQuery.Json.Parser
import AssociationQuery.Json.Record
import AssociationQuery.Layout

/-!
# AssociationQuery.Layout.Document

Layouts as JSON, so that a compiled statement can be kept and its rows be
decoded elsewhere.
-/

namespace AssociationQuery

open Json (Document)

/-! ## reading -/

private def position? : Document → Option Nat := Document.nat? (Nat.pow 2 64)

def Span.ofDocument? (d : Document) : Option Span := do
  let r ← d.closedRecord? ["start", "end"]
  return ⟨← r.required? "start" position?, ← r.required? "end" position?⟩

def Scope.ofDocument? (d : Document) : Option Scope := do
  let r ← d.record? ["path", "name", "range", "nullable", "parent", "children", "prefetched"]
  return {
    path := ← r.required? "path" Document.string?
    name := ← r.required? "name" Document.string?
    range := ← r.required? "range" Span.ofDocument?
    nullable := ← r.required? "nullable" Document.bool?
    parent := ← r.nullable? "parent" position?
    children := ← r.required? "children" (Document.list? position?)
    prefetched := ← r.required? "prefetched" (Document.list? Document.string?) }

def Layout.ofDocument? (d : Document) : Option Layout := do
  let r ← d.record? ["scopes", "pairing", "width"]
  return {
    scopes := ← r.required? "scopes" (Document.list? Scope.ofDocument?)
    pairing := ← r.nullable? "pairing" Span.ofDocument?
    width := ← r.required? "width" position? }

/-- The layout that a JSON text describes. -/
def Layout.ofText? (text : String) : Option Layout := Document.ofText? text >>= Layout.ofDocument?

/-! ## writing -/

def Span.toJson (s : Span) : Json :=
  .ofMembers [("start", .integer s.start), ("end", .integer s.stop)]

def Scope.toJson (s : Scope) : Json :=
  .ofMembers [
    ("path", .string s.path),
    ("name", .string s.name),
    ("range", s.range.toJson),
    ("nullable", .bool s.nullable),
    ("parent", s.parent.elim .null fun n => .integer n),
    ("children", .array (s.children.map fun (n : Nat) => .integer n)),
    ("prefetched", .array (s.prefetched.map .string))]

def Layout.toJson (l : Layout) : Json :=
  .ofMembers [
    ("scopes", .array (l.scopes.map Scope.toJson)),
    ("pairing", l.pairing.elim .null Span.toJson),
    ("width", .integer l.width)]

end AssociationQuery
