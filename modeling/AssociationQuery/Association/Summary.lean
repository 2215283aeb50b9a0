import AssociationQuery.Association.Basic
import AssociationQuery.Text.Quoted

/-!
# AssociationQuery.Association.Summary

One line about an association for logs: its name, kind, tables and key columns.
-/

namespace AssociationQuery

open Text.Quoted (quoted)

/-- The kind as one word. -/
def AssociationKind.word : AssociationKind → String
  | direct .belongsTo => "BelongsTo"
  | direct .hasOne => "HasOne"
  | direct .hasMany => "HasMany"
  | hasOneThrough => "HasOneThrough"
  | hasManyThrough => "HasManyThrough"

/-- The association in one line. -/
def Association.summary (a : Association) : String :=
  let pairs := a.mapping.map fun p => "(" ++ quoted p.1 ++ ", " ++ quoted p.2 ++ ")"
  "AssociationSpec \x7b name: " ++ quoted a.name ++ ", kind: " ++ a.kind.word
    ++ ", origin: " ++ quoted a.origin.name ++ ", destination: " ++ quoted a.destination.name
    ++ ", mapping: [" ++ ", ".intercalate pairs ++ "], .. \x7d"

end AssociationQuery
