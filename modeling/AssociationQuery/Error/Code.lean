import AssociationQuery.Error

/-!
# AssociationQuery.Error.Code

Short codes for the classes of errors, for logs and for callers that branch on
them: the class, and its kind where it has kinds.  The tables read a kind back
from its word.
-/

namespace AssociationQuery

/-- The word for a kind in a table of words. -/
def wordIn [BEq α] (words : List (String × α)) (kind : α) : String :=
  ((words.find? fun w => w.2 == kind).map Prod.fst).getD ""

def AssociationErrorKind.words : List (String × AssociationErrorKind) :=
  [("AliasConflict", .aliasConflict), ("AmbiguousForeignKey", .ambiguousForeignKey),
    ("UnsupportedChainShape", .unsupportedChainShape), ("UndefinedAlias", .undefinedAlias),
    ("InvalidAssociation", .invalidAssociation)]

def ConnectionErrorKind.words : List (String × ConnectionErrorKind) :=
  [("Connect", .connect), ("Disconnected", .disconnected), ("PoolExhausted", .poolExhausted)]

def QueryErrorKind.words : List (String × QueryErrorKind) :=
  [("Syntax", .malformed), ("Constraint", .constraint), ("NotFound", .notFound),
    ("Deadlock", .deadlock), ("Serialization", .serialization), ("Timeout", .timeout),
    ("Database", .database)]

def SchemaErrorKind.words : List (String × SchemaErrorKind) :=
  [("TableNotFound", .tableNotFound), ("ColumnNotFound", .columnNotFound), ("Invalid", .invalid)]

/-- The class of an error, and its kind where the class has kinds. -/
def Error.code : Error → String
  | association e => "Association/" ++ wordIn AssociationErrorKind.words e.kind
  | connection e => "Connection/" ++ wordIn ConnectionErrorKind.words e.kind
  | query e => "Query/" ++ wordIn QueryErrorKind.words e.kind
  | type _ => "Type"
  | schema e => "Schema/" ++ wordIn SchemaErrorKind.words e.kind
  | config _ => "Config"
  | cancelled => "Cancelled"
  | custom _ => "Custom"

end AssociationQuery
