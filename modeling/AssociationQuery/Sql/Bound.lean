import AssociationQuery.Value.Basic

/-!
# AssociationQuery.Sql.Bound

SQL text together with the values of its placeholders, in their order.
-/

namespace AssociationQuery

structure BoundSql where
  sql : String
  params : List Value := []
  deriving DecidableEq, Repr

end AssociationQuery
