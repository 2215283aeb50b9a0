import AssociationQuery.Error
import AssociationQuery.Row
import AssociationQuery.Sql.Bound

/-!
# AssociationQuery.Connection

The boundary to the database.

The library runs nothing itself: it hands one statement after another to a
connection.  A statement ends in rows or an error, or it is cancelled or gives
up; in every other case than rows the work that asked for them ends the same
way, and for the same reason.  What a connection remembers between statements and
what it calls a reason are its own affair, a state and a reason of any type.
-/

namespace AssociationQuery

/-- How a piece of work ended.  What is cancelled has a reason, of type `ρ`. -/
inductive Outcome (α : Type) (ρ : Type := Unit) where
  | ok (a : α)
  | err (e : Error)
  | cancelledBy (reason : ρ)
  | panicked (message : String)
  deriving Repr

/-- Cancelled where nothing is said of the reason. -/
@[match_pattern] def Outcome.cancelled : Outcome α := .cancelledBy ()

/-- Work on a connection whose memory is of type `σ` and whose reasons are of type `ρ`. -/
def Session (σ ρ α : Type) : Type := σ → Outcome α ρ × σ

namespace Session

def pure (a : α) : Session σ ρ α := fun s => (.ok a, s)

/-- Go on with the result; anything but a result ends the work. -/
def bind (x : Session σ ρ α) (f : α → Session σ ρ β) : Session σ ρ β := fun s =>
  match x s with
  | (.ok a, s) => f a s
  | (.err e, s) => (.err e, s)
  | (.cancelledBy r, s) => (.cancelledBy r, s)
  | (.panicked m, s) => (.panicked m, s)

instance : Monad (Session σ ρ) where
  pure := pure
  bind := bind

/-- Work that needs no connection and may fail. -/
def ofExcept : Except Error α → Session σ ρ α
  | .ok a => fun s => (.ok a, s)
  | .error e => fun s => (.err e, s)

end Session

/-- A connection: how it answers a statement. -/
structure Connection (σ : Type) (ρ : Type := Unit) where
  query : BoundSql → Session σ ρ (List Row)

/-- The first row of the answer, if there is one. -/
def Connection.queryOne (c : Connection σ ρ) (statement : BoundSql) : Session σ ρ (Option Row) := do
  return (← c.query statement).head?

end AssociationQuery
