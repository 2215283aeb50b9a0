/-!
# AssociationQuery.Json.Basic

JSON values as databases return them in a JSON column.

Numbers are whole.  The members of an object are kept in the order of their
names, each name once: `Json.ofMembers` brings a list of members into that form
and `insertMember` is the one step it repeats.
-/

namespace AssociationQuery

inductive Json where
  | null
  | bool (b : Bool)
  | integer (n : Int)
  | string (s : String)
  | array (items : List Json)
  | object (members : List (String × Json))
  deriving Repr, Inhabited

namespace Json

/-! ## members in the order of their names -/

/-- Put a member in its place; it replaces the member of the same name. -/
def insertMember (name : String) (value : α) : List (String × α) → List (String × α)
  | [] => [(name, value)]
  | m :: rest =>
    if name < m.1 then (name, value) :: m :: rest
    else if name = m.1 then (name, value) :: rest
    else m :: insertMember name value rest

/-- A member that is put in its place is found under its name, and nothing else changes. -/
theorem lookup_insertMember (k name : String) (value : α) (members : List (String × α)) :
    (insertMember name value members).lookup k =
      if k = name then some value else members.lookup k := by
  induction members with
  | nil => simp [insertMember, List.lookup_cons]; split <;> simp_all
  | cons m rest ih => grind [insertMember]

/-- Members in the order of their names; of several with one name the last. -/
def sortMembers (members : List (String × α)) : List (String × α) :=
  members.foldl (fun sorted m => insertMember m.1 m.2 sorted) []

/-- The object of the given members. -/
def ofMembers (members : List (String × Json)) : Json := object (sortMembers members)

/-! ## equality -/

mutual

/-- Are the two values the same? -/
def equal : Json → Json → Bool
  | null, null => true
  | bool a, bool b => a == b
  | integer a, integer b => a == b
  | string a, string b => a == b
  | array as, array bs => equalItems as bs
  | object as, object bs => equalMembers as bs
  | _, _ => false

def equalItems : List Json → List Json → Bool
  | [], [] => true
  | a :: as, b :: bs => equal a b && equalItems as bs
  | _, _ => false

def equalMembers : List (String × Json) → List (String × Json) → Bool
  | [], [] => true
  | (m, a) :: as, (n, b) :: bs => m == n && equal a b && equalMembers as bs
  | _, _ => false

end

mutual

/-- The test for equality is exact, at any depth. -/
theorem equal_iff : ∀ a b : Json, equal a b = true ↔ a = b
  | null, b => by cases b <;> simp [equal]
  | bool _, b => by cases b <;> simp [equal]
  | integer _, b => by cases b <;> simp [equal]
  | string _, b => by cases b <;> simp [equal]
  | array as, b => by
    cases b with
    | array bs => simpa [equal] using equalItems_iff as bs
    | _ => simp [equal]
  | object as, b => by
    cases b with
    | object bs => simpa [equal] using equalMembers_iff as bs
    | _ => simp [equal]

theorem equalItems_iff : ∀ as bs : List Json, equalItems as bs = true ↔ as = bs
  | [], bs => by cases bs <;> simp [equalItems]
  | a :: as, bs => by
    cases bs with
    | nil => simp [equalItems]
    | cons b bs => simp [equalItems, equal_iff a b, equalItems_iff as bs]

theorem equalMembers_iff : ∀ as bs : List (String × Json), equalMembers as bs = true ↔ as = bs
  | [], bs => by cases bs <;> simp [equalMembers]
  | (m, a) :: as, bs => by
    cases bs with
    | nil => simp [equalMembers]
    | cons b bs =>
      obtain ⟨n, b⟩ := b
      simp [equalMembers, equal_iff a b, equalMembers_iff as bs]

end

instance : DecidableEq Json := fun a b => decidable_of_iff _ (equal_iff a b)

end Json

end AssociationQuery
