import AssociationQuery.Sql.Token

/-!
# AssociationQuery.Proofs.Reading.Identifiers

Quoted identifiers as SQL reads them.

Inside a quoted identifier a doubled mark stands for one and a single one is the end,
`Identifier.readInside`; outside, every character is read for itself.  Whatever a name is made of,
reading gives it back and stops right behind it, unless the text behind goes on with one more
mark: `Dialect.column_read_iff`.  So no name gets out of its quotes, and no two columns are written
alike.
-/

namespace AssociationQuery

namespace Identifier

/-! ## names in quotes -/

/-- Read from behind the opening mark: the name, and the text behind the closing mark. -/
def readInside (mark : Char) : List Char → Option (List Char × List Char)
  | [] => none
  | c :: cs =>
    if c = mark then
      match cs with
      | [] => some ([], [])
      | c' :: rest =>
        if c' = mark then (readInside mark rest).map (Prod.map (mark :: ·) id)
        else some ([], c' :: rest)
    else (readInside mark cs).map (Prod.map (c :: ·) id)

variable {mark : Char}

/-- The closing mark is the first one that is not doubled. -/
theorem readInside_mark {rest : List Char} (h : rest.head? ≠ some mark) :
    readInside mark (mark :: rest) = some ([], rest) := by
  cases rest with
  | nil => simp [readInside]
  | cons c rest =>
    have hc : c ≠ mark := fun heq => h (congrArg some heq)
    simp [readInside, hc]

/-- Two marks inside are one. -/
theorem readInside_mark_mark (rest : List Char) :
    readInside mark (mark :: mark :: rest) =
      (readInside mark rest).map (Prod.map (mark :: ·) id) := by
  simp [readInside]

/-- Any other character stands for itself. -/
theorem readInside_other {c : Char} (h : c ≠ mark) (rest : List Char) :
    readInside mark (c :: rest) = (readInside mark rest).map (Prod.map (c :: ·) id) := by
  cases rest <;> simp [readInside, h]

/-- A name with its marks doubled is read back, and reading goes on behind it. -/
theorem readInside_doubled (cs tail : List Char) :
    readInside mark (cs.flatMap (fun c => if c = mark then [mark, mark] else [c]) ++ tail) =
      (readInside mark tail).map (Prod.map (cs ++ ·) id) := by
  induction cs with
  | nil =>
    rw [List.flatMap_nil, List.nil_append]
    cases readInside mark tail <;> rfl
  | cons c cs ih =>
    by_cases hc : c = mark
    · subst hc
      rw [List.flatMap_cons, if_pos rfl, List.append_assoc, List.cons_append, List.cons_append,
        List.nil_append, readInside_mark_mark, ih]
      cases readInside c tail <;> rfl
    · rw [List.flatMap_cons, if_neg hc, List.append_assoc, List.singleton_append,
        readInside_other hc, ih]
      cases readInside mark tail <;> rfl

/-- Reading ends at the closing mark exactly if no other mark follows it. -/
theorem readInside_enclosed_iff (cs rest : List Char) :
    readInside mark (cs.flatMap (fun c => if c = mark then [mark, mark] else [c]) ++ mark :: rest) =
      some (cs, rest) ↔ rest.head? ≠ some mark := by
  rw [readInside_doubled]
  constructor
  · intro h hhead
    obtain ⟨rest, rfl⟩ := List.head?_eq_some_iff.1 hhead
    -- the name would go on with the mark
    rw [readInside_mark_mark, Option.map_map, Option.map_eq_some_iff] at h
    obtain ⟨x, -, hx⟩ := h
    have hname : cs ++ mark :: x.1 = cs := congrArg Prod.fst hx
    simp at hname
  · intro h
    rw [readInside_mark h, Option.map_some, Prod.map_apply, List.append_nil, id]

end Identifier

/-! ## texts with names -/

/-- What a text is read as. -/
inductive TextPart where
  /-- A quoted identifier. -/
  | name (name : String)
  /-- A character outside of quotes. -/
  | character (c : Char)
  deriving DecidableEq

namespace Dialect

/-- The first thing in a text, and what follows it. -/
def readNext (d : Dialect) : List Char → Option (TextPart × List Char)
  | [] => none
  | c :: cs =>
    if c = d.mark then
      (Identifier.readInside d.mark cs).map (Prod.map (fun name => .name (String.ofList name)) id)
    else some (.character c, cs)

/-- The first things in a text, as many as asked for, and what follows them. -/
def readFirst (d : Dialect) : Nat → List Char → Option (List TextPart × List Char)
  | 0, cs => some ([], cs)
  | n + 1, cs => do
    let (x, rest) ← d.readNext cs
    let (xs, rest) ← d.readFirst n rest
    return (x :: xs, rest)

variable {d : Dialect}

/-- A dot does not quote. -/
theorem mark_ne_dot (d : Dialect) : '.' ≠ d.mark := by
  cases d <;> decide

/-- An identifier is written between two marks, with its own marks doubled. -/
theorem toList_quoteIdentifier (d : Dialect) (name : String) :
    (d.quoteIdentifier name).toList = Identifier.enclose d.mark name.toList :=
  String.toList_ofList

/-- An identifier is read back unless one more mark follows. -/
theorem readNext_quoteIdentifier_iff (name : String) (rest : List Char) :
    d.readNext ((d.quoteIdentifier name).toList ++ rest) = some (.name name, rest) ↔
      rest.head? ≠ some d.mark := by
  rw [toList_quoteIdentifier, Identifier.enclose, List.cons_append, List.cons_append,
    List.append_assoc, List.singleton_append, readNext, if_pos rfl,
    ← Identifier.readInside_enclosed_iff name.toList rest]
  constructor
  · intro h
    obtain ⟨⟨cs, after⟩, hread, heq⟩ := Option.map_eq_some_iff.1 h
    obtain ⟨hname, hrest⟩ := Prod.mk.inj heq
    obtain rfl : String.ofList cs = name := TextPart.name.inj hname
    obtain rfl : after = rest := hrest
    rw [hread, String.toList_ofList]
  · intro h
    rw [h, Option.map_some, Prod.map_apply, String.ofList_toList, id]

/-- A dot is read as itself. -/
theorem readNext_dot (rest : List Char) :
    d.readNext ('.' :: rest) = some (.character '.', rest) := if_neg d.mark_ne_dot

/-- A column with the table in front of it, both in quotes. -/
def quoteColumn (d : Dialect) (table column : String) : String :=
  d.quoteIdentifier table ++ "." ++ d.quoteIdentifier column

/-- A column is its table, a dot and its name. -/
theorem toList_quoteColumn (d : Dialect) (table column : String) (rest : List Char) :
    (d.quoteColumn table column).toList ++ rest = (d.quoteIdentifier table).toList ++
      '.' :: ((d.quoteIdentifier column).toList ++ rest) := by
  simp [quoteColumn]

/-- A column is read back unless one more mark follows. -/
theorem readFirst_quoteColumn_iff (table column : String) (rest : List Char) :
    d.readFirst 3 ((d.quoteColumn table column).toList ++ rest) =
      some ([.name table, .character '.', .name column], rest) ↔ rest.head? ≠ some d.mark := by
  have htable : d.readNext ((d.quoteColumn table column).toList ++ rest) =
      some (.name table, '.' :: ((d.quoteIdentifier column).toList ++ rest)) := by
    rw [toList_quoteColumn, readNext_quoteIdentifier_iff]
    exact fun h => d.mark_ne_dot (Option.some.inj h)
  rw [← readNext_quoteIdentifier_iff column rest]
  simp only [readFirst, htable, readNext_dot, Option.bind_eq_bind, Option.bind_some]
  cases d.readNext ((d.quoteIdentifier column).toList ++ rest) with
  | none => simp
  | some x => simp [Prod.ext_iff]

/-- A column is written as its table and its name in quotes with a dot between them.  This is read
as these two names, and nothing of what follows it is touched, exactly if that does not begin with
one more mark.  So different columns are never written alike. -/
theorem column_read_iff (d : Dialect) (table column : String) :
    (∀ n ts, Token.text d n (Token.column table column ++ ts) =
      (d.quoteColumn table column).toList ++ Token.text d n ts) ∧
    (∀ rest : List Char, d.readFirst 3 ((d.quoteColumn table column).toList ++ rest) =
      some ([.name table, .character '.', .name column], rest) ↔ rest.head? ≠ some d.mark) ∧
    ∀ table' column', d.quoteColumn table column = d.quoteColumn table' column' ↔
      table = table' ∧ column = column' := by
  refine ⟨fun n ts => ?_, readFirst_quoteColumn_iff table column, fun table' column' => ⟨?_, ?_⟩⟩
  · rw [toList_quoteColumn, toList_quoteIdentifier, toList_quoteIdentifier]
    simp [Token.column, Token.text, Token.chars, Token.params, Keyword.spelling]
  · intro heq
    have hread := (readFirst_quoteColumn_iff (d := d) table column []).2 (by simp)
    have hread' := (readFirst_quoteColumn_iff (d := d) table' column' []).2 (by simp)
    rw [heq, hread'] at hread
    simpa [eq_comm] using hread
  · rintro ⟨rfl, rfl⟩
    rfl

/-- Marks at the end of a name and names without a character are no exceptions. -/
example : Dialect.postgres.readFirst 3 ['"', 'a', '"', '"', '"', '.', '"', '"', ' '] =
    some ([.name "a\"", .character '.', .name ""], [' ']) := rfl

end Dialect

end AssociationQuery
