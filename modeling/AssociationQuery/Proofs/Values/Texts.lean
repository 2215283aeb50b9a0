import AssociationQuery.Json.Parser
import AssociationQuery.Json.Printer

/-!
# AssociationQuery.Proofs.Values.Texts

Compact JSON text names one value.

The text of a value can be told from whatever stands behind it.  Its first character shows the
kind of the value; then a number goes on as long as there are digits, a string up to the first
quote that is not escaped, an array and an object up to the bracket behind their last part.  So
two values have the same text only if they are the same, `Json.text_inj`.
-/

namespace AssociationQuery.Json

/-! ## texts with something behind them -/

/-- The characters do not go on with a digit. -/
def Ends (cs : List Char) : Prop := ∀ c ∈ cs.head?, c.isDigit = false

theorem ends_nil : Ends [] := nofun

/-- A number ends before any other character. -/
theorem ends_cons {c : Char} (h : c.isDigit = false) (cs : List Char) : Ends (c :: cs) := by
  intro d hd
  obtain rfl := Option.some.inj hd
  exact h

/-- The characters written for `a` tell it, with anything behind them but a digit. -/
def Told (write : α → List Char) (a : α) : Prop :=
  ∀ b r s, Ends r → Ends s → write a ++ r = write b ++ s → a = b ∧ r = s

/-! ## numbers -/

/-- Numbers are written in digits. -/
theorem isDigit_toDigits (n : Nat) : ∀ c ∈ Nat.toDigits 10 n, c.isDigit :=
  fun _ hc => Nat.isDigit_of_mem_toDigits (by decide) (by decide) hc

/-- The digits of a number are told from what follows. -/
theorem takeWhile_toDigits (n : Nat) {r : List Char} (h : Ends r) :
    (Nat.toDigits 10 n ++ r).takeWhile Char.isDigit = Nat.toDigits 10 n := by
  have hr : r.takeWhile Char.isDigit = [] := by
    cases r with
    | nil => rfl
    | cons c r => simp [h c rfl]
  rw [List.takeWhile_append_of_pos (isDigit_toDigits n), hr, List.append_nil]

/-- A number is told from any other. -/
theorem told_toDigits (n : Nat) : Told (Nat.toDigits 10) n := by
  intro m r s hr hs h
  have hdigits : Nat.toDigits 10 n = Nat.toDigits 10 m := by
    rw [← takeWhile_toDigits n hr, h, takeWhile_toDigits m hs]
  have hnumber := congrArg (Nat.ofDigitChars 10 · 0) hdigits
  rw [hdigits] at h
  exact ⟨by simpa using hnumber, List.append_cancel_left h⟩

/-- A number begins with a digit. -/
theorem exists_toDigits (n : Nat) : ∃ c cs, Nat.toDigits 10 n = c :: cs ∧ c.isDigit := by
  cases h : Nat.toDigits 10 n with
  | nil => exact absurd h Nat.toDigits_ne_nil
  | cons c cs => exact ⟨c, cs, rfl, isDigit_toDigits n c (h ▸ List.mem_cons_self)⟩

/-- No number starts with a minus sign. -/
theorem toDigits_ne_minus (n : Nat) (r s : List Char) : Nat.toDigits 10 n ++ r ≠ '-' :: s := by
  obtain ⟨c, cs, hcs, hc⟩ := exists_toDigits n
  intro h
  rw [hcs] at h
  obtain ⟨rfl, -⟩ := List.cons.inj h
  exact absurd hc (by decide)

/-- An integer is told from any other, its sign included. -/
theorem told_printInt (n : Int) : Told printInt n := by
  intro m r s hr hs h
  rw [printInt, printInt] at h
  by_cases hn : n < 0 <;> by_cases hm : m < 0
  · rw [if_pos hn, if_pos hm] at h
    obtain ⟨habs, hrest⟩ := told_toDigits _ _ _ _ hr hs (List.cons.inj h).2
    exact ⟨by omega, hrest⟩
  · rw [if_pos hn, if_neg hm] at h
    exact absurd h.symm (toDigits_ne_minus _ _ _)
  · rw [if_neg hn, if_pos hm] at h
    exact absurd h (toDigits_ne_minus _ _ _)
  · rw [if_neg hn, if_neg hm] at h
    obtain ⟨habs, hrest⟩ := told_toDigits _ _ _ _ hr hs h
    exact ⟨by omega, hrest⟩

/-! ## strings -/

section strings

open Document (units? textOfUnits? CodeUnit hexQuad? shortEscape? literal?)

/-- An escape of one letter is read as its character. -/
theorem units?_short {e c : Char} (he : e ≠ 'u') (h : shortEscape? e = some c) (r : List Char) :
    units? ('\\' :: e :: r) = (units? r).map fun p => (.char c :: p.1, p.2) := by
  -- whether four more characters follow only matters for the escape by number
  by_cases hr : ∃ a b c d more, r = a :: b :: c :: d :: more
  · obtain ⟨a, b, c, d, more, rfl⟩ := hr
    rw [units?, if_neg he, h]
    cases units? (a :: b :: c :: d :: more) <;> rfl
  · rw [units?, if_neg he, h]
    · cases units? r <;> rfl
    · exact fun a b c d more hmore => hr ⟨a, b, c, d, more, hmore⟩

/-- An escape of four digits is read as its number. -/
theorem units?_numbered {n : Nat} {a b c d : Char} (h : hexQuad? [a, b, c, d] = some (n, []))
    (r : List Char) : units? ('\\' :: 'u' :: a :: b :: c :: d :: r) =
      (units? r).map fun p => (.unit n :: p.1, p.2) := by
  rw [units?, if_pos rfl, h]
  cases units? r <;> rfl

/-- Any other character is read as itself. -/
theorem units?_plain {c : Char} (hquote : c ≠ '"') (hescape : c ≠ '\\') (h : ¬c.toNat < 0x20)
    (r : List Char) : units? (c :: r) = (units? r).map fun p => (.char c :: p.1, p.2) := by
  rw [units?, if_neg h]
  · cases units? r <;> rfl
  · exact hquote
  · exact fun hc _ => hescape hc
  · exact fun _ _ hc _ => hescape hc

/-- A number below the surrogates is the character of that number. -/
theorem textOfUnits?_unit {n : Nat} (h : n < 0xD800) (us : List CodeUnit) :
    textOfUnits? (.unit n :: us) = (textOfUnits? us).map (Char.ofNat n :: ·) := by
  have hhalf : ¬(0xD800 ≤ n ∧ n < 0xE000) := by omega
  have hhigh : ¬(0xD800 ≤ n ∧ n < 0xDC00) := by omega
  have hlow : ¬(0xDC00 ≤ n ∧ n < 0xE000) := by omega
  cases us with
  | nil => simp only [textOfUnits?, Option.map_some, if_neg hhalf]
  | cons u us => cases u <;> simp only [textOfUnits?, if_neg hhigh, if_neg hlow]

theorem hexQuad?_control : ∀ n < 0x20,
    hexQuad? ['0', '0', hexDigit (n / 16), hexDigit n] = some (n, []) := by decide

/-- A character is written such that it is read as one unit that stands for it. -/
theorem exists_unit (c : Char) : ∃ u : CodeUnit,
    (∀ r, units? (escape c ++ r) = (units? r).map fun p => (u :: p.1, p.2)) ∧
      ∀ us, textOfUnits? (u :: us) = (textOfUnits? us).map (c :: ·) := by
  have short {e c : Char} (he : e ≠ 'u') (h : shortEscape? e = some c) : ∃ u : CodeUnit,
      (∀ r, units? ('\\' :: e :: r) = (units? r).map fun p => (u :: p.1, p.2)) ∧
        ∀ us, textOfUnits? (u :: us) = (textOfUnits? us).map (c :: ·) :=
    ⟨.char c, units?_short he h, fun _ => rfl⟩
  -- a character is escaped by a letter or by its number, or stands for itself
  unfold escape
  split
  · exact short (by decide) rfl
  · exact short (by decide) rfl
  · exact short (by decide) rfl
  · exact short (by decide) rfl
  · exact short (by decide) rfl
  · exact short (by decide) rfl
  · exact short (by decide) rfl
  · next hquote hescape _ _ _ _ _ =>
    split
    · next hcontrol =>
      refine ⟨.unit c.toNat, units?_numbered (hexQuad?_control _ hcontrol), fun us => ?_⟩
      rw [textOfUnits?_unit (by omega), Char.ofNat_toNat]
    · next hplain => exact ⟨.char c, units?_plain hquote hescape hplain, fun _ => rfl⟩

/-- An escaped text is read back up to the closing quote. -/
theorem exists_units (cs r : List Char) : ∃ us,
    units? (cs.flatMap escape ++ '"' :: r) = some (us, r) ∧ textOfUnits? us = some cs := by
  induction cs with
  | nil => exact ⟨[], by rw [List.flatMap_nil, List.nil_append, units?], rfl⟩
  | cons c cs ih =>
    obtain ⟨us, hus, htext⟩ := ih
    obtain ⟨u, hu, hc⟩ := exists_unit c
    refine ⟨u :: us, ?_, ?_⟩
    · rw [List.flatMap_cons, List.append_assoc, hu, hus, Option.map_some]
    · rw [hc, htext, Option.map_some]

/-- A printed string is read back, up to its closing quote. -/
theorem literal?_flatMap_escape (s : String) (r : List Char) :
    literal? (s.toList.flatMap escape ++ '"' :: r) = some (some s, r) := by
  obtain ⟨us, hus, htext⟩ := exists_units s.toList r
  simp only [literal?, hus, Option.map_some, htext, String.ofList_toList]

end strings

/-- A string is told from any other. -/
theorem told_printString (s : String) : Told printString s := by
  intro t r r' _ _ h
  simp only [printString, List.cons_append, List.append_assoc, List.nil_append] at h
  have hread := congrArg Document.literal? (List.cons.inj h).2
  rw [literal?_flatMap_escape, literal?_flatMap_escape] at hread
  simpa using hread

/-! ## parts with commas between them -/

section parts

/-- What is written for several parts, with commas between them. -/
def commaed (write : α → List Char) : List α → List Char
  | [] => []
  | [a] => write a
  | a :: b :: rest => write a ++ ',' :: commaed write (b :: rest)

/-- What stands behind a part: a comma with the parts that follow, or the closing mark. -/
def continued (write : α → List Char) (close : Char) (behind : List Char) : List α → List Char
  | [] => close :: behind
  | a :: rest => ',' :: (commaed write (a :: rest) ++ close :: behind)

variable {write : α → List Char} {close : Char}

/-- A list begins with its first element, and the others follow behind commas. -/
theorem commaed_cons (a : α) (as : List α) (behind : List Char) :
    commaed write (a :: as) ++ close :: behind =
      write a ++ continued write close behind as := by
  cases as <;> simp [commaed, continued]

/-- Behind an element no digit follows. -/
theorem ends_continued (hclose : close.isDigit = false) (behind : List Char) (as : List α) :
    Ends (continued write close behind as) := by
  cases as with
  | nil => exact ends_cons hclose _
  | cons => exact ends_cons (by decide) _

/-- Parts that can be told one by one can be told together, if no part begins with the mark that
stands behind the last one. -/
theorem eq_of_commaed (hcomma : close ≠ ',') (hclose : close.isDigit = false)
    (hopen : ∀ a cs ds, write a ++ cs ≠ close :: ds) {as bs : List α} {r s : List Char}
    (htold : ∀ a ∈ as, Told write a)
    (h : commaed write as ++ close :: r = commaed write bs ++ close :: s) : as = bs ∧ r = s := by
  -- item by item: behind one there is a comma or the closing bracket, which ends it
  induction as generalizing bs with
  | nil =>
    cases bs with
    | nil => exact ⟨rfl, (List.cons.inj h).2⟩
    | cons b bs =>
      rw [commaed_cons] at h
      exact absurd h.symm (hopen b _ _)
  | cons a as ih =>
    obtain ⟨ha, has⟩ := List.forall_mem_cons.1 htold
    cases bs with
    | nil =>
      rw [commaed_cons] at h
      exact absurd h (hopen a _ _)
    | cons b bs =>
      rw [commaed_cons, commaed_cons] at h
      obtain ⟨rfl, hrest⟩ :=
        ha b _ _ (ends_continued hclose r as) (ends_continued hclose s bs) h
      cases as with
      | nil =>
        cases bs with
        | nil => exact ⟨rfl, (List.cons.inj hrest).2⟩
        | cons => exact absurd (List.cons.inj hrest).1 hcomma
      | cons =>
        cases bs with
        | nil => exact absurd (List.cons.inj hrest).1.symm hcomma
        | cons =>
          obtain ⟨heq, hbehind⟩ := ih has (List.cons.inj hrest).2
          exact ⟨by rw [heq], hbehind⟩

end parts

/-! ## kinds of values -/

inductive Kind where
  | null
  | bool (b : Bool)
  | integer
  | string
  | array
  | object

def kind : Json → Kind
  | null => .null
  | bool b => .bool b
  | integer _ => .integer
  | string _ => .string
  | array _ => .array
  | object _ => .object

/-- The kind of value whose text begins with the character. -/
def kindFrom (c : Char) : Option Kind :=
  match c with
  | 'n' => some .null
  | 't' => some (.bool true)
  | 'f' => some (.bool false)
  | '"' => some .string
  | '[' => some .array
  | '\x7b' => some .object
  | c => if c = '-' ∨ c.isDigit then some .integer else none

/-- A digit begins a number. -/
theorem kindFrom_of_isDigit {c : Char} (h : c.isDigit) : kindFrom c = some .integer := by
  unfold kindFrom
  split
  case h_7 => exact if_pos (.inr h)
  all_goals exact absurd h (by decide)

/-- The first character tells what kind of value follows. -/
theorem exists_lead (j : Json) : ∃ c cs, j.print = c :: cs ∧ kindFrom c = some j.kind := by
  cases j with
  | null => exact ⟨_, _, by rw [print], rfl⟩
  | bool b => cases b <;> exact ⟨_, _, by rw [print], rfl⟩
  | integer n =>
    rw [print, printInt]
    split
    · exact ⟨_, _, rfl, rfl⟩
    · obtain ⟨c, cs, hcs, hc⟩ := exists_toDigits n.natAbs
      exact ⟨c, cs, hcs, kindFrom_of_isDigit hc⟩
  | string s => exact ⟨_, _, by rw [print, printString, List.cons_append], rfl⟩
  | array items => exact ⟨_, _, by rw [print, List.cons_append], rfl⟩
  | object members => exact ⟨_, _, by rw [print, List.cons_append], rfl⟩

/-- Texts that go on alike are texts of values of one kind. -/
theorem kind_eq {j k : Json} {r s : List Char} (h : j.print ++ r = k.print ++ s) :
    j.kind = k.kind := by
  obtain ⟨c, cs, hj, hc⟩ := j.exists_lead
  obtain ⟨d, ds, hk, hd⟩ := k.exists_lead
  rw [hj, hk] at h
  obtain ⟨rfl, -⟩ := List.cons.inj h
  exact Option.some.inj (hc.symm.trans hd)

/-! ## values -/

def printMember (m : String × Json) : List Char := printString m.1 ++ ':' :: m.2.print

/-- Items are written with commas between them. -/
theorem printItems_eq (items : List Json) : printItems items = commaed print items := by
  induction items with
  | nil => rfl
  | cons a items ih => cases items <;> simp_all [printItems, commaed]

/-- So are members. -/
theorem printMembers_eq (members : List (String × Json)) :
    printMembers members = commaed printMember members := by
  induction members with
  | nil => rfl
  | cons m members ih => cases members <;> simp_all [printMembers, commaed, printMember]

/-- No value begins with a closing bracket. -/
theorem print_ne_bracket (j : Json) (cs ds : List Char) : j.print ++ cs ≠ ']' :: ds := by
  obtain ⟨c, rest, hj, hc⟩ := j.exists_lead
  intro h
  rw [hj] at h
  obtain ⟨rfl, -⟩ := List.cons.inj h
  cases hc

/-- No member begins with a closing brace. -/
theorem printMember_ne_brace (m : String × Json) (cs ds : List Char) :
    printMember m ++ cs ≠ '\x7d' :: ds := by
  intro h
  exact absurd (List.cons.inj h).1 (by decide)

/-- A member is told from any other by its name and its value. -/
theorem told_printMember {m : String × Json} (h : Told print m.2) : Told printMember m := by
  rintro ⟨name, j⟩ r s hr hs hmember
  simp only [printMember, List.append_assoc, List.cons_append] at hmember
  obtain ⟨hname, hvalue⟩ := told_printString m.1 name _ _ (ends_cons (by decide) _)
    (ends_cons (by decide) _) hmember
  obtain ⟨hj, hrest⟩ := h j r s hr hs (List.cons.inj hvalue).2
  exact ⟨Prod.ext hname hj, hrest⟩

/-- A value can be told from the others if it can be told from those of its kind. -/
theorem told_of_kind {j : Json} (h : ∀ k r s, j.kind = k.kind → Ends r → Ends s →
    j.print ++ r = k.print ++ s → j = k ∧ r = s) : Told print j :=
  fun k r s hr hs htext => h k r s (kind_eq htext) hr hs htext

mutual

/-- A value is told from any other. -/
theorem told_print : (j : Json) → Told print j
  -- by the kind, which the first character tells
  | null => told_of_kind fun k r s hkind _ _ h => by
    cases k with
    | null => exact ⟨rfl, List.append_cancel_left h⟩
    | _ => cases hkind
  | bool b => told_of_kind fun k r s hkind _ _ h => by
    cases k with
    | bool =>
      cases hkind
      exact ⟨rfl, List.append_cancel_left h⟩
    | _ => cases hkind
  | integer n => told_of_kind fun k r s hkind hr hs h => by
    cases k with
    | integer m =>
      rw [print, print] at h
      obtain ⟨rfl, hrest⟩ := told_printInt n m r s hr hs h
      exact ⟨rfl, hrest⟩
    | _ => cases hkind
  | string x => told_of_kind fun k r s hkind hr hs h => by
    cases k with
    | string y =>
      rw [print, print] at h
      obtain ⟨rfl, hrest⟩ := told_printString x y r s hr hs h
      exact ⟨rfl, hrest⟩
    | _ => cases hkind
  | array items => told_of_kind fun k r s hkind _ _ h => by
    cases k with
    | array others =>
      simp only [print, printItems_eq, List.cons_append, List.append_assoc, List.nil_append] at h
      obtain ⟨rfl, hrest⟩ := eq_of_commaed (by decide) (by decide) print_ne_bracket
        (told_items items) (List.cons.inj h).2
      exact ⟨rfl, hrest⟩
    | _ => cases hkind
  | object members => told_of_kind fun k r s hkind _ _ h => by
    cases k with
    | object others =>
      simp only [print, printMembers_eq, List.cons_append, List.append_assoc,
        List.nil_append] at h
      obtain ⟨rfl, hrest⟩ := eq_of_commaed (by decide) (by decide) printMember_ne_brace
        (told_members members) (List.cons.inj h).2
      exact ⟨rfl, hrest⟩
    | _ => cases hkind

theorem told_items : (items : List Json) → ∀ j ∈ items, Told print j
  | [] => List.forall_mem_nil _
  | j :: items => List.forall_mem_cons.2 ⟨told_print j, told_items items⟩

theorem told_members : (members : List (String × Json)) → ∀ m ∈ members, Told printMember m
  | [] => List.forall_mem_nil _
  | (_, j) :: members =>
    List.forall_mem_cons.2 ⟨told_printMember (told_print j), told_members members⟩

end

/-- Values with the same compact text are the same. -/
theorem text_inj {j k : Json} : j.text = k.text ↔ j = k := by
  constructor
  · intro h
    have hprint : j.print ++ [] = k.print ++ [] := by
      rw [List.append_nil, List.append_nil]
      exact String.ofList_injective h
    exact (told_print j k [] [] ends_nil ends_nil hprint).1
  · exact fun h => h ▸ rfl

end AssociationQuery.Json
