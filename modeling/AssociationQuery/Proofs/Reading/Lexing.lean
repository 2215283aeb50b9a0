import AssociationQuery.Proofs.Reading.Scanning
import AssociationQuery.Proofs.Reading.Syntax
import Mathlib.Algebra.GroupWithZero.Nat

/-!
# AssociationQuery.Proofs.Reading.Lexing

The words and marks of an expression, found again in its text.

Tokens are written one behind the other, some with blanks around them and some without.  Where
each token ends before the next one goes on with it, and no minus sign stands right behind
another, a scanner finds the lexemes of the tokens one by one, `scan_text`; two minus signs in a
row make a comment of what follows, `comment_mem_scan_text`.
-/

namespace AssociationQuery

/-! ## what is to be found -/

namespace Lexeme

/-- The number of placeholders that the lexeme is. -/
def width : Lexeme → Nat
  | placeholder _ => 1
  | _ => 0

/-- What a scanner finds of the lexeme, where `n` placeholders stand before it. -/
def items (d : Dialect) (n : Nat) : Lexeme → List ScanItem
  | ident name => [.name name.toList]
  | function name => if name.toList = [] then [] else [.word name.toList]
  | placeholder _ => [.placeholder (d.placeholder (n + 1)).toList]
  | number m => [.word (Nat.toDigits 10 m)]
  | op .and => [.word "AND".toList]
  | op .or => [.word "OR".toList]
  | op o => [.operator o.symbol.toList]
  | not => [.word "NOT".toList]
  | is => [.word "IS".toList]
  | null => [.word "NULL".toList]
  | among => [.word "IN".toList]
  | like => [.word "LIKE".toList]
  | distinct => [.word "DISTINCT".toList]
  | opening => [.mark '(']
  | closing => [.mark ')']
  | comma => [.mark ',']
  | dot => [.mark '.']
  | other => []

/-- What a scanner finds of the lexemes, where `n` placeholders stand before them. -/
def spelled (d : Dialect) : Nat → List Lexeme → List ScanItem
  | _, [] => []
  | n, l :: ls => l.items d n ++ spelled d (n + l.width) ls

/-- What is spelled for further lexemes goes on with the number of placeholders. -/
theorem spelled_append (d : Dialect) (n : Nat) (ls ls' : List Lexeme) :
    spelled d n (ls ++ ls') = spelled d n ls ++ spelled d (n + (ls.map width).sum) ls' := by
  induction ls generalizing n with
  | nil => rfl
  | cons l ls ih =>
    simp only [List.cons_append, spelled, ih, List.map_cons, List.sum_cons, List.append_assoc,
      Nat.add_assoc]

/-- No lexeme is spelled as a comment. -/
theorem comment_notMem_spelled (d : Dialect) (n : Nat) (ls : List Lexeme) :
    .comment ∉ spelled d n ls := by
  induction ls generalizing n with
  | nil => nofun
  | cons l ls ih =>
    refine List.not_mem_append ?_ (ih _)
    unfold items
    split
    all_goals first | split_ifs | skip
    all_goals simp

end Lexeme

/-! ## tokens and their neighbours -/

/-- Is the character an end for whatever stands before it? -/
def standsAlone (c : Char) : Bool := [' ', '(', ')', ',', '.'].contains c

namespace ScanMode

/-- Does every character belong to the current item? -/
def isOpen : ScanMode → Bool
  | name _ | line | block _ => true
  | _ => false

/-- Nothing goes on with a character that stands alone, unless it is in quotes or in a comment. -/
theorem continues_of_standsAlone {d : Dialect} {m : ScanMode} {c : Char} (h : m.isOpen = false)
    (hc : standsAlone c) : m.continues d c = false := by
  have hall : [' ', '(', ')', ',', '.'].all fun c => c ≠ d.mark ∧ Identifier.isPlain c = false ∧
      c.isDigit = false ∧ isOperatorSign c = false := by cases d <;> decide
  obtain ⟨hmark, hplain, hdigit, hsign⟩ :=
    of_decide_eq_true (List.all_eq_true.1 hall c (List.contains_iff_mem.1 hc))
  cases m with
  | between => rfl
  | closed => exact decide_eq_false hmark
  | word => exact hplain
  | placeholder => exact hdigit
  | operator => exact hsign
  | name | line | block => cases h

end ScanMode

namespace Token

/-- Do the words and marks of expressions make up the text of the token? -/
def isClear : Token → Bool
  | word w => !w.lexemes.contains .other
  | call f => f.toList.all Identifier.isPlain
  | raw _ | mention => false
  | _ => true

/-- Has the token come to its end, whatever follows it?  For the minus sign this is so unless one
more follows. -/
def isSettled : Token → Bool
  | word w => w = .minus || w.spelling.toList.getLast?.all standsAlone
  | op _ | call _ => true
  | _ => false

/-- Does the token begin with a blank or with a mark that stands alone? -/
def isDetached : Token → Bool
  | word w => w.spelling.toList.head?.all standsAlone
  | op _ => true
  | _ => false

/-- A blank or a mark parts the tokens. -/
def Parted (t u : Token) : Prop := t.isSettled ∨ u.isDetached

/-- The two tokens are not both minus signs. -/
def Unstacked (t u : Token) : Prop := ¬(t = word .minus ∧ u = word .minus)

variable {d : Dialect} {t u : Token}

/-- A token has a placeholder for each of its parameters. -/
theorem sum_width_lexemes (t : Token) : (t.lexemes.map Lexeme.width).sum = (params [t]).length := by
  cases t with
  | word w => cases w <;> rfl
  | _ => rfl

/-- Digits need no quotes. -/
theorem isPlain_of_mem_toDigits {m : Nat} {c : Char} (h : c ∈ Nat.toDigits 10 m) :
    Identifier.isPlain c :=
  Identifier.isPlain_of_isDigit (Nat.isDigit_of_mem_toDigits (by decide) (by decide) h)

/-- A quoted identifier is closed at its end. -/
theorem run_ident (name : String) (n : Nat) :
    ScanMode.between.run d ((ident name).chars d n) = ([], .closed name.toList) :=
  ScanMode.run_enclose name.toList

/-- A parameter leaves the scanner in its placeholder. -/
theorem run_param (v : Value) (n : Nat) : ScanMode.between.run d ((param v).chars d n) =
    ([], .placeholder (d.placeholder (n + 1)).toList) := by
  obtain ⟨ds, hds, hdigits⟩ := exists_placeholder d (n + 1)
  have hstart : ScanMode.between.step d d.sign = ([], .placeholder [d.sign]) := by cases d <;> rfl
  rw [chars, hds, ScanMode.run, hstart, ScanMode.run_placeholder hdigits]
  rfl

/-- A number leaves the scanner in its last digit. -/
theorem run_number (m n : Nat) : ScanMode.between.run d ((number m).chars d n) =
    ([], .word (Nat.toDigits 10 m)) :=
  ScanMode.run_plain (fun _ hc => isPlain_of_mem_toDigits hc) Nat.toDigits_ne_nil

/-- A call is the name of its function and a bracket. -/
theorem run_call {f : String} (h : (call f).isClear) (n : Nat) :
    ScanMode.between.run d ((call f).chars d n) =
      ((if f.toList = [] then [] else [.word f.toList]) ++ [.mark '('], .between) := by
  have hbetween : ScanMode.between.step d '(' = ([.mark '('], .between) := by cases d <;> rfl
  have hword (ws : List Char) :
      (ScanMode.word ws).step d '(' = ([.word ws, .mark '('], .between) := by
    cases d <;> rfl
  rw [chars]
  split_ifs with hf
  · rw [hf, List.nil_append, ScanMode.run, hbetween]
    rfl
  · rw [ScanMode.run_append, ScanMode.run_plain (List.all_eq_true.1 h) hf, ScanMode.run, hword]
    rfl

/-- On its own the text of a token is scanned as its lexemes. -/
theorem scan_chars (h : t.isClear) (n : Nat) :
    scan d (t.chars d n) = Lexeme.spelled d n t.lexemes := by
  cases t with
  | word w => cases d <;> cases w <;> first | rfl | cases h
  | op o => cases d <;> cases o <;> rfl
  | ident name =>
    rw [scan, ScanMode.scan, run_ident]
    rfl
  | param v =>
    rw [scan, ScanMode.scan, run_param]
    rfl
  | number m =>
    rw [scan, ScanMode.scan, run_number]
    rfl
  | call f =>
    rw [scan, ScanMode.scan, run_call h, ScanMode.finish, List.append_nil]
    rfl
  | raw | mention => cases h

/-- Where the scanner is behind the text of a token. -/
def rest (d : Dialect) (n : Nat) (t : Token) : ScanMode := (ScanMode.between.run d (t.chars d n)).2

/-- Behind a settled token nothing can go on. -/
theorem rest_of_isSettled (h : t.isClear) (hs : t.isSettled) (hm : t ≠ word .minus) (n : Nat) :
    t.rest d n = .between := by
  cases t with
  | word w => cases d <;> cases w <;> first
    | rfl | exact absurd h (by decide) | exact absurd hs (by decide) | exact absurd rfl hm
  | op o => cases d <;> cases o <;> rfl
  | call f => rw [rest, run_call h]
  | ident | param | number | raw | mention => cases hs

/-- Behind a minus sign there might be another. -/
theorem rest_minus (n : Nat) : (word .minus).rest d n = .operator ['-'] := by cases d <;> rfl

/-- Behind a token the scanner is neither in quotes nor in a comment. -/
theorem isOpen_rest (h : t.isClear) (n : Nat) : (t.rest d n).isOpen = false := by
  cases t with
  | word w => cases d <;> cases w <;> first | exact absurd h (by decide) | rfl
  | op o => rw [rest_of_isSettled h rfl nofun]; rfl
  | ident name => rw [rest, run_ident]; rfl
  | param v => rw [rest, run_param]; rfl
  | number m => rw [rest, run_number]; rfl
  | call f => rw [rest, run_call h]; rfl
  | raw | mention => cases h

/-- What holds of the first character of a spelling holds where more follows. -/
theorem forall_head_spelling {w : Keyword} {p : Char → Bool} (h : w.spelling.toList.head?.all p)
    (cs : List Char) : ∀ c ∈ (w.spelling.toList ++ cs).head?, p c := by
  intro c hc
  have hne : w.spelling.toList ≠ [] := by cases w <;> decide
  rw [List.head?_append_of_ne_nil _ hne] at hc
  rwa [show w.spelling.toList.head? = some c from hc, Option.all_some] at h

/-- A detached token begins with a character that stands alone. -/
theorem standsAlone_head (h : u.isDetached) (n : Nat) (cs : List Char) :
    ∀ c ∈ (u.chars d n ++ cs).head?, standsAlone c := by
  cases u with
  | word w => exact forall_head_spelling h cs
  | op o =>
    intro c hc
    obtain rfl := Option.some.inj hc
    rfl
  | _ => cases h

/-- No token but the minus sign begins with the sign of an operator. -/
theorem isOperatorSign_head (h : u.isClear) (hm : u ≠ word .minus) (n : Nat) (cs : List Char) :
    ∀ c ∈ (u.chars d n ++ cs).head?, isOperatorSign c = false := by
  intro c hc
  have hmem {as bs : List Char} (hne : as ≠ []) (hc : c ∈ (as ++ bs).head?) : c ∈ as :=
    List.mem_of_mem_head? (List.head?_append_of_ne_nil as hne ▸ hc)
  -- by the token: an operator has a blank before it, and of the other tokens only the minus begins
  -- with a sign
  cases u with
  | word w =>
    have hall : w.spelling.toList.head?.all (!isOperatorSign ·) := by
      cases w <;> first | exact absurd h (by decide) | exact absurd rfl hm | rfl
    simpa using forall_head_spelling hall cs c hc
  | op o =>
    obtain rfl := Option.some.inj hc
    rfl
  | ident name =>
    obtain rfl : d.mark = c := Option.some.inj hc
    cases d <;> rfl
  | param v =>
    obtain ⟨ds, hds, -⟩ := exists_placeholder d (n + 1)
    obtain rfl : d.sign = c := by simpa [chars, hds] using hc
    cases d <;> rfl
  | number m =>
    have hplain := isPlain_of_mem_toDigits (hmem Nat.toDigits_ne_nil hc)
    exact ScanMode.isOperatorSign_of_isPlain hplain
  | call f =>
    obtain hname | hopening := List.mem_append.1 (hmem (by simp) hc)
    · exact ScanMode.isOperatorSign_of_isPlain (List.all_eq_true.1 h c hname)
    · obtain rfl := List.mem_singleton.1 hopening
      rfl
  | raw | mention => cases h

/-- A token that is parted from the next one, and not stacked on it, does not go on there. -/
theorem stops (ht : t.isClear) (hu : u.isClear) (hparted : Parted t u) (hstack : Unstacked t u)
    (m n : Nat) (cs : List Char) :
    ∀ c ∈ (u.chars d m ++ cs).head?, (t.rest d n).continues d c = false := by
  intro c hc
  obtain hsettled | hdetached := hparted
  · by_cases hminus : t = word .minus
    · have hu' : u ≠ word .minus := fun heq => hstack ⟨hminus, heq⟩
      rw [hminus, rest_minus]
      exact isOperatorSign_head hu hu' m cs c hc
    · rw [rest_of_isSettled ht hsettled hminus]
      rfl
  · exact ScanMode.continues_of_standsAlone (isOpen_rest ht n)
      (standsAlone_head hdetached m cs c hc)

/-! ## quotes -/

/-- Is the character neither a quotation mark nor the end of a statement? -/
def isHarmless (c : Char) : Bool := c ∉ [';', '\'', '"', '\x60']

/-- Harmless characters are no quotes. -/
theorem ne_mark_of_isHarmless {c : Char} (h : isHarmless c) : c ≠ d.mark := by
  rintro rfl
  cases d <;> cases h

/-- Plain characters are harmless. -/
theorem isHarmless_of_isPlain {c : Char} (h : Identifier.isPlain c) : isHarmless c := by
  have hall : [';', '\'', '"', '\x60'].all fun c => ¬Identifier.isPlain c := by decide
  exact decide_eq_true fun hmem => of_decide_eq_true (List.all_eq_true.1 hall c hmem) h

/-- Harmless characters are shown as they are. -/
theorem unquoted_harmless {ws : List Char} (h : ∀ c ∈ ws, isHarmless c) (cs : List Char) :
    unquoted d false (ws ++ cs) = ws.map some ++ unquoted d false cs := by
  induction ws with
  | nil => rfl
  | cons c ws ih =>
    obtain ⟨hc, hws⟩ := List.forall_mem_cons.1 h
    have hmark : c ≠ d.mark := ne_mark_of_isHarmless hc
    simp [unquoted, hmark, ih hws]

/-- A quoted identifier shows nothing outside of its quotes. -/
theorem mem_unquoted_enclose {c : Char} (ws cs : List Char) :
    some c ∈ unquoted d false (Identifier.enclose d.mark ws ++ cs) ↔
      some c ∈ unquoted d false cs := by
  have hinside : some c ∈ unquoted d true
      (ws.flatMap (fun c => if c = d.mark then [d.mark, d.mark] else [c]) ++ d.mark :: cs) ↔
      some c ∈ unquoted d false cs := by
    induction ws with
    | nil => simp [unquoted]
    | cons x ws ih =>
      by_cases hx : x = d.mark
      · simp [hx, unquoted, ih]
      · simp [hx, unquoted, ih]
  simp [Identifier.enclose, unquoted, hinside]

/-- Outside of quotes the text of a token has nothing but harmless characters. -/
theorem isHarmless_of_mem_chars (h : t.isClear) (n : Nat) (cs : List Char) {c : Char}
    (hc : some c ∈ unquoted d false (t.chars d n ++ cs)) :
    isHarmless c ∨ some c ∈ unquoted d false cs := by
  have hshown (hall : ∀ c ∈ t.chars d n, isHarmless c) :
      isHarmless c ∨ some c ∈ unquoted d false cs := by
    rw [unquoted_harmless hall, List.mem_append, List.mem_map] at hc
    exact hc.imp_left fun ⟨x, hx, hxc⟩ => Option.some.inj hxc ▸ hall x hx
  -- by the token: a quoted name shows nothing, and what the others show is harmless
  cases t with
  | word w =>
    have hspelling : w.spelling.toList.all isHarmless := by cases w <;> rfl
    exact hshown (List.all_eq_true.1 hspelling)
  | op o =>
    have hsymbol : (' ' :: o.symbol.toList ++ [' ']).all isHarmless := by cases o <;> rfl
    exact hshown (List.all_eq_true.1 hsymbol)
  | ident name =>
    exact .inr ((mem_unquoted_enclose _ cs).1 hc)
  | param v =>
    obtain ⟨ds, hds, hdigits⟩ := exists_placeholder d (n + 1)
    have hsign : isHarmless d.sign := by cases d <;> rfl
    refine hshown ?_
    rw [chars, hds]
    refine List.forall_mem_cons.2 ⟨hsign, fun x hx => isHarmless_of_isPlain ?_⟩
    exact Identifier.isPlain_of_isDigit (hdigits x hx)
  | number m => exact hshown fun x hx => isHarmless_of_isPlain (isPlain_of_mem_toDigits hx)
  | call f =>
    refine hshown (List.forall_mem_append.2 ⟨fun x hx => ?_, List.forall_mem_singleton.2 rfl⟩)
    exact isHarmless_of_isPlain (List.all_eq_true.1 h x hx)
  | raw | mention => cases h

end Token

/-! ## the text of tokens -/

section

variable {d : Dialect} {t u : Token} {ts : List Token}

open Token (text Parted Unstacked)

/-- The placeholders of a token come before those of the tokens behind it. -/
theorem spelled_lexemes_cons (n : Nat) : Lexeme.spelled d n (lexemes (t :: ts)) =
    Lexeme.spelled d n t.lexemes ++
      Lexeme.spelled d (n + (Token.params [t]).length) (lexemes ts) := by
  rw [lexemes_cons, Lexeme.spelled_append, Token.sum_width_lexemes]

/-- A token is scanned by itself if the next one is parted from it and not stacked on it. -/
theorem scan_text_cons_cons (ht : t.isClear) (hu : u.isClear) (hparted : Parted t u)
    (hstack : Unstacked t u) (n : Nat) :
    scan d (text d n (t :: u :: ts)) = Lexeme.spelled d n t.lexemes ++
      scan d (text d (n + (Token.params [t]).length) (u :: ts)) := by
  rw [text, scan, ScanMode.scan_append_of_stops, ← scan, Token.scan_chars ht, ← scan]
  exact Token.stops ht hu hparted hstack _ n _

/-- The text of tokens shows nothing but harmless characters outside of quotes. -/
theorem isHarmless_of_mem_text (hclear : ∀ t ∈ ts, t.isClear) (n : Nat) {c : Char}
    (hc : some c ∈ unquoted d false (text d n ts)) : Token.isHarmless c := by
  induction ts generalizing n with
  | nil => cases hc
  | cons t ts ih =>
    obtain ⟨ht, hts⟩ := List.forall_mem_cons.1 hclear
    obtain hhere | hrest := Token.isHarmless_of_mem_chars ht n _ hc
    · exact hhere
    · exact ih hts _ hrest

/-- The text of tokens that stay apart is scanned as their lexemes. -/
theorem scan_text (hclear : ∀ t ∈ ts, t.isClear) (hparted : ts.IsChain Parted)
    (hstack : ts.IsChain Unstacked) (n : Nat) :
    scan d (text d n ts) = Lexeme.spelled d n (lexemes ts) := by
  induction ts generalizing n with
  | nil => rfl
  | cons t ts ih =>
    obtain ⟨ht, hts⟩ := List.forall_mem_cons.1 hclear
    cases ts with
    | nil => simpa [text] using Token.scan_chars ht n
    | cons u ts =>
      rw [scan_text_cons_cons ht (hts u List.mem_cons_self) hparted.rel hstack.rel,
        ih hts hparted.tail hstack.tail, ← spelled_lexemes_cons]

/-- A minus sign right behind another opens a comment. -/
theorem comment_mem_scan_text (hclear : ∀ t ∈ ts, t.isClear) (hparted : ts.IsChain Parted)
    (hstack : ¬ts.IsChain Unstacked) (n : Nat) : .comment ∈ scan d (text d n ts) := by
  -- over the tokens: the first two minus signs in a row open the comment
  induction ts generalizing n with
  | nil => exact absurd .nil hstack
  | cons t ts ih =>
    obtain ⟨ht, hts⟩ := List.forall_mem_cons.1 hclear
    cases ts with
    | nil => exact absurd (.singleton t) hstack
    | cons u ts =>
      by_cases htu : t = .word .minus ∧ u = .word .minus
      · obtain ⟨rfl, rfl⟩ := htu
        have hmark : '-' ≠ d.mark := ScanMode.ne_mark_of_isOperatorSign rfl
        have hopens (cs : List Char) : .comment ∈ scan d ('-' :: '-' :: cs) := by
          rw [← not_not (a := _ ∈ _), ← isChain_noOpening_iff]
          simp [unquoted, hmark, NoOpening, opensComment]
        exact hopens _
      · have hrest : ¬(u :: ts).IsChain Unstacked :=
          fun hchain => hstack (List.isChain_cons_cons.2 ⟨htu, hchain⟩)
        rw [scan_text_cons_cons ht (hts u List.mem_cons_self) hparted.rel htu]
        exact List.mem_append_right _ (ih hts hparted.tail hrest _)

end

end AssociationQuery
