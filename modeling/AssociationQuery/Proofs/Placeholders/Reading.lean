import AssociationQuery.Sql.Token
import Mathlib.Data.List.Chain

/-!
# AssociationQuery.Proofs.Placeholders.Reading

The placeholders in SQL text.

A reader goes through the text from left to right.  All it knows is where quoted identifiers
begin and end, and that outside of them a placeholder is a sign with a number behind it.
Whatever tokens the text is made from, the reader finds a placeholder for each value and no
other, as long as nothing that begins with a digit follows a placeholder: `read_text`.
-/

namespace AssociationQuery

/-! ## the reader -/

/-- The sign that placeholders begin with. -/
def Dialect.sign : Dialect → Char
  | postgres => '$'
  | sqlite | mysql => '?'

/-- A character of a text, or a placeholder in it. -/
inductive Piece (α : Type) where
  | char (c : Char)
  | placeholder (a : α)
  deriving DecidableEq

namespace Piece

def map (f : α → β) : Piece α → Piece β
  | char c => char c
  | placeholder a => placeholder (f a)

def placeholder? : Piece α → Option α
  | char _ => none
  | placeholder a => some a

end Piece

/-- Where a reader is. -/
inductive ReadMode where
  | plain
  /-- In a quoted identifier. -/
  | quoted
  /-- Behind the sign of a placeholder, with the number so far. -/
  | number (n : Nat)

/-- The pieces of a text.  A sign without digits behind it counts as placeholder zero. -/
def readPieces (d : Dialect) : ReadMode → List Char → List (Piece Nat)
  | .number n, [] => [.placeholder n]
  | _, [] => []
  | .quoted, c :: cs => .char c :: readPieces d (if c = d.mark then .plain else .quoted) cs
  | .plain, c :: cs =>
    if c = d.sign then readPieces d (.number 0) cs
    else .char c :: readPieces d (if c = d.mark then .quoted else .plain) cs
  | .number n, c :: cs =>
    if c.isDigit then readPieces d (.number (10 * n + (c.toNat - '0'.toNat))) cs
    else .placeholder n ::
      if c = d.sign then readPieces d (.number 0) cs
      else .char c :: readPieces d (if c = d.mark then .quoted else .plain) cs

/-- The numbers of the placeholders in a text. -/
def placeholders (d : Dialect) (sql : String) : List Nat :=
  (readPieces d .plain sql.toList).filterMap Piece.placeholder?

section readPieces

variable {d : Dialect} {cs : List Char}

/-- Does a number end before the text? -/
def endsNumber (cs : List Char) : Bool := cs.head?.all fun c => !c.isDigit

/-- A number ends where no digit follows. -/
theorem readPieces_number (n : Nat) (h : endsNumber cs) :
    readPieces d (.number n) cs = .placeholder n :: readPieces d .plain cs := by
  cases cs with
  | nil => rfl
  | cons c cs =>
    have hc : c.isDigit = false := by simpa [endsNumber] using h
    simp [readPieces, hc]

/-- Digits go on with the number before them. -/
theorem readPieces_digits {ds : List Char} (h : ∀ c ∈ ds, c.isDigit) (n : Nat) (cs : List Char) :
    readPieces d (.number n) (ds ++ cs) = readPieces d (.number (Nat.ofDigitChars 10 ds n)) cs := by
  induction ds generalizing n with
  | nil => rfl
  | cons c ds ih =>
    obtain ⟨hc, hds⟩ := List.forall_mem_cons.1 h
    rw [List.cons_append, readPieces, if_pos hc, ih hds, Nat.ofDigitChars_cons]

/-- A numbered placeholder is the sign of the dialect with the number behind. -/
theorem toList_placeholder (hd : d ≠ .mysql) (n : Nat) :
    (d.placeholder n).toList = d.sign :: Nat.toDigits 10 n := by
  cases d with
  | postgres => simp [Dialect.placeholder, Dialect.sign]
  | sqlite => simp [Dialect.placeholder, Dialect.sign]
  | mysql => exact absurd rfl hd

/-- A placeholder is its sign with digits, or with nothing, behind it. -/
theorem exists_placeholder (d : Dialect) (n : Nat) :
    ∃ ds, (d.placeholder n).toList = d.sign :: ds ∧ ∀ c ∈ ds, c.isDigit := by
  by_cases hd : d = .mysql
  · subst hd
    exact ⟨[], by simp [Dialect.placeholder, Dialect.sign], List.forall_mem_nil _⟩
  · exact ⟨_, toList_placeholder hd n,
      fun c hc => Nat.isDigit_of_mem_toDigits (by decide) (by decide) hc⟩

/-- A placeholder is read with its number, unless more digits follow. -/
theorem readPieces_placeholder (hd : d ≠ .mysql) (n : Nat) (h : endsNumber cs) :
    readPieces d .plain ((d.placeholder n).toList ++ cs) =
      .placeholder n :: readPieces d .plain cs := by
  have hdigits : ∀ c ∈ Nat.toDigits 10 n, c.isDigit :=
    fun c hc => Nat.isDigit_of_mem_toDigits (by decide) (by decide) hc
  rw [toList_placeholder hd, List.cons_append, readPieces, if_pos rfl, readPieces_digits hdigits,
    Nat.ofDigitChars_toDigits (by decide) (by decide), readPieces_number n h]

/-- Is the character neither the sign of a placeholder nor a quotation mark? -/
def Dialect.isNeutral (d : Dialect) (c : Char) : Bool := c ≠ d.sign ∧ c ≠ d.mark

/-- Neutral text is read character by character. -/
theorem readPieces_neutral {ws : List Char} (h : ∀ c ∈ ws, d.isNeutral c) (cs : List Char) :
    readPieces d .plain (ws ++ cs) = ws.map .char ++ readPieces d .plain cs := by
  induction ws with
  | nil => rfl
  | cons c ws ih =>
    obtain ⟨hc, hws⟩ := List.forall_mem_cons.1 h
    obtain ⟨hsign, hmark⟩ := of_decide_eq_true hc
    rw [List.cons_append, readPieces, if_neg hsign, if_neg hmark, ih hws]
    rfl

/-- No dialect quotes with the sign of its placeholders. -/
theorem Dialect.mark_ne_sign (d : Dialect) : d.mark ≠ d.sign := by
  cases d <;> decide

/-- A quoted identifier has no placeholder in it. -/
theorem readPieces_enclose (ws cs : List Char) :
    readPieces d .plain (Identifier.enclose d.mark ws ++ cs) =
      (Identifier.enclose d.mark ws).map .char ++ readPieces d .plain cs := by
  have hinside : readPieces d .quoted
      (ws.flatMap (fun c => if c = d.mark then [d.mark, d.mark] else [c]) ++ d.mark :: cs) =
      (ws.flatMap fun c => if c = d.mark then [d.mark, d.mark] else [c]).map .char ++
        .char d.mark :: readPieces d .plain cs := by
    induction ws with
    | nil => simp [readPieces]
    | cons c ws ih =>
      by_cases hc : c = d.mark
      · simp [hc, readPieces, d.mark_ne_sign, ih]
      · simp [hc, readPieces, ih]
  rw [Identifier.enclose, List.cons_append, List.cons_append, readPieces, if_neg d.mark_ne_sign,
    if_pos rfl, List.append_assoc, List.singleton_append, hinside]
  simp

end readPieces

/-! ## tokens -/

namespace Token

/-- Is the text of the token known to have no placeholder in it but that of its value? -/
def isPlain (d : Dialect) : Token → Bool
  | raw _ | mention => false
  | call f => f.toList.all d.isNeutral
  | _ => true

/-- Does a number end before the text of the token, whatever that is? -/
def breaks : Token → Bool
  | word .one | word .never | word .always | number _ | call _ | raw _ => false
  | _ => true

def isParam : Token → Bool
  | param _ => true
  | _ => false

/-- The number of a placeholder ends before the next token. -/
def Apart (t u : Token) : Prop := t.isParam → u.breaks

/-- The pieces of the text of the tokens, where `n` placeholders stand before them. -/
def pieces (d : Dialect) : Nat → List Token → List (Piece Nat)
  | _, [] => []
  | n, param _ :: ts => .placeholder (n + 1) :: pieces d (n + 1) ts
  | n, t :: ts => (t.chars d n).map .char ++ pieces d n ts

/-- The text of the tokens with values in the places of placeholders. -/
def valued (d : Dialect) : List Token → List (Piece Value)
  | [] => []
  | param v :: ts => .placeholder v :: valued d ts
  | t :: ts => (t.chars d 0).map .char ++ valued d ts

variable {d : Dialect}

/-- Keywords are neutral. -/
theorem isNeutral_spelling (d : Dialect) (w : Keyword) :
    ∀ c ∈ w.spelling.toList, d.isNeutral c := by
  have hall : w.spelling.toList.all d.isNeutral = true := by cases d <;> cases w <;> rfl
  exact List.all_eq_true.1 hall

/-- Operators are neutral. -/
theorem isNeutral_symbol (d : Dialect) (o : BinaryOp) :
    ∀ c ∈ ' ' :: o.symbol.toList ++ [' '], d.isNeutral c := by
  have hall : (' ' :: o.symbol.toList ++ [' ']).all d.isNeutral = true := by
    cases d <;> cases o <;> rfl
  exact List.all_eq_true.1 hall

/-- Neither sign nor mark stands in a name without quotes. -/
theorem isNeutral_of_isPlain {c : Char} (h : Identifier.isPlain c) : d.isNeutral c := by
  have hsign : Identifier.isPlain d.sign = false := by cases d <;> decide
  have hmark : Identifier.isPlain d.mark = false := by cases d <;> decide
  refine decide_eq_true ⟨?_, ?_⟩
  · intro heq
    rw [heq, hsign] at h
    cases h
  · intro heq
    rw [heq, hmark] at h
    cases h

/-- Digits are neutral outside of placeholders. -/
theorem isNeutral_of_isDigit {c : Char} (h : c.isDigit) : d.isNeutral c :=
  isNeutral_of_isPlain (Identifier.isPlain_of_isDigit h)

/-- The text of a token that is no placeholder is read character by character. -/
theorem readPieces_chars {t : Token} (hplain : t.isPlain d) (hparam : t.isParam = false) (n : Nat)
    (cs : List Char) :
    readPieces d .plain (t.chars d n ++ cs) =
      (t.chars d n).map .char ++ readPieces d .plain cs := by
  cases t with
  | word w => exact readPieces_neutral (isNeutral_spelling d w) cs
  | op o => exact readPieces_neutral (isNeutral_symbol d o) cs
  | ident name => exact readPieces_enclose name.toList cs
  | call f =>
    have hname : ∀ c ∈ f.toList, d.isNeutral c := List.all_eq_true.1 hplain
    have hopening : d.isNeutral '(' := by cases d <;> decide
    exact readPieces_neutral
      (List.forall_mem_append.2 ⟨hname, List.forall_mem_singleton.2 hopening⟩) cs
  | number m =>
    exact readPieces_neutral (fun c hc => isNeutral_of_isDigit
      (Nat.isDigit_of_mem_toDigits (by decide) (by decide) hc)) cs
  | raw | mention => cases hplain
  | param => cases hparam

/-- What a token begins with ends a number, if the token breaks it. -/
theorem endsNumber_chars {t : Token} (h : t.breaks) (n : Nat) (cs : List Char) :
    endsNumber (t.chars d n ++ cs) := by
  have hsign : d.sign.isDigit = false := by cases d <;> decide
  have hmark : d.mark.isDigit = false := by cases d <;> decide
  have hplaceholder (m : Nat) : endsNumber ((d.placeholder m).toList ++ cs) := by
    obtain ⟨ds, hds, -⟩ := exists_placeholder d m
    simp [hds, endsNumber, hsign]
  cases t with
  | word w =>
    revert h
    cases w <;> simp [breaks, chars, endsNumber, Keyword.spelling]
  | op o => simp [chars, endsNumber]
  | ident name => simp [chars, endsNumber, Identifier.enclose, hmark]
  | param v => exact hplaceholder _
  | mention => exact hplaceholder _
  | call | raw | number => cases h

/-- Reading the text of tokens gives back their placeholders, numbered from left to right. -/
theorem readPieces_text (hd : d ≠ .mysql) {ts : List Token} (hplain : ∀ t ∈ ts, t.isPlain d)
    (hapart : ts.IsChain Apart) (n : Nat) :
    readPieces d .plain (text d n ts) = pieces d n ts := by
  -- over the tokens: the digits of a placeholder end where the next token begins
  induction ts generalizing n with
  | nil => rfl
  | cons t ts ih =>
    obtain ⟨ht, hts⟩ := List.forall_mem_cons.1 hplain
    have hrest (m : Nat) := ih hts hapart.tail m
    cases hparam : t.isParam with
    | false =>
      rw [text, readPieces_chars ht hparam]
      cases t with
      | param => cases hparam
      | _ => exact congrArg (_ ++ ·) (hrest n)
    | true =>
      cases t with
      | param v =>
        have hends : endsNumber (text d (n + 1) ts) := by
          cases ts with
          | nil => rfl
          | cons u us => exact endsNumber_chars (hapart.rel rfl) _ _
        exact (readPieces_placeholder hd (n + 1) hends).trans
          (congrArg (Piece.placeholder (n + 1) :: ·) (hrest (n + 1)))
      | _ => cases hparam

/-- The placeholders of a text are numbered on without a gap. -/
theorem placeholders_pieces (d : Dialect) (n : Nat) (ts : List Token) :
    (pieces d n ts).filterMap Piece.placeholder? = List.range' (n + 1) (params ts).length := by
  induction ts generalizing n with
  | nil => rfl
  | cons t ts ih =>
    cases t with
    | param v =>
      rw [pieces, params_cons, List.filterMap_cons]
      simp [Piece.placeholder?, ih, params, List.range'_succ]
    | _ => simp [pieces, Piece.placeholder?, ih, params, Function.comp_def]

/-- Only parameters are spelled by their number. -/
theorem chars_of_isPlain {t : Token} (hplain : t.isPlain d) (hparam : t.isParam = false)
    (m n : Nat) : t.chars d m = t.chars d n := by
  cases t with
  | raw | mention => cases hplain
  | param => cases hparam
  | _ => rfl

/-- The value of a placeholder is the one with its number. -/
theorem map_pieces {ts : List Token} (hplain : ∀ t ∈ ts, t.isPlain d) (before : List Value) :
    (pieces d before.length ts).map (Piece.map fun i => (before ++ params ts)[i - 1]?) =
      (valued d ts).map (Piece.map some) := by
  -- over the tokens, with the values before them: the next number is that of the next value
  induction ts generalizing before with
  | nil => rfl
  | cons t ts ih =>
    obtain ⟨ht, hts⟩ := List.forall_mem_cons.1 hplain
    have hchars (f : Nat → Option Value) (g : Value → Option Value) (cs : List Char) :
        (cs.map Piece.char).map (Piece.map f) = (cs.map Piece.char).map (Piece.map g) := by
      rw [List.map_map, List.map_map]
      rfl
    cases t with
    | param v =>
      have hrest := ih hts (before ++ [v])
      rw [List.length_append, List.append_assoc] at hrest
      have hvalue : (before ++ v :: params ts)[before.length]? = some v := by simp
      rw [pieces, valued, List.map_cons, List.map_cons]
      exact List.cons_eq_cons.2 ⟨congrArg Piece.placeholder hvalue, hrest⟩
    | _ =>
      rw [pieces, valued, List.map_append, List.map_append]
      · exact congrArg₂ (· ++ ·)
          ((hchars _ some _).trans (by rw [chars_of_isPlain ht rfl])) (ih hts before)
      all_goals nofun

/-! ## bound text -/

/-- The placeholders in the text of the tokens are numbered from one on, one for each value. -/
theorem placeholders_bind (hd : d ≠ .mysql) {ts : List Token} (hplain : ∀ t ∈ ts, t.isPlain d)
    (hapart : ts.IsChain Apart) :
    placeholders d (bind d ts).sql = List.range' 1 (bind d ts).params.length := by
  rw [placeholders, bind, String.toList_ofList, readPieces_text hd hplain hapart,
    placeholders_pieces]

/-- With the values in the places of their placeholders the text is that of the tokens. -/
theorem map_readPieces_bind (hd : d ≠ .mysql) {ts : List Token} (hplain : ∀ t ∈ ts, t.isPlain d)
    (hapart : ts.IsChain Apart) :
    (readPieces d .plain (bind d ts).sql.toList).map (Piece.map fun i => (bind d ts).params[i - 1]?) =
      (valued d ts).map (Piece.map some) := by
  rw [bind, String.toList_ofList, readPieces_text hd hplain hapart]
  exact map_pieces hplain []

end Token

end AssociationQuery
