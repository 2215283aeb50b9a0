import AssociationQuery.Proofs.Reading.Lexing

/-!
# AssociationQuery.Proofs.Reading.Splitting

Text cut at a word.

A reader goes through SQL text from left to right and keeps no more than how many brackets are
open, whether a quoted identifier is, and the word that it is in.  Outside of brackets and quoted
identifiers it cuts the text wherever a given word stands, and drops the blank on either side of
it.  A word with a bracket right behind it names a function and is left alone.  Of comments the
reader knows nothing.

Tokens that close every bracket they open, `Token.Sealed`, bring such a reader back to where it
was.  So text in which they are joined by AND is cut into the very tokens that were joined,
`Token.splitAtWord_conjoined`.
-/

namespace AssociationQuery

/-! ## the reader -/

/-- Where a reader is that cuts text at a word. -/
structure SplitPlace where
  /-- How many brackets are open. -/
  depth : Nat := 0
  /-- Is it in a quoted identifier? -/
  quoted : Bool := false
  /-- What is read of the word that it is in. -/
  word : List Char := []

namespace SplitPlace

/-- Where the reader is behind one more character. -/
def step (d : Dialect) (p : SplitPlace) (c : Char) : SplitPlace :=
  if p.quoted then { p with quoted := c ≠ d.mark }
  else if c = d.mark then ⟨p.depth, true, []⟩
  else if c = '(' then ⟨p.depth + 1, false, []⟩
  else if c = ')' then ⟨p.depth - 1, false, []⟩
  else if Identifier.isPlain c then ⟨p.depth, false, p.word ++ [c]⟩
  else ⟨p.depth, false, []⟩

/-- Where the reader is behind a piece of text. -/
def read (d : Dialect) (p : SplitPlace) (cs : List Char) : SplitPlace := cs.foldl (step d) p

/-- Is the word read, outside of brackets and quotes? -/
def holds (w : List Char) (p : SplitPlace) : Bool := p.word = w && !p.quoted && p.depth = 0

/-- Does the word end before the character, and stand for itself? -/
def cuts (w : List Char) (p : SplitPlace) (c : Char) : Bool :=
  !Identifier.isPlain c && c ≠ '(' && p.holds w

/-- The text without the word at its end and the blank before it. -/
def chopped (w part : List Char) : List Char :=
  let before := part.take (part.length - w.length)
  if before.getLast? = some ' ' then before.dropLast else before

/-- The text cut at a word, where `part` was read since the last cut. -/
def pieces (d : Dialect) (w : List Char) (p : SplitPlace) (part : List Char) :
    List Char → List (List Char)
  | [] => if p.holds w then [chopped w part, []] else [part]
  | c :: cs =>
    if p.cuts w c then
      chopped w part :: pieces d w (p.step d c) (if c = ' ' then [] else [c]) cs
    else pieces d w (p.step d c) (part ++ [c]) cs

/-- Is there no cut in the text? -/
def passes (d : Dialect) (w : List Char) (p : SplitPlace) : List Char → Bool
  | [] => true
  | c :: cs => !p.cuts w c && passes d w (p.step d c) cs

end SplitPlace

/-- The text cut at a word, wherever it stands outside of brackets and quoted identifiers. -/
def splitAtWord (d : Dialect) (w : String) (cs : List Char) : List (List Char) :=
  SplitPlace.pieces d w.toList {} [] cs

example :
    splitAtWord .postgres "AND" "a AND AND(b AND c) = \"d AND e\" AND NOT (f OR g)".toList =
      ["a".toList, "AND(b AND c) = \"d AND e\"".toList, "NOT (f OR g)".toList] := by
  decide +kernel

namespace SplitPlace

variable {d : Dialect} {w u : List Char} {p : SplitPlace} {k : Nat}

/-- Text is read piece by piece. -/
theorem read_append (cs cs' : List Char) : p.read d (cs ++ cs') = (p.read d cs).read d cs' :=
  List.foldl_append

/-- A text passes if its pieces do. -/
theorem passes_append (cs cs' : List Char) :
    p.passes d w (cs ++ cs') = (p.passes d w cs && (p.read d cs).passes d w cs') := by
  induction cs generalizing p with
  | nil => rfl
  | cons c cs ih =>
    rw [List.cons_append, passes, passes, ih, Bool.and_assoc]
    rfl

/-- Text without a cut goes to the part that is being read. -/
theorem pieces_append {cs : List Char} (h : p.passes d w cs) (part cs' : List Char) :
    pieces d w p part (cs ++ cs') = pieces d w (p.read d cs) (part ++ cs) cs' := by
  induction cs generalizing p part with
  | nil => simp [read]
  | cons c cs ih =>
    simp only [passes, Bool.and_eq_true, Bool.not_eq_true'] at h
    rw [List.cons_append, pieces, if_neg (by simp [h.1]), ih h.2, List.append_assoc]
    rfl

/-- The word is cut off with the blank before it. -/
theorem chopped_append (w part : List Char) : chopped w (part ++ ' ' :: w) = part := by
  have hlength : (part ++ ' ' :: w).length - w.length = (part ++ [' ']).length := by
    simp only [List.length_append, List.length_cons, List.length_nil]
    omega
  rw [chopped, hlength, List.append_cons part ' ' w, List.take_left]
  simp

/-! ## quiet places -/

/-- Is there nothing read of a word yet, or a character that the given word does not have? -/
def differs (w u : List Char) : Bool := u.isEmpty || u.any fun c => !w.contains c

theorem differs_iff : differs w u ↔ u = [] ∨ ∃ c ∈ u, c ∉ w := by simp [differs]

/-- The reader is in no quotes, and in no word that might still become the given one. -/
structure Quiet (w : List Char) (p : SplitPlace) : Prop where
  quoted : p.quoted = false
  word : differs w p.word

theorem quiet_between (w : List Char) (k : Nat) : Quiet w ⟨k, false, []⟩ := ⟨rfl, rfl⟩

/-- Text without a cut that ends in a quiet place, at the given depth. -/
structure Leads (d : Dialect) (w : List Char) (p : SplitPlace) (cs : List Char) (k : Nat) :
    Prop where
  passes : p.passes d w cs
  quiet : (p.read d cs).Quiet w
  depth : (p.read d cs).depth = k

/-- In a quiet place the word is not there. -/
theorem Quiet.holds (h : p.Quiet w) (hw : w ≠ []) : p.holds w = false := by
  have hne : p.word ≠ w := by
    rintro rfl
    obtain hnil | ⟨c, hc, hnot⟩ := differs_iff.1 h.word
    · exact hw hnil
    · exact hnot hc
  simp [SplitPlace.holds, hne]

namespace Leads

variable {cs cs' : List Char} {k' : Nat}

theorem nil (hp : p.Quiet w) : Leads d w p [] p.depth := ⟨rfl, hp, rfl⟩

/-- Leading texts follow each other. -/
theorem append (h : Leads d w p cs k) (h' : Leads d w (p.read d cs) cs' k') :
    Leads d w p (cs ++ cs') k' where
  passes := by rw [passes_append, h.passes, h'.passes]; rfl
  quiet := by rw [read_append]; exact h'.quiet
  depth := by rw [read_append]; exact h'.depth

/-- The text is part of one piece. -/
theorem pieces (h : Leads d w p cs k) (hw : w ≠ []) (part : List Char) :
    pieces d w p part cs = [part ++ cs] := by
  have hpieces := pieces_append h.passes part []
  rwa [List.append_nil, SplitPlace.pieces, h.quiet.holds hw] at hpieces

end Leads

/-- Where no word is read there is nothing to cut. -/
theorem cuts_between (hw : w ≠ []) (k : Nat) (quoted : Bool) (c : Char) :
    cuts w ⟨k, quoted, []⟩ c = false := by
  simp [cuts, SplitPlace.holds, Ne.symm hw]

/-- Where text leads can be found out by reading it. -/
theorem leads_of_check {cs : List Char} (hdepth : (p.read d cs).depth = k)
    (hcheck : p.passes d w cs && !(p.read d cs).quoted && differs w (p.read d cs).word) :
    Leads d w p cs k := by
  simp only [Bool.and_eq_true, Bool.not_eq_true'] at hcheck
  exact ⟨hcheck.1.1, ⟨hcheck.1.2, hcheck.2⟩, hdepth⟩

/-- A plain character goes on with the word that is read. -/
theorem step_of_isPlain {c : Char} (h : Identifier.isPlain c) (u : List Char) :
    step d ⟨k, false, u⟩ c = ⟨k, false, u ++ [c]⟩ := by
  have hmark : c ≠ d.mark := (of_decide_eq_true (Token.isNeutral_of_isPlain (d := d) h)).2
  have hopening : c ≠ '(' := by rintro rfl; exact absurd h (by decide)
  have hclosing : c ≠ ')' := by rintro rfl; exact absurd h (by decide)
  simp [step, hmark, hopening, hclosing, h]

/-- Text leads if its first character does not cut and the rest leads from there. -/
theorem leads_cons {c : Char} {cs : List Char} :
    Leads d w p (c :: cs) k ↔ p.cuts w c = false ∧ Leads d w (p.step d c) cs k := by
  constructor
  · intro h
    have hpasses := h.passes
    simp only [passes, Bool.and_eq_true, Bool.not_eq_true'] at hpasses
    exact ⟨hpasses.1, hpasses.2, h.quiet, h.depth⟩
  · rintro ⟨hcuts, h⟩
    exact ⟨by rw [passes, hcuts, h.passes]; rfl, h.quiet, h.depth⟩

/-- A word does not end before one of its own characters. -/
theorem leads_plain {ws cs : List Char} (hws : ∀ c ∈ ws, Identifier.isPlain c) {j : Nat}
    {u : List Char} (h : Leads d w ⟨j, false, u ++ ws⟩ cs k) :
    Leads d w ⟨j, false, u⟩ (ws ++ cs) k := by
  induction ws generalizing u with
  | nil => simpa using h
  | cons c ws ih =>
    obtain ⟨hc, hws⟩ := List.forall_mem_cons.1 hws
    rw [List.cons_append, leads_cons, step_of_isPlain hc]
    exact ⟨by simp [cuts, hc], ih hws (by simpa using h)⟩

/-- In the middle of another word the reader cuts no more than between words. -/
theorem Leads.other {cs : List Char} {j : Nat} (hu : ∃ c ∈ u, c ∉ w) (v : List Char)
    (h : Leads d w ⟨j, false, v⟩ cs k) : Leads d w ⟨j, false, u ++ v⟩ cs k := by
  obtain ⟨b, hb, hnot⟩ := hu
  induction cs generalizing v with
  | nil => exact ⟨rfl, ⟨rfl, differs_iff.2 (.inr ⟨b, List.mem_append_left v hb, hnot⟩)⟩, h.depth⟩
  | cons c cs ih =>
    have hne : u ++ v ≠ w := fun heq => hnot (heq ▸ List.mem_append_left v hb)
    rw [leads_cons] at h ⊢
    refine ⟨by simp [cuts, holds, hne], ?_⟩
    by_cases hc : Identifier.isPlain c
    · -- the other word goes on, with the character that tells it apart
      rw [step_of_isPlain hc] at h ⊢
      rw [List.append_assoc]
      exact ih (v ++ [c]) h.2
    · have hstep : step d ⟨j, false, u ++ v⟩ c = step d ⟨j, false, v⟩ c := by simp [step, hc]
      rw [hstep]
      exact h.2

/-- What passes between words passes in every quiet place. -/
theorem Quiet.leads {cs : List Char} (hp : p.Quiet w) (h : Leads d w ⟨p.depth, false, []⟩ cs k) :
    Leads d w p cs k := by
  obtain ⟨depth, quoted, word⟩ := p
  obtain rfl : quoted = false := hp.quoted
  obtain hnil | hother := differs_iff.1 hp.word
  · obtain rfl : word = [] := hnil
    exact h
  · rw [← List.append_nil word]
    exact h.other hother []

/-- A quoted identifier is passed, whatever stands in it. -/
theorem leads_enclose (hw : w ≠ []) (cs : List Char) :
    Leads d w ⟨k, false, []⟩ (Identifier.enclose d.mark cs) k := by
  have huncut := cuts_between hw k
  have hopens : step d ⟨k, false, []⟩ d.mark = ⟨k, true, []⟩ := by simp [step]
  have hcloses : step d ⟨k, true, []⟩ d.mark = ⟨k, false, []⟩ := by simp [step]
  have hbody : Leads d w ⟨k, true, []⟩
      (cs.flatMap (fun c => if c = d.mark then [d.mark, d.mark] else [c]) ++ [d.mark]) k := by
    induction cs with
    | nil => exact leads_cons.2 ⟨huncut _ _, hcloses ▸ .nil (quiet_between w k)⟩
    | cons c cs ih =>
      rw [List.flatMap_cons, List.append_assoc]
      split
      · next hc =>
        -- a doubled mark leaves the identifier and enters it again
        rw [List.cons_append, List.cons_append, List.nil_append, leads_cons, leads_cons, hcloses,
          hopens]
        exact ⟨huncut _ _, huncut _ _, ih⟩
      · next hc =>
        have hstays : step d ⟨k, true, []⟩ c = ⟨k, true, []⟩ := by simp [step, hc]
        rw [List.singleton_append, leads_cons, hstays]
        exact ⟨huncut _ _, ih⟩
  exact leads_cons.2 ⟨huncut _ _, hopens ▸ hbody⟩

end SplitPlace

/-! ## tokens -/

namespace Keyword

/-- Does the word open a bracket that it does not close? -/
def opens : Keyword → Bool
  | opening | inOpening | notInOpening | concatOpening | countDistinctOpening | sumOpening
  | averageOpening | minOpening | maxOpening | existsOpening => true
  | _ => false

end Keyword

namespace Token

/-- Does the token open a bracket?  A call does if its name is made of plain characters. -/
def opens : Token → Bool
  | word w => w.opens
  | call f => f.toList.all Identifier.isPlain
  | _ => false

/-- Does the token leave brackets alone and, where it is an operator, bind as tightly as the given
level? -/
def isFlat (level : Nat) : Token → Bool
  | word w => !w.opens && w ≠ .closing
  | op o => level ≤ o.precedence
  | ident _ | number _ | param _ | mention => true
  | call _ | raw _ => false

/-- Tokens that close every bracket they open.  Outside of brackets they have no operator that
binds more loosely than the level. -/
inductive Sealed : Nat → List Token → Prop
  | nil {level : Nat} : Sealed level []
  | cons {level : Nat} {t : Token} {ts : List Token} :
    t.isFlat level → Sealed level ts → Sealed level (t :: ts)
  | enclosed {level : Nat} {t : Token} {inner ts : List Token} :
    t.opens → Sealed 0 inner → Sealed level ts →
    Sealed level (t :: inner ++ word .closing :: ts)

/-- The texts of lists of tokens that stand one behind the other, with `n` placeholders before. -/
def texts (d : Dialect) : Nat → List (List Token) → List (List Char)
  | _, [] => []
  | n, ts :: rest => text d n ts :: texts d (n + (params ts).length) rest

namespace Sealed

variable {level : Nat} {t : Token} {ts us : List Token}

/-- Sealed tokens follow each other. -/
theorem append (h : Sealed level ts) (h' : Sealed level us) : Sealed level (ts ++ us) := by
  induction h with
  | nil => exact h'
  | cons ht _ ih => exact .cons ht (ih h')
  | enclosed ht hinner _ _ ih =>
    rw [List.append_assoc, List.cons_append]
    exact .enclosed ht hinner (ih h')

/-- What has only tight operators has none that are looser. -/
theorem mono {level' : Nat} (h : Sealed level ts) (hle : level' ≤ level) : Sealed level' ts := by
  induction h with
  | nil => exact .nil
  | @cons _ t _ ht _ ih =>
    refine .cons ?_ (ih hle)
    cases t with
    | op o => exact decide_eq_true (Nat.le_trans hle (of_decide_eq_true ht))
    | _ => exact ht
  | enclosed ht hinner _ _ ih => exact .enclosed ht hinner (ih hle)

theorem single (ht : t.isFlat level) : Sealed level [t] := .cons ht .nil

/-- Tokens in brackets, whatever the operators are. -/
theorem wrapped (ht : t.opens) (h : Sealed 0 ts) : Sealed level (t :: ts ++ [word .closing]) :=
  .enclosed ht h .nil

/-- In brackets everything may stand; without them the operators have to be tight enough. -/
theorem bracketed {wrap : Bool} (h : Sealed 0 ts) (hbare : wrap = false → Sealed level ts) :
    Sealed level (bracketed wrap ts) := by
  cases wrap with
  | false => exact hbare rfl
  | true => exact .wrapped rfl h

/-- Parts with a flat token between them are sealed if each part is. -/
theorem separated {between : Token} (hbetween : between.isFlat level)
    {parts : List (List Token)} (h : ∀ ts ∈ parts, Sealed level ts) :
    Sealed level (separated between parts) := by
  induction parts with
  | nil => exact .nil
  | cons ts parts ih =>
    obtain ⟨hts, hparts⟩ := List.forall_mem_cons.1 h
    cases parts with
    | nil => exact hts
    | cons => exact hts.append (.cons hbetween (ih hparts))

/-- Listed parts are sealed if each part is. -/
theorem listed {parts : List (List Token)} (h : ∀ ts ∈ parts, Sealed level ts) :
    Sealed level (listed parts) :=
  separated rfl h

end Sealed

/-! ## sealed text -/

open SplitPlace (Leads Quiet)

/-- The operators at whose symbols text is cut. -/
def connectives : List BinaryOp := [.and, .or]

variable {d : Dialect} {c : BinaryOp} {p : SplitPlace} {level : Nat} {t : Token} {ts : List Token}

/-- Every operator has a symbol. -/
theorem symbol_ne_nil (c : BinaryOp) : c.symbol.toList ≠ [] := by cases c <;> decide

/-- There are no digits in the symbols of operators. -/
theorem notMem_symbol {b : Char} (hb : b.isDigit) (c : BinaryOp) : b ∉ c.symbol.toList := by
  have hnone : c.symbol.toList.all fun b => !b.isDigit := by cases c <;> rfl
  intro hmem
  have hnot := List.all_eq_true.1 hnone b hmem
  simp [hb] at hnot

/-- A flat keyword leads back to the depth that it began at. -/
theorem leads_spelling (hc : c ∈ connectives) {w : Keyword} (hw : (word w).isFlat level)
    (k : Nat) : Leads d c.symbol.toList ⟨k, false, []⟩ w.spelling.toList k := by
  obtain rfl | rfl := List.mem_pair.1 hc
  all_goals
    refine SplitPlace.leads_of_check ?_ ?_ <;> cases d <;> cases w <;> first | cases hw; done | rfl

/-- A keyword that opens a bracket leads one deeper. -/
theorem leads_spelling_opens (hc : c ∈ connectives) {w : Keyword} (hw : w.opens) (k : Nat) :
    Leads d c.symbol.toList ⟨k, false, []⟩ w.spelling.toList (k + 1) := by
  obtain rfl | rfl := List.mem_pair.1 hc
  all_goals
    refine SplitPlace.leads_of_check ?_ ?_ <;> cases d <;> cases w <;> first | cases hw; done | rfl

/-- An operator is passed inside of brackets, and outside of them if it is another one. -/
theorem leads_symbol (hc : c ∈ connectives) {o : BinaryOp} {k : Nat} (ho : k = 0 → o ≠ c) :
    Leads d c.symbol.toList ⟨k, false, []⟩ (' ' :: o.symbol.toList ++ [' ']) k := by
  cases k with
  | zero =>
    have hne := ho rfl
    obtain rfl | rfl := List.mem_pair.1 hc
    all_goals
      refine SplitPlace.leads_of_check ?_ ?_ <;> cases d <;> cases o <;>
        first | rfl | exact absurd rfl hne
  | succ k =>
    -- inside of brackets even the operator that is looked for is no cut
    obtain rfl | rfl := List.mem_pair.1 hc
    all_goals
      refine SplitPlace.leads_of_check ?_ ?_ <;> cases d <;> cases o <;> rfl

/-- Digits lead on at the same depth. -/
theorem leads_digits {ds : List Char} (hds : ∀ b ∈ ds, b.isDigit) (k : Nat) :
    Leads d c.symbol.toList ⟨k, false, []⟩ ds k := by
  have hplain : ∀ b ∈ ds, Identifier.isPlain b :=
    fun b hb => Identifier.isPlain_of_isDigit (hds b hb)
  have hother : SplitPlace.differs c.symbol.toList ds := by
    rw [SplitPlace.differs_iff]
    cases ds with
    | nil => exact .inl rfl
    | cons b ds =>
      exact .inr ⟨b, List.mem_cons_self, notMem_symbol (hds b List.mem_cons_self) c⟩
  have hquiet : Quiet c.symbol.toList ⟨k, false, ds⟩ := ⟨rfl, hother⟩
  simpa using SplitPlace.leads_plain (u := []) hplain (.nil (d := d) hquiet)

/-- So does a placeholder. -/
theorem leads_placeholder (n k : Nat) :
    Leads d c.symbol.toList ⟨k, false, []⟩ (d.placeholder n).toList k := by
  obtain ⟨ds, hds, hdigits⟩ := exists_placeholder d n
  have hstep : SplitPlace.step d ⟨k, false, []⟩ d.sign = ⟨k, false, []⟩ := by cases d <;> rfl
  rw [hds, SplitPlace.leads_cons, hstep]
  exact ⟨SplitPlace.cuts_between (symbol_ne_nil c) k false d.sign, leads_digits hdigits k⟩

/-- A closing bracket leads back. -/
theorem leads_closing {k n : Nat} (hp : p.Quiet c.symbol.toList) (hdepth : p.depth = k + 1) :
    Leads d c.symbol.toList p ((word .closing).chars d n) k := by
  have hstep : SplitPlace.step d ⟨p.depth, false, []⟩ ')' = ⟨k, false, []⟩ := by
    rw [hdepth]
    cases d <;> rfl
  refine hp.leads ?_
  show Leads d c.symbol.toList ⟨p.depth, false, []⟩ [')'] k
  rw [SplitPlace.leads_cons, hstep]
  have hquiet := SplitPlace.quiet_between c.symbol.toList k
  exact ⟨SplitPlace.cuts_between (symbol_ne_nil c) _ false ')', .nil hquiet⟩

/-- A token that opens a bracket leads one deeper. -/
theorem leads_opens (hc : c ∈ connectives) (hp : p.Quiet c.symbol.toList) (ht : t.opens)
    (n : Nat) : Leads d c.symbol.toList p (t.chars d n) (p.depth + 1) := by
  refine hp.leads ?_
  cases t with
  | word w => exact leads_spelling_opens hc ht _
  | call f =>
    have hopening : SplitPlace.step d ⟨p.depth, false, f.toList⟩ '(' =
        ⟨p.depth + 1, false, []⟩ := by cases d <;> rfl
    refine SplitPlace.leads_plain (List.all_eq_true.1 ht) (SplitPlace.leads_cons.2 ⟨?_, ?_⟩)
    · simp [SplitPlace.cuts]
    · rw [List.nil_append, hopening]
      exact .nil (SplitPlace.quiet_between _ _)
  | _ => cases ht

/-- A flat token leads on at the same depth, in brackets or if its operator binds tighter. -/
theorem leads_isFlat (hc : c ∈ connectives) (hp : p.Quiet c.symbol.toList) (ht : t.isFlat level)
    (hlevel : p.depth = 0 → c.precedence < level) (n : Nat) :
    Leads d c.symbol.toList p (t.chars d n) p.depth := by
  refine hp.leads ?_
  cases t with
  | word w => exact leads_spelling hc ht _
  | op o =>
    refine leads_symbol hc ?_
    rintro hk rfl
    exact absurd (of_decide_eq_true ht) (Nat.not_le_of_lt (hlevel hk))
  | ident name => exact SplitPlace.leads_enclose (symbol_ne_nil c) name.toList
  | number m =>
    exact leads_digits (fun b hb => Nat.isDigit_of_mem_toDigits (by decide) (by decide) hb) _
  | param _ => exact leads_placeholder (n + 1) _
  | mention => exact leads_placeholder n _
  | call _ | raw _ => cases ht

/-- Sealed tokens bring the reader back to the brackets that it was in.  Outside of brackets they
are passed without a cut if all their operators bind tighter than the one that it looks for. -/
theorem Sealed.leads (hc : c ∈ connectives) (h : Sealed level ts) (hp : p.Quiet c.symbol.toList)
    (hlevel : p.depth = 0 → c.precedence < level) (n : Nat) :
    Leads d c.symbol.toList p (text d n ts) p.depth := by
  -- along the tokens: inside brackets the depth is positive, so nothing is split there
  induction h generalizing p n with
  | nil => exact .nil hp
  | @cons level t ts ht _ ih =>
    have hfirst := leads_isFlat (d := d) hc hp ht hlevel n
    refine hfirst.append ?_
    rw [← hfirst.depth] at hlevel ⊢
    exact ih hfirst.quiet hlevel _
  | @enclosed level t inner ts ht _ _ ihinner ih =>
    have hopened := leads_opens (d := d) hc hp ht n
    have hinside := ihinner hopened.quiet (fun h0 => by simp [hopened.depth] at h0)
      (n + (params [t]).length)
    have hdepth := hinside.depth.trans hopened.depth
    have hclosed := leads_closing (d := d) (n := n) hinside.quiet hdepth
    have hrest := ih hclosed.quiet (hclosed.depth.symm ▸ hlevel)
    rw [hclosed.depth] at hrest
    rw [List.cons_append, text, text_append]
    exact hopened.append (hinside.append (hclosed.append (hrest _)))

/-- Text with tighter operators only is not cut. -/
theorem Sealed.splitAtWord_text (hc : c ∈ connectives) (h : Sealed level ts)
    (hlevel : c.precedence < level) (n : Nat) :
    splitAtWord d c.symbol (text d n ts) = [text d n ts] := by
  have hleads := h.leads (d := d) hc (SplitPlace.quiet_between _ 0) (fun _ => hlevel) n
  exact hleads.pieces (symbol_ne_nil c) []

/-- Behind a quiet place outside of brackets AND is cut out with its blanks. -/
theorem pieces_and (hp : p.Quiet "AND".toList) (hdepth : p.depth = 0) (part cs : List Char)
    (n : Nat) : SplitPlace.pieces d "AND".toList p part ((op .and).chars d n ++ cs) =
      part :: SplitPlace.pieces d "AND".toList {} [] cs := by
  have huncut : p.cuts "AND".toList ' ' = false := by
    rw [SplitPlace.cuts, hp.holds (symbol_ne_nil .and), Bool.and_false]
  have hstep : p.step d ' ' = {} := by
    obtain ⟨depth, quoted, word⟩ := p
    obtain rfl : quoted = false := hp.quoted
    obtain rfl : depth = 0 := hdepth
    cases d <;> rfl
  have hword : SplitPlace.pieces d "AND".toList {} (part ++ [' ']) ("AND ".toList ++ cs) =
      SplitPlace.chopped "AND".toList (part ++ [' '] ++ ['A'] ++ ['N'] ++ ['D']) ::
        SplitPlace.pieces d "AND".toList {} [] cs := by cases d <;> rfl
  have hpart : part ++ [' '] ++ ['A'] ++ ['N'] ++ ['D'] = part ++ ' ' :: "AND".toList := by simp
  show SplitPlace.pieces d "AND".toList p part (' ' :: ("AND ".toList ++ cs)) = _
  rw [SplitPlace.pieces, huncut, if_neg nofun, hstep, hword, hpart, SplitPlace.chopped_append]

/-- Sealed tokens joined by AND are cut into what was joined. -/
theorem splitAtWord_conjoined {parts : List (List Token)} (hne : parts ≠ [])
    (h : ∀ ts ∈ parts, Sealed level ts) (hlevel : BinaryOp.and.precedence < level) (n : Nat) :
    splitAtWord d "AND" (text d n (conjoined parts)) = texts d n parts := by
  have hand : BinaryOp.and ∈ connectives := List.mem_cons_self
  induction parts generalizing n with
  | nil => exact absurd rfl hne
  | cons ts parts ih =>
    obtain ⟨hts, hparts⟩ := List.forall_mem_cons.1 h
    cases parts with
    | nil => exact hts.splitAtWord_text hand hlevel n
    | cons us rest =>
      have hfirst : Leads d "AND".toList {} (text d n ts) 0 :=
        hts.leads hand (SplitPlace.quiet_between _ 0) (fun _ => hlevel) n
      have hrest := ih nofun hparts (n + (params ts).length)
      show splitAtWord d "AND" (text d n (ts ++ op .and :: conjoined (us :: rest))) = _
      rw [text_append, splitAtWord, SplitPlace.pieces_append hfirst.passes, text,
        pieces_and hfirst.quiet hfirst.depth]
      exact congrArg (text d n ts :: ·) hrest

end Token

end AssociationQuery
