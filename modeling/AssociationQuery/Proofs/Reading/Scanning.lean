import AssociationQuery.Proofs.Placeholders.Reading

/-!
# AssociationQuery.Proofs.Reading.Scanning

How SQL text falls into words and marks.

A scanner goes through the text from left to right.  Quoted identifiers, words, placeholders and
operators are taken as long as they go on; two minus signs, or a slash and a star, open a comment
wherever they stand together outside of quotes.  What is found in one piece of text and what in
the next can be put together where the first does not go on in the second,
`scan_append_of_stops`.
-/

namespace AssociationQuery

/-! ## the scanner -/

/-- What a scanner tells apart. -/
inductive ScanItem where
  /-- A quoted identifier, without its marks. -/
  | name (cs : List Char)
  /-- Letters, digits and underscores: a keyword, a function or a number. -/
  | word (cs : List Char)
  /-- The sign of a placeholder with its number. -/
  | placeholder (cs : List Char)
  | operator (cs : List Char)
  /-- A bracket, a comma or a dot. -/
  | mark (c : Char)
  | comment
  /-- A character that begins nothing of all this. -/
  | stray (c : Char)
  /-- A quoted identifier without end. -/
  | unclosed (cs : List Char)
  deriving DecidableEq

/-- Where a scanner is, with what it has of the current item. -/
inductive ScanMode where
  | between
  | name (cs : List Char)
  /-- Behind a quotation mark in an identifier: it ends there, or the mark is doubled. -/
  | closed (cs : List Char)
  | word (cs : List Char)
  | placeholder (cs : List Char)
  | operator (cs : List Char)
  /-- In a comment up to the end of the line. -/
  | line
  /-- In a comment up to a star and a slash. -/
  | block (star : Bool)
  deriving DecidableEq

def operatorSigns : List Char := ['+', '-', '*', '/', '<', '>', '=', '|']

/-- May the character stand in an operator? -/
def isOperatorSign (c : Char) : Bool := operatorSigns.contains c

/-- Is the character a bracket, a comma or a dot? -/
def isSingleMark (c : Char) : Bool := ['(', ')', ',', '.'].contains c

/-- Do the two characters open a comment? -/
def opensComment (a b : Char) : Bool := a = '-' ∧ b = '-' ∨ a = '/' ∧ b = '*'

namespace ScanMode

/-- What is found when the text ends here. -/
def finish : ScanMode → List ScanItem
  | between | line | block _ => []
  | name cs => [.unclosed cs]
  | closed cs => [.name cs]
  | word cs => [.word cs]
  | placeholder cs => [.placeholder cs]
  | operator cs => [.operator cs]

/-- A character at which something new begins. -/
def start (d : Dialect) (c : Char) : List ScanItem × ScanMode :=
  if c = d.mark then ([], name [])
  else if c = d.sign then ([], placeholder [c])
  else if Identifier.isPlain c then ([], word [c])
  else if isOperatorSign c then ([], operator [c])
  else if isSingleMark c then ([.mark c], between)
  else if c.isWhitespace then ([], between)
  else ([.stray c], between)

/-- Does the current item go on with the character? -/
def continues (d : Dialect) (c : Char) : ScanMode → Bool
  | between => false
  | name _ | line | block _ => true
  | closed _ => c = d.mark
  | word _ => Identifier.isPlain c
  | placeholder _ => c.isDigit
  | operator _ => isOperatorSign c

/-- The items that the next character finishes, and where the scanner is behind it. -/
def step (d : Dialect) (c : Char) (m : ScanMode) : List ScanItem × ScanMode :=
  if m.continues d c then
    match m with
    | between => ([], between)
    | name cs => ([], if c = d.mark then closed cs else name (cs ++ [c]))
    | closed cs => ([], name (cs ++ [c]))
    | word cs => ([], word (cs ++ [c]))
    | placeholder cs => ([], placeholder (cs ++ [c]))
    | operator cs =>
      if cs.getLast?.any (opensComment · c) then
        ((if cs.dropLast = [] then [] else [.operator cs.dropLast]) ++ [.comment],
          if c = '-' then line else block false)
      else ([], operator (cs ++ [c]))
    | line => ([], if c = '\n' then between else line)
    | block star => ([], if star ∧ c = '/' then between else block (c = '*'))
  else (m.finish ++ (start d c).1, (start d c).2)

/-- The items that a piece of text finishes, and where the scanner is behind it. -/
def run (d : Dialect) (m : ScanMode) : List Char → List ScanItem × ScanMode
  | [] => ([], m)
  | c :: cs => ((m.step d c).1 ++ ((m.step d c).2.run d cs).1, ((m.step d c).2.run d cs).2)

/-- What the text falls into from here on. -/
def scan (d : Dialect) (m : ScanMode) (cs : List Char) : List ScanItem :=
  (m.run d cs).1 ++ (m.run d cs).2.finish

end ScanMode

/-- What a text falls into. -/
def scan (d : Dialect) (cs : List Char) : List ScanItem := ScanMode.between.scan d cs

namespace ScanMode

variable {d : Dialect} {m : ScanMode}

theorem scan_cons (c : Char) (cs : List Char) :
    m.scan d (c :: cs) = (m.step d c).1 ++ (m.step d c).2.scan d cs := by
  rw [scan, run, scan, List.append_assoc]

theorem run_append (cs cs' : List Char) :
    m.run d (cs ++ cs') =
      ((m.run d cs).1 ++ ((m.run d cs).2.run d cs').1, ((m.run d cs).2.run d cs').2) := by
  induction cs generalizing m with
  | nil => rfl
  | cons c cs ih => simp only [List.cons_append, run, ih, List.append_assoc]

/-- Where an item does not go on, it is finished. -/
theorem scan_of_stops {cs : List Char} (h : ∀ c ∈ cs.head?, m.continues d c = false) :
    m.scan d cs = m.finish ++ between.scan d cs := by
  cases cs with
  | nil => simp [scan, run, finish]
  | cons c cs =>
    have hstep : m.step d c = (m.finish ++ (start d c).1, (start d c).2) :=
      if_neg (by simp [h c rfl])
    have hnew : between.step d c = start d c := rfl
    rw [scan_cons, scan_cons, hstep, hnew, List.append_assoc]

/-- Two pieces of text are scanned one by one if the last item of the first does not go on in the
second. -/
theorem scan_append_of_stops {cs cs' : List Char}
    (h : ∀ c ∈ cs'.head?, (m.run d cs).2.continues d c = false) :
    m.scan d (cs ++ cs') = m.scan d cs ++ between.scan d cs' := by
  have hrest : (m.run d cs).2.scan d cs' = (m.run d cs).2.finish ++ between.scan d cs' :=
    scan_of_stops h
  calc m.scan d (cs ++ cs')
    _ = (m.run d cs).1 ++ (m.run d cs).2.scan d cs' := by
      simp only [scan, run_append, List.append_assoc]
    _ = m.scan d cs ++ between.scan d cs' := by rw [hrest, ← List.append_assoc, ← scan]

/-! ## items that go on -/

theorem run_word {ws : List Char} (h : ∀ c ∈ ws, Identifier.isPlain c) (cs : List Char) :
    (word cs).run d ws = ([], word (cs ++ ws)) := by
  induction ws generalizing cs with
  | nil => simp [run]
  | cons c ws ih =>
    obtain ⟨hc, hws⟩ := List.forall_mem_cons.1 h
    have hstep : (word cs).step d c = ([], word (cs ++ [c])) := if_pos hc
    rw [run, hstep, ih hws, List.append_assoc]
    rfl

theorem run_placeholder {ws : List Char} (h : ∀ c ∈ ws, c.isDigit) (cs : List Char) :
    (placeholder cs).run d ws = ([], placeholder (cs ++ ws)) := by
  induction ws generalizing cs with
  | nil => simp [run]
  | cons c ws ih =>
    obtain ⟨hc, hws⟩ := List.forall_mem_cons.1 h
    have hstep : (placeholder cs).step d c = ([], placeholder (cs ++ [c])) := if_pos hc
    rw [run, hstep, ih hws, List.append_assoc]
    rfl

theorem start_of_isPlain {c : Char} (h : Identifier.isPlain c) : start d c = ([], word [c]) := by
  have hneutral := of_decide_eq_true (Token.isNeutral_of_isPlain (d := d) h)
  rw [start, if_neg hneutral.2, if_neg hneutral.1, if_pos h]

/-- A word is found as such. -/
theorem run_plain {ws : List Char} (h : ∀ c ∈ ws, Identifier.isPlain c) (hne : ws ≠ []) :
    between.run d ws = ([], word ws) := by
  obtain ⟨c, ws, rfl⟩ := List.exists_cons_of_ne_nil hne
  obtain ⟨hc, hws⟩ := List.forall_mem_cons.1 h
  have hstep : between.step d c = ([], word [c]) := start_of_isPlain hc
  rw [run, hstep, run_word hws]
  rfl

/-- A quoted identifier is found with its very name, whatever stands in it. -/
theorem run_enclose (ws : List Char) :
    between.run d (Identifier.enclose d.mark ws) = ([], closed ws) := by
  have hinside (cs : List Char) : (name cs).run d
      (ws.flatMap (fun c => if c = d.mark then [d.mark, d.mark] else [c]) ++ [d.mark]) =
      ([], closed (cs ++ ws)) := by
    induction ws generalizing cs with
    | nil => simp [run, step, continues]
    | cons c ws ih =>
      by_cases hc : c = d.mark
      · simp [hc, run, step, continues, ih]
      · simp [hc, run, step, continues, ih]
  have hstart : between.step d d.mark = ([], name []) := if_pos rfl
  rw [Identifier.enclose, List.cons_append, run, hstart, hinside]
  rfl

/-! ## comments -/

/-- The character before, as far as it may open a comment. -/
def previous : ScanMode → Option Char
  | operator cs => cs.getLast?
  | _ => none

def isName : ScanMode → Bool
  | name _ => true
  | _ => false

def isComment : ScanMode → Bool
  | line | block _ => true
  | _ => false

end ScanMode

/-- The text with nothing in the places of quoted identifiers; `inside` tells whether it begins in
one. -/
def unquoted (d : Dialect) (inside : Bool) : List Char → List (Option Char)
  | [] => []
  | c :: cs =>
    (if inside ∨ c = d.mark then none else some c) :: unquoted d (inside ^^ (c = d.mark)) cs

/-- Two characters outside of quotes that open no comment. -/
def NoOpening (a b : Option Char) : Prop := ∀ x ∈ a, ∀ y ∈ b, opensComment x y = false

theorem noOpening_none (b : Option Char) : NoOpening none b := nofun

namespace ScanMode

variable {d : Dialect} {m : ScanMode}

theorem mem_of_isOperatorSign {c : Char} (h : isOperatorSign c) : c ∈ operatorSigns :=
  List.contains_iff_mem.1 h

theorem start_of_isOperatorSign {c : Char} (h : isOperatorSign c) :
    start d c = ([], operator [c]) := by
  have hall : operatorSigns.all fun c => start d c = ([], operator [c]) := by cases d <;> decide
  exact of_decide_eq_true (List.all_eq_true.1 hall c (mem_of_isOperatorSign h))

theorem ne_mark_of_isOperatorSign {c : Char} (h : isOperatorSign c) : c ≠ d.mark := by
  have hall : operatorSigns.all fun c => c ≠ d.mark := by cases d <;> decide
  exact of_decide_eq_true (List.all_eq_true.1 hall c (mem_of_isOperatorSign h))

theorem isOperatorSign_of_isPlain {c : Char} (h : Identifier.isPlain c) :
    isOperatorSign c = false := by
  have hall : operatorSigns.all fun c => ¬Identifier.isPlain c := by decide
  exact Bool.eq_false_iff.2 fun hsign =>
    of_decide_eq_true (List.all_eq_true.1 hall c (mem_of_isOperatorSign hsign)) h

theorem isOperatorSign_of_opensComment {a b : Char} (h : opensComment a b) :
    isOperatorSign a ∧ isOperatorSign b := by
  obtain ⟨rfl, rfl⟩ | ⟨rfl, rfl⟩ := of_decide_eq_true h <;> decide

/-- What is shown of a character outside of quotes. -/
def shown (d : Dialect) (c : Char) : Option Char := if c = d.mark then none else some c

theorem noOpening_shown_left {c : Char} (h : isOperatorSign c = false) (y : Option Char) :
    NoOpening (shown d c) y := by
  intro a ha b _
  unfold shown at ha
  split_ifs at ha
  · cases ha
  obtain rfl := Option.some.inj ha
  exact Bool.eq_false_iff.2 fun hopens => by
    simp [(isOperatorSign_of_opensComment hopens).1] at h

theorem noOpening_shown_right {c : Char} (h : isOperatorSign c = false) (x : Option Char) :
    NoOpening x (shown d c) := by
  intro a _ b hb
  unfold shown at hb
  split_ifs at hb
  · cases hb
  obtain rfl := Option.some.inj hb
  exact Bool.eq_false_iff.2 fun hopens => by
    simp [(isOperatorSign_of_opensComment hopens).2] at h

/-- Behind a character that begins something new, as much may open a comment as behind the
character itself. -/
theorem noOpening_start (c : Char) (y : Option Char) :
    NoOpening (start d c).2.previous y ↔ NoOpening (shown d c) y := by
  cases hsign : isOperatorSign c with
  | false =>
    have hnone : (start d c).2.previous = none := by
      simp only [start, hsign, Bool.false_eq_true, if_false]
      split_ifs <;> rfl
    rw [hnone]
    exact iff_of_true nofun (noOpening_shown_left hsign y)
  | true => simp [start_of_isOperatorSign hsign, previous, shown, ne_mark_of_isOperatorSign hsign]

theorem isName_start (c : Char) : (start d c).2.isName = decide (c = d.mark) := by
  unfold start
  split_ifs <;> simp_all [isName]

theorem isComment_start (c : Char) : (start d c).2.isComment = false := by
  unfold start
  split_ifs <;> rfl

theorem comment_notMem_start (c : Char) : .comment ∉ (start d c).1 := by
  unfold start
  split_ifs <;> simp

theorem comment_notMem_finish (m : ScanMode) : .comment ∉ m.finish := by
  cases m <;> simp [finish]

/-- The next character opens no comment, and behind it the scanner is in quotes, and has a sign
before it that may open a comment, just as the text does. -/
structure Keeps (d : Dialect) (m : ScanMode) (c : Char) : Prop where
  comment : .comment ∉ (m.step d c).1
  isComment : (m.step d c).2.isComment = false
  isName : (m.step d c).2.isName = (m.isName ^^ decide (c = d.mark))
  noOpening : NoOpening m.previous (if m.isName then none else shown d c)
  previous (y : Option Char) : NoOpening (m.step d c).2.previous y ↔
    NoOpening (if m.isName then none else shown d c) y

/-- Where the current item does not go on. -/
theorem keeps_of_stops {c : Char} (h : m.continues d c = false) (hname : m.isName = false)
    (hm : NoOpening m.previous (shown d c)) : m.Keeps d c := by
  have hstep : m.step d c = (m.finish ++ (start d c).1, (start d c).2) := if_neg (by simp [h])
  refine ⟨?_, ?_, ?_, ?_, fun y => ?_⟩
  · rw [hstep]
    exact List.not_mem_append m.comment_notMem_finish (comment_notMem_start c)
  · rw [hstep]
    exact isComment_start c
  · rw [hstep, hname, Bool.false_xor]
    exact isName_start c
  · simpa [hname] using hm
  · rw [hstep]
    simpa [hname] using noOpening_start c y

/-- Where a word or a placeholder goes on. -/
theorem keeps_of_isPlain {c : Char} {m' : ScanMode} (h : Identifier.isPlain c)
    (hstep : m.step d c = ([], m')) (hm : m.isName = false ∧ m.previous = none)
    (hm' : m'.isComment = false ∧ m'.isName = false ∧ m'.previous = none) : m.Keeps d c := by
  obtain ⟨hcomment', hname', hprevious'⟩ := hm'
  have hmark : c ≠ d.mark := (of_decide_eq_true (Token.isNeutral_of_isPlain (d := d) h)).2
  refine ⟨?_, ?_, ?_, ?_, fun y => ?_⟩
  · simp [hstep]
  · rw [hstep, hcomment']
  · simp [hstep, hname', hm.1, hmark]
  · rw [hm.2]
    nofun
  · rw [hstep, hprevious', hm.1]
    exact iff_of_true nofun (noOpening_shown_left (isOperatorSign_of_isPlain h) y)

theorem keeps_closed (cs : List Char) (c : Char) : (closed cs).Keeps d c := by
  by_cases hc : c = d.mark
  · subst hc
    have hstep : (closed cs).step d d.mark = ([], name (cs ++ [d.mark])) :=
      if_pos (decide_eq_true rfl)
    exact ⟨by simp [hstep], by rw [hstep]; rfl, by simp [hstep, isName], nofun,
      fun y => by simp [hstep, isName, shown, previous]⟩
  · exact keeps_of_stops (by simp [continues, hc]) rfl (noOpening_none _)

theorem keeps_name (cs : List Char) (c : Char) : (name cs).Keeps d c := by
  have hstep : (name cs).step d c =
      ([], if c = d.mark then closed cs else name (cs ++ [c])) := if_pos rfl
  refine ⟨by simp [hstep], ?_, ?_, nofun, fun y => ?_⟩
  all_goals
    rw [hstep]
    by_cases hc : c = d.mark <;> simp [hc, isComment, isName, previous]

/-- Behind the sign of an operator. -/
theorem keeps_operator (cs : List Char) (c : Char)
    (h : cs.getLast?.any (opensComment · c) = false) : (operator cs).Keeps d c := by
  cases hc : isOperatorSign c with
  | false => exact keeps_of_stops hc rfl (noOpening_shown_right hc _)
  | true =>
    have hmark : c ≠ d.mark := ne_mark_of_isOperatorSign hc
    have hshown : shown d c = some c := if_neg hmark
    have hstep : (operator cs).step d c = ([], operator (cs ++ [c])) := by
      simp [step, continues, hc, h]
    refine ⟨by simp [hstep], by rw [hstep]; rfl, by simp [hstep, isName, hmark], ?_, fun y => ?_⟩
    · rintro a ha b hb
      obtain rfl : c = b := Option.some.inj (hshown ▸ hb)
      have ha : cs.getLast? = some a := ha
      rwa [ha, Option.any_some] at h
    · simp [hstep, isName, hshown, previous]

/-- Every step keeps with the text or opens a comment that is opened in the text. -/
theorem keeps_or_opens (hm : m.isComment = false) (c : Char) :
    m.Keeps d c ∨ .comment ∈ (m.step d c).1 ∧
      ¬NoOpening m.previous (if m.isName then none else shown d c) := by
  -- by the mode: only behind an operator can a character open a comment
  cases m with
  | between => exact .inl (keeps_of_stops rfl rfl (noOpening_none _))
  | name cs => exact .inl (keeps_name cs c)
  | closed cs => exact .inl (keeps_closed cs c)
  | word cs =>
    cases hc : Identifier.isPlain c with
    | true => exact .inl (keeps_of_isPlain hc (if_pos hc) ⟨rfl, rfl⟩ ⟨rfl, rfl, rfl⟩)
    | false => exact .inl (keeps_of_stops hc rfl (noOpening_none _))
  | placeholder cs =>
    cases hc : c.isDigit with
    | true =>
      have hplain := Identifier.isPlain_of_isDigit hc
      exact .inl (keeps_of_isPlain hplain (if_pos hc) ⟨rfl, rfl⟩ ⟨rfl, rfl, rfl⟩)
    | false => exact .inl (keeps_of_stops hc rfl (noOpening_none _))
  | operator cs =>
    cases hopens : cs.getLast?.any (opensComment · c) with
    | false => exact .inl (keeps_operator cs c hopens)
    | true =>
      obtain ⟨a, ha, hac⟩ := (Option.any_eq_true _ _).1 hopens
      have hc := (isOperatorSign_of_opensComment hac).2
      have hshown : shown d c = some c := if_neg (ne_mark_of_isOperatorSign hc)
      refine .inr ⟨by simp [step, continues, hc, hopens], fun hno => ?_⟩
      have hfalse := hno a ha c (by simp [isName, hshown])
      rw [hac] at hfalse
      cases hfalse
  | line | block => cases hm

/-- A scanner meets a comment exactly if one is opened outside of quotes. -/
theorem comment_mem_scan_iff (hm : m.isComment = false) (cs : List Char) :
    .comment ∈ m.scan d cs ↔ ¬(m.previous :: unquoted d m.isName cs).IsChain NoOpening := by
  induction cs generalizing m with
  | nil => simp [scan, run, comment_notMem_finish, unquoted]
  | cons c cs ih =>
    have hunquoted : unquoted d m.isName (c :: cs) = (if m.isName then none else shown d c) ::
        unquoted d (m.isName ^^ decide (c = d.mark)) cs := by
      rw [unquoted, shown]
      split_ifs <;> simp_all
    rw [scan_cons, List.mem_append, hunquoted, List.isChain_cons_cons]
    obtain hkeeps | ⟨hcomment, hopens⟩ := keeps_or_opens (d := d) hm c
    · rw [ih hkeeps.isComment, hkeeps.isName]
      simp only [hkeeps.comment, hkeeps.noOpening, true_and, false_or, List.isChain_cons,
        hkeeps.previous]
    · simp [hcomment, hopens]

end ScanMode

/-- A text opens no comment outside of quotes exactly if a scanner meets none. -/
theorem isChain_noOpening_iff {d : Dialect} {cs : List Char} :
    (unquoted d false cs).IsChain NoOpening ↔ .comment ∉ scan d cs := by
  rw [scan, ScanMode.comment_mem_scan_iff rfl, not_not, List.isChain_cons]
  exact (and_iff_right nofun).symm

end AssociationQuery
