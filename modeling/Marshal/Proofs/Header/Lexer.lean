import Marshal.Header.Continuation

/-!
# What a compiler sees of a text

A text of code is read from left to right in one of four **modes**: in code, in a literal, in a
comment between `/*` and `*/`, or in one up to the end of the line.  What is left of the text
once comments are taken for blanks is what it means to the compiler.  A backslash before a line
end joins two lines; that is done before anything else is looked at.

## Main definitions

* `Mode`, `Piece`, `lex` — reading a text piece by piece.
* `visible` — a text with each comment and each line end taken for a blank.
* `splice` — a text with lines joined at backslashes.

## Main results

* `lex_code_char`, … — what is read in one step, by mode.
* `lex_blockComment_splitMarks` — a comment without end marks is passed over.
* `splice_append` — nothing is joined within a line.
-/

namespace Marshal
namespace Header

/-! ### Reading a text -/

/-- What a text is read as. -/
inductive Mode where
  /-- Code. -/
  | code
  /-- A literal, up to the given quote. -/
  | literal (quote : Char)
  /-- A comment, up to its end mark. -/
  | blockComment
  /-- A comment, up to the end of the line. -/
  | lineComment
  deriving DecidableEq, Repr, Inhabited

/-- The mode on the next line; only a comment up to the end of the line ends there. -/
def Mode.nextLine : Mode → Mode
  | .lineComment => .code
  | m => m

/-- A piece of a text. -/
inductive Piece where
  /-- A character outside comments. -/
  | char (c : Char)
  /-- The marks that open a comment. -/
  | opening (comment : Mode)
  /-- A line feed, with or without a carriage return before it, and the mode it is met in. -/
  | newline (mode : Mode)
  /-- The end of the text, and the mode it is met in. -/
  | ending (mode : Mode)
  deriving DecidableEq, Repr, Inhabited

/-- The pieces of a text that is read in a mode.  A backslash in a literal takes the character
after it with it; what is in a comment is no piece. -/
def lex : Mode → List Char → List Piece
  | m, [] => [.ending m]
  | m, '\n' :: cs => .newline m :: lex m.nextLine cs
  | m, '\r' :: '\n' :: cs => .newline m :: lex m.nextLine cs
  | .code, '/' :: '*' :: cs => .opening .blockComment :: lex .blockComment cs
  | .code, '/' :: '/' :: cs => .opening .lineComment :: lex .lineComment cs
  | .code, c :: cs => .char c :: lex (if c = '"' ∨ c = '\'' then .literal c else .code) cs
  | .literal q, '\\' :: c :: cs => .char '\\' :: .char c :: lex (.literal q) cs
  | .literal q, c :: cs => .char c :: lex (if c = q then .code else .literal q) cs
  | .blockComment, '*' :: '/' :: cs => lex .code cs
  | .blockComment, _ :: cs => lex .blockComment cs
  | .lineComment, _ :: cs => lex .lineComment cs

/-- How a piece is seen: a comment as one blank, and so is a line end that is not in one. -/
def Piece.seen : Piece → List Char
  | .char c => [c]
  | .opening _ => [' ']
  | .newline .blockComment => []
  | .newline _ => [' ']
  | .ending _ => []

/-- How a text is seen that is read in a mode. -/
def seenFrom (m : Mode) (cs : List Char) : List Char := (lex m cs).flatMap Piece.seen

/-- A text with each comment and each line end taken for a blank. -/
def visible (cs : List Char) : List Char := seenFrom .code cs

/-- A text with lines joined where a backslash stands before the line end. -/
def splice : List Char → List Char
  | '\\' :: '\n' :: cs => splice cs
  | '\\' :: '\r' :: '\n' :: cs => splice cs
  | c :: cs => c :: splice cs
  | [] => []

/-! ### Single steps -/

/-- A character that is followed by `cs` does not begin a line end. -/
def NoLineEnd (c : Char) (cs : List Char) : Prop := c ≠ '\n' ∧ (c = '\r' → cs.head? ≠ some '\n')

section

variable {c : Char} {cs : List Char}

theorem lex_newline (m : Mode) (cs : List Char) :
    lex m ('\n' :: cs) = .newline m :: lex m.nextLine cs := by
  cases m <;> simp [lex]

theorem lex_return (m : Mode) (cs : List Char) :
    lex m ('\r' :: '\n' :: cs) = .newline m :: lex m.nextLine cs := by
  cases m <;> simp [lex]

theorem lex_code_block (cs : List Char) :
    lex .code ('/' :: '*' :: cs) = .opening .blockComment :: lex .blockComment cs := by
  simp [lex]

theorem lex_code_line (cs : List Char) :
    lex .code ('/' :: '/' :: cs) = .opening .lineComment :: lex .lineComment cs := by
  simp [lex]

theorem lex_code_char (h : NoLineEnd c cs)
    (hslash : c = '/' → cs.head? ≠ some '*' ∧ cs.head? ≠ some '/') :
    lex .code (c :: cs) =
      .char c :: lex (if c = '"' ∨ c = '\'' then .literal c else .code) cs := by
  rw [lex.eq_def]
  split <;> simp_all [NoLineEnd]

theorem lex_literal_escape (q c : Char) (cs : List Char) :
    lex (.literal q) ('\\' :: c :: cs) = .char '\\' :: .char c :: lex (.literal q) cs := by
  simp [lex]

theorem lex_literal_char {q : Char} (h : NoLineEnd c cs) (hc : c ≠ '\\') :
    lex (.literal q) (c :: cs) = .char c :: lex (if c = q then .code else .literal q) cs := by
  rw [lex.eq_def]
  split <;> simp_all [NoLineEnd]

theorem lex_blockComment_close (cs : List Char) :
    lex .blockComment ('*' :: '/' :: cs) = lex .code cs := by
  simp [lex]

theorem lex_blockComment_char (h : NoLineEnd c cs) (hstar : c = '*' → cs.head? ≠ some '/') :
    lex .blockComment (c :: cs) = lex .blockComment cs := by
  rw [lex.eq_def]
  split <;> simp_all [NoLineEnd]

theorem lex_lineComment_char (h : NoLineEnd c cs) :
    lex .lineComment (c :: cs) = lex .lineComment cs := by
  rw [lex.eq_def]
  split <;> simp_all [NoLineEnd]

end

/-! ### Lines -/

/-- What may come after a line: nothing that its last character would be read together with. -/
def Stops (l rest : List Char) : Prop :=
  rest.head? ≠ some '/' ∧ rest.head? ≠ some '*' ∧
    (rest.head? = some '\n' → l.getLast? ≠ some '\r')

section

variable {c : Char} {cs rest : List Char}

theorem getLast?_of_ne_nil (h : cs ≠ []) : (c :: cs).getLast? = cs.getLast? := by
  cases cs with
  | nil => exact absurd rfl h
  | cons d ds => exact List.getLast?_cons_cons

theorem getLast?_tail {x : Char} (h : (c :: cs).getLast? ≠ some x) : cs.getLast? ≠ some x := by
  cases cs with
  | nil => simp
  | cons d ds => rwa [getLast?_of_ne_nil (by simp)] at h

theorem Stops.tail (h : Stops (c :: cs) rest) : Stops cs rest :=
  ⟨h.1, h.2.1, fun hn => getLast?_tail (h.2.2 hn)⟩

/-- The next character of a line is that of the line with something after it. -/
theorem Stops.head?_ne (h : Stops (c :: cs) rest) {x : Char} (hx : x = '/' ∨ x = '*')
    (hcs : cs.head? ≠ some x) : (cs ++ rest).head? ≠ some x := by
  cases cs with
  | nil =>
    rcases hx with rfl | rfl
    · exact h.1
    · exact h.2.1
  | cons d ds => exact hcs

theorem Stops.noLineEnd (h : Stops (c :: cs) rest) (hl : '\n' ∉ c :: cs) :
    NoLineEnd c (cs ++ rest) := by
  simp only [List.mem_cons, not_or] at hl
  refine ⟨fun hc => hl.1 hc.symm, ?_⟩
  rintro rfl hn
  cases cs with
  | nil => exact h.2.2 hn rfl
  | cons d ds => exact hl.2 (by simp [Option.some.inj hn])

theorem head?_ne_of_forall {x : Char} (h : ∀ ds, cs = x :: ds → False) : cs.head? ≠ some x := by
  intro hx
  obtain ⟨ds, rfl⟩ := List.head?_eq_some_iff.1 hx
  exact h ds rfl

end

/-- **A line is read the same way whatever comes after it**, if it does not end in a backslash and
what comes after it does not go together with its end. -/
theorem lex_line (m : Mode) (l : List Char) (hl : '\n' ∉ l) (hlast : l.getLast? ≠ some '\\') :
    ∃ pieces m', lex m l = pieces ++ [.ending m'] ∧
      ∀ rest, Stops l rest → lex m (l ++ rest) = pieces ++ lex m' rest := by
  induction m, l using lex.induct with
  | case1 m => exact ⟨[], m, by simp [lex], fun rest _ => rfl⟩
  | case2 m cs => exact absurd List.mem_cons_self hl
  | case3 m cs => exact absurd (List.mem_cons_of_mem _ List.mem_cons_self) hl
  | case4 cs ih =>
    simp only [List.mem_cons, not_or] at hl
    obtain ⟨pieces, m', hpieces, hrest⟩ := ih hl.2.2 (getLast?_tail (getLast?_tail hlast))
    refine ⟨.opening .blockComment :: pieces, m', by simp [lex, hpieces], fun rest h => ?_⟩
    simp [lex, hrest rest h.tail.tail]
  | case5 cs ih =>
    simp only [List.mem_cons, not_or] at hl
    obtain ⟨pieces, m', hpieces, hrest⟩ := ih hl.2.2 (getLast?_tail (getLast?_tail hlast))
    refine ⟨.opening .lineComment :: pieces, m', by simp [lex, hpieces], fun rest h => ?_⟩
    simp [lex, hrest rest h.tail.tail]
  | case6 c cs hn hr hstar hslash ih =>
    have hl' := hl
    simp only [List.mem_cons, not_or] at hl'
    obtain ⟨pieces, m', hpieces, hrest⟩ := ih hl'.2 (getLast?_tail hlast)
    have hstar' : c = '/' → cs.head? ≠ some '*' := fun hc =>
      head?_ne_of_forall fun ds hds => hstar ds hc hds
    have hslash' : c = '/' → cs.head? ≠ some '/' := fun hc =>
      head?_ne_of_forall fun ds hds => hslash ds hc hds
    have hself : NoLineEnd c cs := ⟨hn, fun hc => head?_ne_of_forall fun ds hds => hr ds hc hds⟩
    refine ⟨.char c :: pieces, m', ?_, fun rest h => ?_⟩
    · rw [lex_code_char hself fun hc => ⟨hstar' hc, hslash' hc⟩, hpieces]
      rfl
    · rw [List.cons_append, lex_code_char (h.noLineEnd hl), hrest rest h.tail]
      · rfl
      · exact fun hc => ⟨h.head?_ne (.inr rfl) (hstar' hc), h.head?_ne (.inl rfl) (hslash' hc)⟩
  | case7 q c cs ih =>
    simp only [List.mem_cons, not_or] at hl
    obtain ⟨pieces, m', hpieces, hrest⟩ := ih hl.2.2 (getLast?_tail (getLast?_tail hlast))
    refine ⟨.char '\\' :: .char c :: pieces, m', ?_, fun rest h => ?_⟩
    · rw [lex_literal_escape, hpieces]
      rfl
    · rw [List.cons_append, List.cons_append, lex_literal_escape, hrest rest h.tail.tail]
      rfl
  | case8 q c cs hn hr hescape ih =>
    have hl' := hl
    simp only [List.mem_cons, not_or] at hl'
    obtain ⟨pieces, m', hpieces, hrest⟩ := ih hl'.2 (getLast?_tail hlast)
    -- a backslash is followed by another character of the line
    have hc : c ≠ '\\' := by
      rintro rfl
      cases cs with
      | nil => exact hlast rfl
      | cons d ds => exact hescape d ds rfl rfl
    have hself : NoLineEnd c cs := ⟨hn, fun hc => head?_ne_of_forall fun ds hds => hr ds hc hds⟩
    refine ⟨.char c :: pieces, m', ?_, fun rest h => ?_⟩
    · rw [lex_literal_char hself hc, hpieces]
      rfl
    · rw [List.cons_append, lex_literal_char (h.noLineEnd hl) hc, hrest rest h.tail]
      rfl
  | case9 cs ih =>
    simp only [List.mem_cons, not_or] at hl
    obtain ⟨pieces, m', hpieces, hrest⟩ := ih hl.2.2 (getLast?_tail (getLast?_tail hlast))
    refine ⟨pieces, m', by rw [lex_blockComment_close, hpieces], fun rest h => ?_⟩
    rw [List.cons_append, List.cons_append, lex_blockComment_close, hrest rest h.tail.tail]
  | case10 c cs hn hr hclose ih =>
    have hl' := hl
    simp only [List.mem_cons, not_or] at hl'
    obtain ⟨pieces, m', hpieces, hrest⟩ := ih hl'.2 (getLast?_tail hlast)
    have hclose' : c = '*' → cs.head? ≠ some '/' := fun hc =>
      head?_ne_of_forall fun ds hds => hclose ds hc hds
    have hself : NoLineEnd c cs := ⟨hn, fun hc => head?_ne_of_forall fun ds hds => hr ds hc hds⟩
    refine ⟨pieces, m', by rw [lex_blockComment_char hself hclose', hpieces], fun rest h => ?_⟩
    rw [List.cons_append, lex_blockComment_char (h.noLineEnd hl), hrest rest h.tail]
    exact fun hc => h.head?_ne (.inl rfl) (hclose' hc)
  | case11 c cs hn hr ih =>
    have hl' := hl
    simp only [List.mem_cons, not_or] at hl'
    obtain ⟨pieces, m', hpieces, hrest⟩ := ih hl'.2 (getLast?_tail hlast)
    have hself : NoLineEnd c cs := ⟨hn, fun hc => head?_ne_of_forall fun ds hds => hr ds hc hds⟩
    refine ⟨pieces, m', by rw [lex_lineComment_char hself, hpieces], fun rest h => ?_⟩
    rw [List.cons_append, lex_lineComment_char (h.noLineEnd hl), hrest rest h.tail]

/-- **Nothing is joined within a line**; what comes after it must not begin a line end that its last
character is part of. -/
theorem splice_append {l tail : List Char} (hl : '\n' ∉ l)
    (hslash : l.getLast? = some '\\' → tail.head? ≠ some '\n' ∧ tail.head? ≠ some '\r')
    (hreturn : l.getLast? = some '\r' → tail.head? ≠ some '\n') :
    splice (l ++ tail) = l ++ splice tail := by
  induction l with
  | nil => rfl
  | cons c cs ih =>
    have hcs : '\n' ∉ cs := fun h => hl (List.mem_cons_of_mem c h)
    have hlast {x : Char} (h : cs.getLast? = some x) : (c :: cs).getLast? = some x :=
      Decidable.by_contra fun hne => getLast?_tail hne h
    have hn : ∀ r, c = '\\' → cs ++ tail ≠ '\n' :: r := by
      rintro r rfl h
      cases cs with
      | nil => exact (hslash rfl).1 (by rw [show tail = _ from h]; rfl)
      | cons d ds => exact hcs (by simp [(List.cons.inj h).1])
    have hr : ∀ r, c = '\\' → cs ++ tail ≠ '\r' :: '\n' :: r := by
      rintro r rfl h
      cases cs with
      | nil => exact (hslash rfl).2 (by rw [show tail = _ from h]; rfl)
      | cons d ds =>
        obtain ⟨rfl, htail⟩ := List.cons.inj h
        cases ds with
        | nil => exact hreturn rfl (by rw [show tail = _ from htail]; rfl)
        | cons d' ds => exact hcs (by simp [(List.cons.inj htail).1])
    rw [List.cons_append, splice, ih hcs (fun h => hslash (hlast h)) (fun h => hreturn (hlast h)),
      List.cons_append]
    · exact hn
    · exact hr

/-- A text without a line end is joined already. -/
theorem splice_of_newline_notMem {l : List Char} (hl : '\n' ∉ l) : splice l = l := by
  have happend : splice (l ++ []) = l ++ splice [] := splice_append hl (by simp) (by simp)
  rwa [splice, List.append_nil] at happend

/-! ### Comments -/

/-- A comment up to the end of the line is passed over up to there. -/
theorem lex_lineComment {l : List Char} (hl : '\n' ∉ l) :
    lex .lineComment l = [.ending .lineComment] := by
  induction l with
  | nil => simp [lex]
  | cons c cs ih =>
    simp only [List.mem_cons, not_or] at hl
    have hline : NoLineEnd c cs :=
      ⟨fun hc => hl.1 hc.symm, fun _ hn => hl.2 (List.mem_of_mem_head? hn)⟩
    rw [lex_lineComment_char hline, ih hl.2]

theorem head?_splitMarks (t : List Char) : (splitMarks t).head? = t.head? := by
  cases t with
  | nil => rfl
  | cons c cs =>
    rw [splitMarks.eq_def]
    split <;> simp_all

/-- A comment with its end marks taken apart is passed over up to its end. -/
theorem lex_blockComment_splitMarks {t : List Char} (ht : '\n' ∉ t) (rest : List Char) :
    lex .blockComment (splitMarks t ++ ' ' :: '*' :: '/' :: rest) = lex .code rest := by
  induction t using splitMarks.induct with
  | case1 cs ih =>
    simp only [List.mem_cons, not_or] at ht
    rw [splitMarks, List.cons_append, lex_blockComment_char (by simp [NoLineEnd]) (by simp),
      List.cons_append, lex_blockComment_char (by simp [NoLineEnd]) (by simp), List.cons_append,
      lex_blockComment_char (by simp [NoLineEnd]) (by simp), ih ht.2.2]
  | case2 c cs hmark ih =>
    simp only [List.mem_cons, not_or] at ht
    -- what comes next is the next character of the comment, or the blank before its end
    have hnext : ∀ x, x ≠ ' ' → cs.head? ≠ some x →
        (splitMarks cs ++ ' ' :: '*' :: '/' :: rest).head? ≠ some x := by
      intro x hx hcs
      rw [List.head?_append, head?_splitMarks]
      cases cs with
      | nil => simpa using hx.symm
      | cons d ds => simpa using hcs
    have hline : NoLineEnd c (splitMarks cs ++ ' ' :: '*' :: '/' :: rest) := by
      refine ⟨fun hc => ht.1 hc.symm, fun _ => hnext _ (by decide) fun hcs => ht.2 ?_⟩
      exact List.mem_of_mem_head? hcs
    have hstar : c = '*' → (splitMarks cs ++ ' ' :: '*' :: '/' :: rest).head? ≠ some '/' :=
      fun hc => hnext _ (by decide) (head?_ne_of_forall fun ds hds => hmark ds hc hds)
    rw [splitMarks, List.cons_append, lex_blockComment_char hline hstar, ih ht.2]
    exact hmark
  | case3 =>
    rw [splitMarks, List.nil_append, lex_blockComment_char (by simp [NoLineEnd]) (by simp),
      lex_blockComment_close]

end Header
end Marshal
