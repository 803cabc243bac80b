import Mathlib.Data.List.Basic
import Marshal.Proofs.Header.Lexer

/-!
# Continued code means what it meant

A text in which no line ends in a backslash or within a literal keeps its meaning when its lines
are continued: with the lines joined it is one line, no comment in it goes up to the end of the
line, and what a compiler sees of it is what it saw before, but for a blank at the end.

The lines are followed one by one.  Of one line, the scanner that closes its comment and the
reading of the text see the same pieces, up to the comment that is closed; and they agree on
whether a comment goes on after it.

## Main definitions

* `Scan.mode` — the mode the scanner is in.
* `Piece.closed` — a piece, with a comment that ends by itself.
* `LiteralsEnd` — no line of a text ends within a literal.
* `EndsLine` — what ends a line.
* `SeenAs` — what joined lines have to be for a text.

## Main results

* `lex_closeLine` — the pieces of a line whose comment is closed.
* `lines_induction` — induction along the lines of a text.
* `visible_splice_continued` — continued code means what it meant.
-/

namespace Marshal
namespace Header

/-- The mode that the scanner is in. -/
def Scan.mode : Scan → Mode
  | .code => .code
  | .quoted q => .literal q
  | .comment => .blockComment

/-- A piece, with a comment that ends by itself. -/
def Piece.closed : Piece → Piece
  | .opening _ => .opening .blockComment
  | p => p

@[simp] theorem seen_closed (p : Piece) : p.closed.seen = p.seen := by
  cases p <;> rfl

theorem flatMap_seen_closed (ps : List Piece) :
    (ps.map Piece.closed).flatMap Piece.seen = ps.flatMap Piece.seen := by
  rw [List.flatMap_map]
  exact List.flatMap_congr fun p _ => seen_closed p

theorem opening_lineComment_notMem_closed (ps : List Piece) :
    .opening .lineComment ∉ ps.map Piece.closed := by
  intro h
  obtain ⟨p, -, hp⟩ := List.mem_map.1 h
  cases p <;> simp [Piece.closed] at hp

/-- A piece that ends a line within a literal. -/
def Piece.cutsLiteral : Piece → Bool
  | .newline (.literal _) | .ending (.literal _) => true
  | _ => false

/-- No line ends within a literal. -/
def LiteralsEnd (m : Mode) (t : List Char) : Prop := ∀ p ∈ lex m t, p.cutsLiteral = false

instance (m : Mode) (t : List Char) : Decidable (LiteralsEnd m t) :=
  inferInstanceAs (Decidable (∀ p ∈ lex m t, p.cutsLiteral = false))

/-! ### One line -/

theorem newline_notMem_trimEnd {l : List Char} (h : '\n' ∉ l) : '\n' ∉ Text.trimEnd l := by
  intro hmem
  rw [Text.trimEnd, List.mem_reverse] at hmem
  exact h (List.mem_reverse.1 ((List.dropWhile_sublist _).subset hmem))

theorem newline_notMem_splitMarks {l : List Char} (h : '\n' ∉ l) : '\n' ∉ splitMarks l := by
  induction l using splitMarks.induct with
  | case1 cs ih => simp_all [splitMarks]
  | case2 c cs hmark ih =>
    rw [splitMarks]
    · simp_all
    · exact hmark
  | case3 => simp [splitMarks]

/-- A line stays a line. -/
theorem newline_notMem_closeLine (s : Scan) (l : List Char) (h : '\n' ∉ l) :
    '\n' ∉ (closeLine s l).1 := by
  fun_induction closeLine s l with
  | case8 cs =>
    simp only [List.mem_cons, not_or] at h
    have ht := newline_notMem_splitMarks (newline_notMem_trimEnd h.2.2)
    simp [closedComment, ht]
  | _ => simp_all

/-- The first character of a line stays. -/
theorem head?_closeLine (s : Scan) (l : List Char) : (closeLine s l).1.head? = l.head? := by
  -- each equation of the scan starts its result with the character that it has read
  fun_cases closeLine s l <;> rfl

/-- A character of a line begins no line end, neither in the line nor in what becomes of it. -/
theorem noLineEnd_of_head?_eq {c : Char} {cs out : List Char} (h : '\n' ∉ c :: cs)
    (hout : out.head? = cs.head?) : NoLineEnd c out := by
  simp only [List.mem_cons, not_or] at h
  exact ⟨fun hc => h.1 hc.symm, fun _ hn => h.2 (List.mem_of_mem_head? (hout ▸ hn))⟩

/-- **A line is read piece by piece as it was, once its comment is closed**; and the scanner knows
whether a comment goes on after it. -/
theorem lex_closeLine (s : Scan) (l : List Char) (hl : '\n' ∉ l) (hlast : l.getLast? ≠ some '\\') :
    ∃ pieces m, lex s.mode l = pieces ++ [.ending m] ∧
      lex s.mode (closeLine s l).1 = pieces.map Piece.closed ++ [.ending m.nextLine] ∧
      ((closeLine s l).2 ↔ m.nextLine = .blockComment) := by
  fun_induction closeLine s l with
  | case1 s =>
    refine ⟨[], s.mode, by simp [lex], ?_⟩
    cases s <;> simp [lex, Scan.mode, Mode.nextLine]
  | case2 cs out goesOn heq ih =>
    simp only [List.mem_cons, not_or] at hl
    rw [heq] at ih
    obtain ⟨pieces, m, hpieces, hclosed, hon⟩ := ih hl.2.2 (getLast?_tail (getLast?_tail hlast))
    refine ⟨pieces, m, ?_, ?_, hon⟩
    · exact (lex_blockComment_close cs).trans hpieces
    · exact (lex_blockComment_close out).trans hclosed
  | case3 c cs hmark out goesOn heq ih =>
    have hhead : out.head? = cs.head? := by simpa [heq] using head?_closeLine .comment cs
    rw [heq] at ih
    obtain ⟨pieces, m, hpieces, hclosed, hon⟩ :=
      ih (fun h => hl (List.mem_cons_of_mem c h)) (getLast?_tail hlast)
    have hstar : c = '*' → cs.head? ≠ some '/' := fun hc =>
      head?_ne_of_forall fun ds hds => hmark ds hc hds
    refine ⟨pieces, m, ?_, ?_, hon⟩
    · exact (lex_blockComment_char (noLineEnd_of_head?_eq hl rfl) hstar).trans hpieces
    · refine (lex_blockComment_char (noLineEnd_of_head?_eq hl hhead) ?_).trans hclosed
      rwa [hhead]
  | case4 q => exact absurd rfl hlast
  | case5 q c cs out goesOn heq ih =>
    simp only [List.mem_cons, not_or] at hl
    rw [heq] at ih
    obtain ⟨pieces, m, hpieces, hclosed, hon⟩ := ih hl.2.2 (getLast?_tail (getLast?_tail hlast))
    refine ⟨.char '\\' :: .char c :: pieces, m, ?_, ?_, hon⟩
    · exact (lex_literal_escape q c cs).trans (congrArg (.char '\\' :: .char c :: ·) hpieces)
    · exact (lex_literal_escape q c out).trans (congrArg (.char '\\' :: .char c :: ·) hclosed)
  | case6 q c cs hlone hescape out goesOn heq ih =>
    have hhead : out.head? = cs.head? := by
      simpa [heq] using head?_closeLine (if c = q then .code else .quoted q) cs
    rw [heq, apply_ite Scan.mode] at ih
    obtain ⟨pieces, m, hpieces, hclosed, hon⟩ :=
      ih (fun h => hl (List.mem_cons_of_mem c h)) (getLast?_tail hlast)
    -- a backslash at the end or before another character is one of the cases above
    have hc : c ≠ '\\' := by
      rintro rfl
      cases cs with
      | nil => exact hlone rfl rfl
      | cons d ds => exact hescape d ds rfl rfl
    refine ⟨.char c :: pieces, m, ?_, ?_, hon⟩
    · refine (lex_literal_char (noLineEnd_of_head?_eq hl rfl) hc).trans ?_
      exact congrArg (.char c :: ·) hpieces
    · refine (lex_literal_char (noLineEnd_of_head?_eq hl hhead) hc).trans ?_
      exact congrArg (.char c :: ·) hclosed
  | case7 cs out goesOn heq ih =>
    simp only [List.mem_cons, not_or] at hl
    rw [heq] at ih
    obtain ⟨pieces, m, hpieces, hclosed, hon⟩ := ih hl.2.2 (getLast?_tail (getLast?_tail hlast))
    refine ⟨.opening .blockComment :: pieces, m, ?_, ?_, hon⟩
    · exact (lex_code_block cs).trans (congrArg (.opening .blockComment :: ·) hpieces)
    · exact (lex_code_block out).trans (congrArg (.opening .blockComment :: ·) hclosed)
  | case8 cs =>
    -- the rest of the line is a comment, which is passed over in either form
    simp only [List.mem_cons, not_or] at hl
    have hend := lex_blockComment_splitMarks (newline_notMem_trimEnd hl.2.2) []
    refine ⟨[.opening .lineComment], .lineComment, ?_, ?_, by simp [Mode.nextLine]⟩
    · have hrest := lex_lineComment hl.2.2
      exact (lex_code_line cs).trans (congrArg (.opening .lineComment :: ·) hrest)
    · have hshape : closedComment cs =
          '/' :: '*' :: (splitMarks (Text.trimEnd cs) ++ [' ', '*', '/']) := by
        simp [closedComment]
      show lex .code (closedComment cs) = [.opening .blockComment, .ending .code]
      rw [hshape, lex_code_block, hend, lex]
  | case9 c cs hblock hline out goesOn heq ih =>
    have hhead : out.head? = cs.head? := by
      simpa [heq] using head?_closeLine (if c = '"' ∨ c = '\'' then .quoted c else .code) cs
    rw [heq, apply_ite Scan.mode] at ih
    obtain ⟨pieces, m, hpieces, hclosed, hon⟩ :=
      ih (fun h => hl (List.mem_cons_of_mem c h)) (getLast?_tail hlast)
    have hslash : c = '/' → cs.head? ≠ some '*' ∧ cs.head? ≠ some '/' := fun hc =>
      ⟨head?_ne_of_forall fun ds hds => hblock ds hc hds,
        head?_ne_of_forall fun ds hds => hline ds hc hds⟩
    refine ⟨.char c :: pieces, m, ?_, ?_, hon⟩
    · refine (lex_code_char (noLineEnd_of_head?_eq hl rfl) hslash).trans ?_
      exact congrArg (.char c :: ·) hpieces
    · refine (lex_code_char (noLineEnd_of_head?_eq hl hhead) ?_).trans ?_
      · rwa [hhead]
      · exact congrArg (.char c :: ·) hclosed

theorem closeLine_eq_nil_iff {s : Scan} {l : List Char} : (closeLine s l).1 = [] ↔ l = [] := by
  rw [← List.head?_eq_none_iff, head?_closeLine, List.head?_eq_none_iff]

/-- A line that does not end in a backslash does not get to end in one. -/
theorem getLast?_closeLine_ne (s : Scan) (l : List Char) (h : l.getLast? ≠ some '\\') :
    (closeLine s l).1.getLast? ≠ some '\\' := by
  have hprepend : ∀ (s : Scan) (head cs out : List Char) (goesOn : Bool),
      closeLine s cs = (out, goesOn) → (head ++ cs).getLast? ≠ some '\\' →
      (cs.getLast? ≠ some '\\' → (closeLine s cs).1.getLast? ≠ some '\\') →
      (head ++ out).getLast? ≠ some '\\' := by
    intro s head cs out goesOn heq h ih
    -- nothing is left of a line only if nothing was there
    have hiff : out = [] ↔ cs = [] := by simpa [heq] using closeLine_eq_nil_iff (s := s) (l := cs)
    rw [heq] at ih
    rw [List.getLast?_append] at h ⊢
    by_cases hout : out = []
    · rwa [hout, ← hiff.1 hout]
    · rw [List.getLast?_eq_some_getLast (fun hcs => hout (hiff.2 hcs)), Option.some_or] at h
      rw [List.getLast?_eq_some_getLast hout, Option.some_or, ← List.getLast?_eq_some_getLast]
      exact ih (by rwa [List.getLast?_eq_some_getLast])
  fun_induction closeLine s l with
  | case1 s => simp
  | case2 cs out goesOn heq ih => exact hprepend _ ['*', '/'] cs out goesOn heq h ih
  | case3 c cs _ out goesOn heq ih => exact hprepend _ [c] cs out goesOn heq h ih
  | case4 q => exact absurd rfl h
  | case5 q c cs out goesOn heq ih => exact hprepend _ ['\\', c] cs out goesOn heq h ih
  | case6 q c cs _ _ out goesOn heq ih => exact hprepend _ [c] cs out goesOn heq h ih
  | case7 cs out goesOn heq ih => exact hprepend _ ['/', '*'] cs out goesOn heq h ih
  | case8 cs =>
    show (closedComment cs).getLast? ≠ some '\\'
    rw [closedComment, List.getLast?_append, show [' ', '*', '/'].getLast? = some '/' from rfl,
      Option.some_or]
    decide
  | case9 c cs _ _ out goesOn heq ih => exact hprepend _ [c] cs out goesOn heq h ih

/-- **A line means what it meant once its comment is closed**, whatever comes after it. -/
theorem lex_closeLine_append (s : Scan) (l : List Char) (hl : '\n' ∉ l)
    (hlast : l.getLast? ≠ some '\\') :
    ∃ pieces m, (∀ rest, Stops l rest → lex s.mode (l ++ rest) = pieces ++ lex m rest) ∧
      (∀ rest, Stops (closeLine s l).1 rest →
        lex s.mode ((closeLine s l).1 ++ rest) = pieces.map Piece.closed ++ lex m.nextLine rest) ∧
      ((closeLine s l).2 ↔ m.nextLine = .blockComment) := by
  obtain ⟨pieces, m, hpieces, hclosed, hon⟩ := lex_closeLine s l hl hlast
  obtain ⟨ps, m', hps, hrest⟩ := lex_line s.mode l hl hlast
  obtain ⟨qs, n, hqs, hrest'⟩ := lex_line s.mode (closeLine s l).1 (newline_notMem_closeLine s l hl)
    (getLast?_closeLine_ne s l hlast)
  -- a line has its pieces only once
  obtain ⟨rfl, hm⟩ := List.append_inj' (hpieces.symm.trans hps) rfl
  obtain ⟨rfl, hn⟩ := List.append_inj' (hclosed.symm.trans hqs) rfl
  obtain rfl : m = m' := by simpa using hm
  obtain rfl : m.nextLine = n := by simpa using hn
  exact ⟨pieces, m, hrest, hrest', hon⟩

/-! ### The lines of a text -/

/-- What ends a line: a line feed, or a carriage return and a line feed. -/
def EndsLine (l e : List Char) : Prop :=
  e = ['\n'] ∧ l.getLast? ≠ some '\r' ∨ e = ['\r', '\n']

theorem EndsLine.stops {l e : List Char} (h : EndsLine l e) (rest : List Char) :
    Stops l (e ++ rest) := by
  rcases h with ⟨rfl, hl⟩ | rfl
  · exact ⟨by simp, by simp, fun _ => hl⟩
  · exact ⟨by simp, by simp, by simp⟩

theorem EndsLine.lex {l e : List Char} (h : EndsLine l e) (m : Mode) (rest : List Char) :
    lex m (e ++ rest) = .newline m :: Header.lex m.nextLine rest := by
  rcases h with ⟨rfl, -⟩ | rfl
  · exact lex_newline m rest
  · exact lex_return m rest

theorem EndsLine.lines {l e : List Char} (h : EndsLine l e) (hl : '\n' ∉ l) (rest : List Char) :
    Text.lines (l ++ e ++ rest) = l :: Text.lines rest := by
  rw [List.append_assoc]
  rcases h with ⟨rfl, hr⟩ | rfl
  · exact Text.lines_append_newline l rest hl hr
  · exact Text.lines_append_return l rest hl

/-- A text is followed line by line; only the last line may have no end. -/
theorem lines_induction {motive : List Char → Prop} (nil : motive [])
    (last : ∀ l, '\n' ∉ l → l ≠ [] → motive l)
    (line : ∀ l e rest, '\n' ∉ l → EndsLine l e → motive rest → motive (l ++ e ++ rest))
    (t : List Char) : motive t := by
  by_cases hn : '\n' ∈ t
  · obtain ⟨l, rest, ht, hl⟩ := List.eq_append_cons_of_mem hn
    have hlt : rest.length < t.length := by simp [ht]; omega
    have ih := lines_induction nil last line rest
    subst ht
    by_cases hr : l.getLast? = some '\r'
    · obtain ⟨l', rfl⟩ := List.getLast?_eq_some_iff.1 hr
      have hl' : '\n' ∉ l' := fun h => hl (List.mem_append_left _ h)
      simpa using line l' ['\r', '\n'] rest hl' (.inr rfl) ih
    · simpa using line l ['\n'] rest hl (.inl ⟨rfl, hr⟩) ih
  · by_cases hne : t = []
    · exact hne ▸ nil
    · exact last t hn hne
termination_by t.length

theorem splice_append_continuation {l : List Char} (hl : '\n' ∉ l) (rest : List Char) :
    splice (l ++ continuation ++ rest) = l ++ ' ' :: splice rest := by
  rw [List.append_assoc, splice_append hl (by simp [continuation]) (by simp [continuation])]
  simp [continuation, splice]

/-! ### The whole text -/

/-- Where the scanner is at the start of a line. -/
def Scan.atLine (inComment : Bool) : Scan := if inComment then .comment else .code

/-- A blank at the end of a line is seen as the line end was. -/
theorem lex_blank {m : Mode} (hm : ∀ q, m ≠ .literal q) (rest : List Char) :
    ∃ blank, lex m.nextLine (' ' :: rest) = blank ++ lex m.nextLine rest ∧
      blank.flatMap Piece.seen = (Piece.newline m).seen ∧ .opening .lineComment ∉ blank := by
  have hline : NoLineEnd ' ' rest := by simp [NoLineEnd]
  cases m with
  | literal q => exact absurd rfl (hm q)
  | blockComment =>
    exact ⟨[], lex_blockComment_char hline (by simp), by simp [Piece.seen], by simp⟩
  | code =>
    exact ⟨[.char ' '], lex_code_char hline (by simp), by simp [Piece.seen], by simp⟩
  | lineComment =>
    exact ⟨[.char ' '], lex_code_char hline (by simp), by simp [Piece.seen], by simp⟩

/-- The scanner starts the next line in the mode it left the line before in. -/
theorem mode_atLine {m : Mode} {goesOn : Bool} (hm : ∀ q, m ≠ .literal q)
    (hon : goesOn ↔ m.nextLine = .blockComment) : (Scan.atLine goesOn).mode = m.nextLine := by
  cases m with
  | literal q => exact absurd rfl (hm q)
  | _ => cases goesOn <;> simp_all [Scan.atLine, Scan.mode, Mode.nextLine]

theorem stops_blank (l rest : List Char) : Stops l (' ' :: rest) := by
  simp [Stops]

/-- Read in the same mode, `out` is one line without a comment up to its end, and is seen as `t`
is but for a blank at the end. -/
structure SeenAs (m : Mode) (out t : List Char) : Prop where
  oneLine : '\n' ∉ out
  noLineComment : .opening .lineComment ∉ lex m out
  seen : ∃ blanks, (blanks = [] ∨ blanks = [' ']) ∧ seenFrom m out = seenFrom m t ++ blanks

theorem seenAs_nil (m : Mode) : SeenAs m [] [] where
  oneLine := by simp
  noLineComment := by simp [lex]
  seen := ⟨[], .inl rfl, by simp⟩

/-- The last line, which gets a blank unless it ends within a comment. -/
theorem seenAs_last (s : Scan) {l : List Char} (hl : '\n' ∉ l) (hlast : l.getLast? ≠ some '\\')
    (hliteral : LiteralsEnd s.mode l) : SeenAs s.mode ((closeLine s l).1 ++ [' ']) l := by
  obtain ⟨pieces, m, hpieces, hclosed, -⟩ := lex_closeLine_append s l hl hlast
  -- the blank takes the place of a line end that is not there
  have hpieces := hpieces [] (by simp [Stops])
  rw [List.append_nil, lex] at hpieces
  have hm : ∀ q, m ≠ .literal q := by
    rintro q rfl
    exact Bool.noConfusion (hliteral (.ending (.literal q)) (by simp [hpieces]))
  obtain ⟨blank, hblank, hseen, hopen⟩ := lex_blank hm []
  have hlex := hclosed [' '] (stops_blank _ _)
  rw [hblank, lex] at hlex
  refine ⟨?_, ?_, (Piece.newline m).seen, ?_, ?_⟩
  · simp [newline_notMem_closeLine s l hl]
  · simp [hlex, opening_lineComment_notMem_closed, hopen]
  · cases m <;> simp [Piece.seen]
  · rw [seenFrom, seenFrom, hlex, hpieces]
    simp [flatMap_seen_closed, hseen, Piece.seen]

/-- **One line**: if the lines after it are seen as they were, so is it with them. -/
theorem seenAs_line (s : Scan) {l e out rest : List Char} (hl : '\n' ∉ l)
    (hlast : l.getLast? ≠ some '\\') (he : EndsLine l e)
    (hliteral : LiteralsEnd s.mode (l ++ e ++ rest))
    (ih : LiteralsEnd (Scan.atLine (closeLine s l).2).mode rest →
      SeenAs (Scan.atLine (closeLine s l).2).mode out rest) :
    SeenAs s.mode ((closeLine s l).1 ++ ' ' :: out) (l ++ e ++ rest) := by
  obtain ⟨pieces, m, hpieces, hclosed, hon⟩ := lex_closeLine_append s l hl hlast
  have hpieces := hpieces (e ++ rest) (he.stops rest)
  rw [he.lex, ← List.append_assoc] at hpieces
  rw [LiteralsEnd, hpieces] at hliteral
  have hm : ∀ q, m ≠ .literal q := by
    rintro q rfl
    exact Bool.noConfusion (hliteral (.newline (.literal q)) (by simp))
  -- the scanner and the reading go on in the same mode
  rw [mode_atLine hm hon] at ih
  obtain ⟨hnew, hopens, blanks, hblanks, hsees⟩ := ih fun p hp =>
    hliteral p (List.mem_append_right _ (List.mem_cons_of_mem _ hp))
  obtain ⟨blank, hblank, hseen, hopen⟩ := lex_blank hm out
  have hlex := hclosed _ (stops_blank _ out)
  rw [hblank] at hlex
  refine ⟨?_, ?_, blanks, hblanks, ?_⟩
  · simp [newline_notMem_closeLine s l hl, hnew]
  · simp [hlex, opening_lineComment_notMem_closed, hopen, hopens]
  · rw [seenFrom, seenFrom] at hsees
    rw [seenFrom, seenFrom, hlex, hpieces]
    simp [flatMap_seen_closed, hseen, hsees]

/-- **What becomes of the lines of a text is seen as the text was.** -/
theorem seenAs_continueLines (inComment : Bool) (t : List Char)
    (hslash : ∀ l ∈ Text.lines t, l.getLast? ≠ some '\\')
    (hliteral : LiteralsEnd (Scan.atLine inComment).mode t) :
    SeenAs (Scan.atLine inComment).mode (splice (continueLines inComment (Text.lines t))) t := by
  induction t using lines_induction generalizing inComment with
  | nil => exact seenAs_nil _
  | last l hl hne =>
    rw [Text.lines_of_newline_notMem hne hl] at hslash ⊢
    have hout : splice (continueLines inComment [l]) =
        (closeLine (Scan.atLine inComment) l).1 ++ [' '] :=
      splice_append_continuation (newline_notMem_closeLine _ l hl) []
    rw [hout]
    exact seenAs_last _ hl (hslash l (by simp)) hliteral
  | line l e rest hl he ih =>
    rw [he.lines hl] at hslash ⊢
    have hout : splice (continueLines inComment (l :: Text.lines rest)) =
        (closeLine (Scan.atLine inComment) l).1 ++ ' ' ::
          splice (continueLines (closeLine (Scan.atLine inComment) l).2 (Text.lines rest)) :=
      splice_append_continuation (newline_notMem_closeLine _ l hl) _
    rw [hout]
    exact seenAs_line _ hl (hslash l (by simp)) he hliteral
      (ih _ fun l' h => hslash l' (List.mem_cons_of_mem _ h))

/-- **Continued code means what it meant**: once its lines are joined it is one line, no comment in
it goes up to the end of the line, and what is seen of it is what was seen of the text, but for
blanks at the end. -/
theorem visible_splice_continued (text : String)
    (hslash : ∀ l ∈ Text.lines text.toList, l.getLast? ≠ some '\\')
    (hliteral : LiteralsEnd .code text.toList) :
    '\n' ∉ splice (continued text).toList ∧
    .opening .lineComment ∉ lex .code (splice (continued text).toList) ∧
    Text.trimEnd (visible (splice (continued text).toList)) =
      Text.trimEnd (visible text.toList) := by
  rw [continued, String.toList_ofList]
  obtain ⟨hnew, hopens, blanks, hblanks, hsees⟩ :=
    seenAs_continueLines false text.toList hslash hliteral
  refine ⟨hnew, hopens, ?_⟩
  rw [show visible _ = visible text.toList ++ blanks from hsees]
  rcases hblanks with rfl | rfl
  · rw [List.append_nil]
  · exact Text.trimEnd_append_blank _ (by decide)

/-- Marks in literals, in comments and across lines. -/
def marked : String :=
  "f('\"'); // it's */ so\r\n/* and // on\nto */ g(\"//\"); // last"

theorem visible_splice_continued_marked :
    ((∀ l ∈ Text.lines marked.toList, l.getLast? ≠ some '\\') ∧
      LiteralsEnd .code marked.toList) ∧
    continued marked = "f('\"'); /* it's * / so */ \\\n/* and // on \\\n" ++
      "to */ g(\"//\"); /* last */ \\\n" ∧
    '\n' ∉ splice (continued marked).toList ∧
    .opening .lineComment ∉ lex .code (splice (continued marked).toList) ∧
    Text.trimEnd (visible (splice (continued marked).toList)) =
      "f('\"');     g(\"//\");".toList := by
  have hslash : ∀ l ∈ Text.lines marked.toList, l.getLast? ≠ some '\\' := by decide
  have hliteral : LiteralsEnd .code marked.toList := by decide
  obtain ⟨hnew, hopens, hseen⟩ := visible_splice_continued marked hslash hliteral
  exact ⟨⟨hslash, hliteral⟩, by decide, hnew, hopens, hseen.trans (by decide)⟩

end Header
end Marshal
