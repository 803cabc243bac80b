import Mathlib.Data.List.Basic
import Marshal.Proofs.Header.Lexer

/-!
# How a compiler reads a text

Once lines are joined at backslashes, a compiler reads a text character by character.  An apostrophe
within a number separates digits and opens nothing; a raw literal ends at its own delimiter only.
By the **plain** rules, which know neither numbers nor names, every quote outside literals and
comments opens a literal.

What is read is told as the characters of the text, each with whether it stands in a comment.  The
marks that open and close comments are not told, so a slash, or a star in a comment, is held back
until the next character shows that it is no part of a mark.

## Main definitions

* `Rules`, `Reading`, `Reading.next`, `Reading.run` — reading a text.
* `Reading.told`, `Reading.contents` — what is read, with whether it stands in a comment.
* `Reading.AvoidsLines` — no comment is opened that goes up to the end of the line.
* `Reading.IsLexical` — a text whose literals and comments are closed where they have to be.

## Main results

* `Reading.told_append`, `Reading.run_append`, `Reading.avoidsLines_append` — reading a text in parts.
* `Reading.Calm.next`, `Reading.Ordinary.next` — only a mark opens a comment.
* `Reading.passes_splitMarks` — a comment without end marks is read up to its end.
-/

namespace Marshal
namespace Header

/-! ### Reading a text -/

/-- What is known of numbers and names. -/
inductive Rules where
  /-- Nothing. -/
  | plain
  /-- What a compiler knows. -/
  | compiler
  deriving DecidableEq, Repr, Inhabited

/-- What the characters read last are part of. -/
inductive Reading where
  /-- Nothing that goes on. -/
  | code
  /-- A slash, which opens a comment if a star or a slash comes next. -/
  | slash
  /-- A name, spelled backwards. -/
  | name (spelling : List Char)
  /-- A number. -/
  | number
  /-- A number and an apostrophe. -/
  | apostrophe
  /-- A literal, up to the given quote. -/
  | literal (quote : Char)
  /-- A literal, after a backslash. -/
  | escape (quote : Char)
  /-- The delimiter of a raw literal, spelled backwards. -/
  | delimiter (spelling : List Char)
  /-- A raw literal, with what was read since the last blank, spelled backwards. -/
  | raw (delimiter recent : List Char)
  /-- A comment, up to its end mark. -/
  | block
  /-- A comment, after a star. -/
  | star
  /-- A comment, up to the end of the line. -/
  | line
  deriving DecidableEq, Repr, Inhabited

/-- Whether a character may begin a name. -/
def startsName (c : Char) : Bool := c.isAlpha || c = '_' || 127 < c.toNat

/-- Whether a character may be part of a name, or of a number after its first digit. -/
def inName (c : Char) : Bool := startsName c || c.isDigit

/-- The names, spelled backwards, that make the literal after them a raw one. -/
def rawMarks : List (List Char) := [['R'], ['R', 'L'], ['R', 'u'], ['R', 'U'], ['R', '8', 'u']]

namespace Reading

/-- What a character begins where nothing goes on. -/
def begin (rules : Rules) (c : Char) : Reading :=
  if c = '/' then slash
  else if c = '"' ∨ c = '\'' then literal c
  else match rules with
    | .plain => code
    | .compiler => if c.isDigit then number else if startsName c then name [c] else code

/-- One character of a literal. -/
def nextInLiteral (quote c : Char) : Reading :=
  if c = '\\' then escape quote else if c = quote then code else literal quote

/-- Read one character. -/
def next (rules : Rules) : Reading → Char → Reading
  | code, c => begin rules c
  | slash, c => if c = '*' then block else if c = '/' then line else begin rules c
  | name spelling, c =>
      if inName c then name (c :: spelling)
      else if c = '"' ∧ spelling ∈ rawMarks then delimiter []
      else begin rules c
  | number, c =>
      if inName c ∨ c = '.' then number else if c = '\'' then apostrophe else begin rules c
  | apostrophe, c => if inName c then number else nextInLiteral '\'' c
  | literal quote, c => nextInLiteral quote c
  | escape quote, _ => literal quote
  | delimiter spelling, c =>
      -- no delimiter has a blank in it
      if c = '(' then raw spelling []
      else delimiter (if Text.isBlank c then spelling else c :: spelling)
  | raw spelling recent, c =>
      -- the end has no blank in it either, so what was read before one need not be kept
      if c = '"' ∧ recent.take (spelling.length + 1) = spelling ++ [')'] then code
      else if Text.isBlank c then raw spelling []
      else raw spelling (c :: recent)
  | block, c => if c = '*' then star else block
  | star, c => if c = '/' then code else if c = '*' then star else block
  | line, c => if c = '\n' then code else line

/-- Read a text. -/
def run (rules : Rules) (s : Reading) (cs : List Char) : Reading := cs.foldl (next rules) s

/-- Whether a character goes together with a slash before it to open a comment. -/
def Opens (s : Reading) (c : Char) : Prop := s = slash ∧ (c = '*' ∨ c = '/')

instance (s : Reading) (c : Char) : Decidable (s.Opens c) :=
  inferInstanceAs (Decidable (s = slash ∧ (c = '*' ∨ c = '/')))

/-- Whether what goes on is a comment. -/
def inComment : Reading → Bool
  | block | star | line => true
  | _ => false

/-- What goes on does not end with the line: it is no comment up to there, and no blank ends it. -/
def Ordinary : Reading → Prop
  | line => False
  | literal quote | escape quote => Text.isBlank quote = false
  | _ => True

/-- What goes on is no comment, and does not end with the line. -/
structure Calm (s : Reading) : Prop where
  ordinary : s.Ordinary
  inComment : s.inComment = false

/-- Whether what goes on is a literal that has to end before the line does. -/
def inLiteral : Reading → Bool
  | apostrophe | literal _ | escape _ | delimiter _ => true
  | _ => false

/-! ### What is read -/

/-- What is held back: a slash or star that may be part of a mark. -/
def held : Reading → List (Bool × Char)
  | slash => [(false, '/')]
  | star => [(true, '*')]
  | _ => []

/-- What reading one character tells. -/
def tells (rules : Rules) (s : Reading) (c : Char) : List (Bool × Char) :=
  if s.Opens c ∨ s = star ∧ c = '/' then []
  else s.held ++ if (s.next rules c).held = [] then [((s.next rules c).inComment, c)] else []

/-- What reading a text tells: its characters, each with whether it stands in a comment. -/
def told (rules : Rules) : Reading → List Char → List (Bool × Char)
  | _, [] => []
  | s, c :: cs => s.tells rules c ++ told rules (s.next rules c) cs

/-- Whether a character that is told is not blank. -/
def shows (p : Bool × Char) : Bool := !Text.isBlank p.2

/-- What a compiler reads in a text: its characters but for blanks, each with whether it stands in
a comment. -/
def contents (s : Reading) (cs : List Char) : List (Bool × Char) :=
  (s.told .compiler (cs ++ ['\n'])).filter shows

/-- No comment is opened that goes up to the end of the line. -/
def AvoidsLines (s : Reading) (cs : List Char) : Prop :=
  ∀ front, front <+: cs → s.run .compiler front ≠ line

/-- A text in which literals are closed before the line ends, and literals and comments before the
text does. -/
def IsLexical : Reading → List Char → Prop
  | s, [] => s.inLiteral = false ∧ s ≠ block ∧ s ≠ star ∧ ∀ d recent, s ≠ raw d recent
  | s, c :: cs => (c = '\n' → s.inLiteral = false) ∧ IsLexical (s.next .compiler c) cs

instance : ∀ s : Reading, Decidable (∀ d recent, s ≠ raw d recent)
  | raw d recent => .isFalse fun h => h d recent rfl
  | code | slash | name _ | number | apostrophe | literal _ | escape _ | delimiter _ | block | star
  | line => .isTrue fun _ _ h => by cases h

instance decidableIsLexical : ∀ (s : Reading) (cs : List Char), Decidable (IsLexical s cs)
  | s, [] => inferInstanceAs (Decidable (s.inLiteral = false ∧ s ≠ block ∧ s ≠ star ∧
      ∀ d recent, s ≠ raw d recent))
  | s, c :: cs =>
      have := decidableIsLexical (s.next .compiler c) cs
      inferInstanceAs (Decidable ((c = '\n' → s.inLiteral = false) ∧ _))

/-! ### Single steps -/

section

variable {rules : Rules} {s : Reading} {c : Char} {cs : List Char}

@[simp] theorem run_nil (rules : Rules) (s : Reading) : s.run rules [] = s := rfl

@[simp] theorem run_cons (rules : Rules) (s : Reading) (c : Char) (cs : List Char) :
    s.run rules (c :: cs) = (s.next rules c).run rules cs := rfl

theorem run_append (rules : Rules) (s : Reading) (as bs : List Char) :
    s.run rules (as ++ bs) = (s.run rules as).run rules bs := List.foldl_append

@[simp] theorem told_nil (rules : Rules) (s : Reading) : s.told rules [] = [] := rfl

@[simp] theorem told_cons (rules : Rules) (s : Reading) (c : Char) (cs : List Char) :
    s.told rules (c :: cs) = s.tells rules c ++ (s.next rules c).told rules cs := rfl

theorem told_append (rules : Rules) (s : Reading) (as bs : List Char) :
    s.told rules (as ++ bs) = s.told rules as ++ (s.run rules as).told rules bs := by
  induction as generalizing s with
  | nil => rfl
  | cons a as ih => simp [ih]

theorem contents_append (s : Reading) (as bs : List Char) :
    s.contents (as ++ bs) =
      (s.told .compiler as).filter shows ++ (s.run .compiler as).contents bs := by
  rw [contents, List.append_assoc, told_append, List.filter_append, ← contents]

@[simp] theorem avoidsLines_nil : s.AvoidsLines [] ↔ s ≠ line := by
  simp [AvoidsLines]

@[simp] theorem avoidsLines_cons :
    s.AvoidsLines (c :: cs) ↔ s ≠ line ∧ (s.next .compiler c).AvoidsLines cs := by
  constructor
  · intro h
    exact ⟨h [] List.nil_prefix, fun front hfront => h (c :: front) (List.cons_prefix_cons.2 ⟨rfl, hfront⟩)⟩
  · rintro ⟨hs, h⟩ front hfront
    cases front with
    | nil => exact hs
    | cons d front =>
      obtain ⟨rfl, hrest⟩ := List.cons_prefix_cons.1 hfront
      exact h front hrest

instance decidableAvoidsLines : ∀ (s : Reading) (cs : List Char), Decidable (s.AvoidsLines cs)
  | _, [] => decidable_of_iff _ avoidsLines_nil.symm
  | s, c :: cs =>
      have := decidableAvoidsLines (s.next .compiler c) cs
      decidable_of_iff _ avoidsLines_cons.symm

theorem avoidsLines_append (s : Reading) (as bs : List Char) :
    s.AvoidsLines (as ++ bs) ↔ s.AvoidsLines as ∧ (s.run .compiler as).AvoidsLines bs := by
  induction as generalizing s with
  | nil =>
    simp only [List.nil_append, avoidsLines_nil, run_nil, iff_and_self]
    exact fun h => h [] List.nil_prefix
  | cons a as ih => simp only [List.cons_append, avoidsLines_cons, ih, run_cons, and_assoc]

/-- In a comment the rules make no difference; it goes on or leads back to code. -/
theorem next_of_inComment (hs : s.inComment = true) (c : Char) :
    ∃ t, (t.inComment = true ∨ t = code) ∧ ∀ rules, s.next rules c = t := by
  refine ⟨s.next .plain c, ?_, fun rules => ?_⟩
  · cases s with
    | block => rw [next]; split <;> exact .inl rfl
    | star =>
      rw [next]
      split
      · exact .inr rfl
      · split <;> exact .inl rfl
    | line =>
      rw [next]
      split
      · exact .inr rfl
      · exact .inl rfl
    | _ => cases hs
  · cases s with
    | block | star | line => rfl
    | _ => cases hs

theorem next_of_opens (hc : s.Opens c) :
    ∃ t, t.inComment = true ∧ ∀ rules, s.next rules c = t := by
  obtain ⟨rfl, rfl | rfl⟩ := hc
  · exact ⟨block, rfl, fun _ => rfl⟩
  · exact ⟨line, rfl, fun _ => rfl⟩

theorem Ordinary.ne_line (hs : s.Ordinary) : s ≠ line := by
  rintro rfl
  exact hs

theorem calm_begin (rules : Rules) (c : Char) : (begin rules c).Calm := by
  unfold begin
  split
  · exact ⟨trivial, rfl⟩
  · split
    · rename_i hquote
      rcases hquote with rfl | rfl
      · exact ⟨(by decide : Text.isBlank '"' = false), rfl⟩
      · exact ⟨(by decide : Text.isBlank '\'' = false), rfl⟩
    · cases rules with
      | plain => exact ⟨trivial, rfl⟩
      | compiler =>
        dsimp only
        split
        · exact ⟨trivial, rfl⟩
        · split <;> exact ⟨trivial, rfl⟩

theorem calm_nextInLiteral {quote : Char} (h : Text.isBlank quote = false) (c : Char) :
    (nextInLiteral quote c).Calm := by
  unfold nextInLiteral
  split
  · exact ⟨h, rfl⟩
  · split
    · exact ⟨trivial, rfl⟩
    · exact ⟨h, rfl⟩

/-- **Only a mark opens a comment.** -/
theorem Calm.next (hs : s.Calm) (rules : Rules) (hc : ¬ s.Opens c) : (s.next rules c).Calm := by
  obtain ⟨hordinary, hcomment⟩ := hs
  cases s with
  | code => exact calm_begin rules c
  | slash =>
    have hstar : c ≠ '*' := fun h => hc ⟨rfl, .inl h⟩
    have hslash : c ≠ '/' := fun h => hc ⟨rfl, .inr h⟩
    rw [Reading.next, if_neg hstar, if_neg hslash]
    exact calm_begin rules c
  | name spelling =>
    rw [Reading.next]
    split
    · exact ⟨trivial, rfl⟩
    · split
      · exact ⟨trivial, rfl⟩
      · exact calm_begin rules c
  | number =>
    rw [Reading.next]
    split
    · exact ⟨trivial, rfl⟩
    · split
      · exact ⟨trivial, rfl⟩
      · exact calm_begin rules c
  | apostrophe =>
    rw [Reading.next]
    split
    · exact ⟨trivial, rfl⟩
    · exact calm_nextInLiteral (by decide) c
  | literal quote => exact calm_nextInLiteral hordinary c
  | escape quote => exact ⟨hordinary, rfl⟩
  | delimiter spelling =>
    rw [Reading.next]
    split
    · exact ⟨trivial, rfl⟩
    · exact ⟨trivial, rfl⟩
  | raw spelling recent =>
    rw [Reading.next]
    split
    · exact ⟨trivial, rfl⟩
    · split <;> exact ⟨trivial, rfl⟩
  | block => cases hcomment
  | star => cases hcomment
  | line => cases hcomment

/-- Only two slashes open a comment up to the end of the line. -/
theorem Ordinary.next (hs : s.Ordinary) (rules : Rules) (hc : ¬ (s = slash ∧ c = '/')) :
    (s.next rules c).Ordinary := by
  by_cases hopens : s.Opens c
  · obtain ⟨rfl, rfl | rfl⟩ := hopens
    · exact trivial
    · exact absurd ⟨rfl, rfl⟩ hc
  · by_cases hcomment : s.inComment = true
    · cases s with
      | block => rw [Reading.next]; split <;> exact trivial
      | star =>
        rw [Reading.next]
        split
        · exact trivial
        · split <;> exact trivial
      | line => exact hs.elim
      | _ => cases hcomment
    · exact (Calm.next ⟨hs, Bool.eq_false_iff.2 hcomment⟩ rules hopens).ordinary

end

/-! ### Reading without comments up to the end of the line -/

/-- A text is read without a comment that goes up to the end of the line; where that leads, and what
it tells but for blanks. -/
structure Passes (s : Reading) (cs : List Char) (s' : Reading) (parts : List (Bool × Char)) :
    Prop where
  run : s.run .compiler cs = s'
  told : (s.told .compiler cs).filter shows = parts
  avoidsLines : s.AvoidsLines cs

section

variable {s s' s'' : Reading} {c : Char} {as bs cs t : List Char} {ps qs : List (Bool × Char)}

theorem Passes.append (h : Passes s as s' ps) (h' : Passes s' bs s'' qs) :
    Passes s (as ++ bs) s'' (ps ++ qs) where
  run := by rw [run_append, h.run, h'.run]
  told := by rw [told_append, List.filter_append, h.told, h.run, h'.told]
  avoidsLines := (avoidsLines_append s as bs).2 ⟨h.avoidsLines, h.run ▸ h'.avoidsLines⟩

theorem Passes.cons (hs : s ≠ line) (h : Passes (s.next .compiler c) cs s' ps) :
    Passes s (c :: cs) s' ((s.tells .compiler c).filter shows ++ ps) where
  run := h.run
  told := by rw [told_cons, List.filter_append, h.told]
  avoidsLines := avoidsLines_cons.2 ⟨hs, h.avoidsLines⟩

theorem passes_singleton (hs : s ≠ line) (hnext : s.next .compiler c ≠ line) :
    Passes s [c] (s.next .compiler c) ((s.tells .compiler c).filter shows) where
  run := rfl
  told := by simp
  avoidsLines := by simp [hs, hnext]

theorem Passes.contents (h : Passes s as s' ps) (bs : List Char) :
    s.contents (as ++ bs) = ps ++ s'.contents bs := by
  rw [contents_append, h.told, h.run]

/-- The characters of a text that are not blank, as those of a comment. -/
def remark (t : List Char) : List (Bool × Char) := (t.filter (!Text.isBlank ·)).map (true, ·)

theorem remark_cons (c : Char) (t : List Char) :
    remark (c :: t) = [(true, c)].filter shows ++ remark t := by
  unfold remark shows
  cases h : Text.isBlank c <;> simp [h]

theorem filter_dropWhile_isBlank (t : List Char) :
    (t.dropWhile Text.isBlank).filter (!Text.isBlank ·) = t.filter (!Text.isBlank ·) := by
  induction t with
  | nil => rfl
  | cons c t ih =>
    rw [List.dropWhile_cons]
    split
    · rename_i hc
      rw [ih, List.filter_cons_of_neg (by simp [hc])]
    · rfl

/-- The blanks at the end of a comment are not shown. -/
theorem remark_trimEnd (t : List Char) : remark (Text.trimEnd t) = remark t := by
  rw [remark, remark, Text.trimEnd, List.filter_reverse, filter_dropWhile_isBlank,
    ← List.filter_reverse, List.reverse_reverse]

/-- **A comment with its end marks taken apart is read up to its end**, also after a star, if that
does not make an end mark. -/
theorem passes_splitMarks (t : List Char) :
    Passes block (splitMarks t ++ [' ']) block (remark t) ∧
    (t.head? ≠ some '/' → Passes star (splitMarks t ++ [' ']) block ((true, '*') :: remark t)) := by
  induction t using splitMarks.induct with
  | case1 cs ih =>
    -- the star and the slash are told one by one
    have hslash : Passes block ('/' :: (splitMarks cs ++ [' '])) block ((true, '/') :: remark cs) :=
      Passes.cons (by decide) ih.1
    have hblank : Passes star (' ' :: '/' :: (splitMarks cs ++ [' '])) block
        ((true, '*') :: (true, '/') :: remark cs) := Passes.cons (by decide) hslash
    exact ⟨Passes.cons (by decide) hblank, fun _ => Passes.cons (by decide) hblank⟩
  | case2 c cs hmark ih =>
    rw [splitMarks.eq_2 c cs hmark, remark_cons]
    by_cases hc : c = '*'
    · subst hc
      have hhead : cs.head? ≠ some '/' := head?_ne_of_forall fun ds hds => hmark ds rfl hds
      exact ⟨Passes.cons (by decide) (ih.2 hhead), fun _ => Passes.cons (by decide) (ih.2 hhead)⟩
    · have hblock : block.next .compiler c = block := by simp [next, hc]
      have htells : block.tells .compiler c = [(true, c)] := by
        simp [tells, hblock, held, Opens, inComment]
      refine ⟨?_, fun hhead => ?_⟩
      · rw [← htells]
        exact Passes.cons (by decide) (hblock.symm ▸ ih.1)
      · have hslash : c ≠ '/' := fun h => hhead (by rw [h]; rfl)
        have hstar : star.next .compiler c = block := by simp [next, hc, hslash]
        have htells : star.tells .compiler c = [(true, '*'), (true, c)] := by
          simp [tells, hstar, held, Opens, inComment, hslash]
        have hrest : Passes (star.next .compiler c) (splitMarks cs ++ [' ']) block (remark cs) := by
          rw [hstar]
          exact ih.1
        have hpasses := Passes.cons (s := star) (by decide) hrest
        rw [htells] at hpasses
        exact hpasses
  | case3 => exact ⟨passes_singleton (by decide) (by decide), fun _ => passes_singleton (by decide) (by decide)⟩

/-- **A comment up to the end of the line is read up to there.** -/
theorem run_line (h : '\n' ∉ t) : line.run .compiler t = line := by
  induction t with
  | nil => rfl
  | cons c cs ih =>
    simp only [List.mem_cons, not_or] at h
    rw [run_cons, show line.next .compiler c = line by simp [next, Ne.symm h.1], ih h.2]

theorem told_line (h : '\n' ∉ t) : (line.told .compiler t).filter shows = remark t := by
  induction t with
  | nil => rfl
  | cons c cs ih =>
    simp only [List.mem_cons, not_or] at h
    have hline : line.next .compiler c = line := by simp [next, Ne.symm h.1]
    have htells : line.tells .compiler c = [(true, c)] := by
      simp [tells, hline, held, Opens, inComment]
    rw [told_cons, List.filter_append, hline, ih h.2, htells, remark_cons]

end

end Reading

end Header
end Marshal
