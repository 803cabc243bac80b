import Marshal.Proofs.Header.Continued
import Marshal.Proofs.Header.Reading

/-!
# Comments stay comments

A scanner that follows the compiler's reading of a line closes the comment that the compiler sees.
The scanner at hand follows the plain rules and starts every line afresh, outside of literals and
comments up to the end of the line; so it does the same exactly as far as both readings open the
same comments.  Where they do, what stood in a comment stands in one once the code is continued,
and no comment goes up to the end of the line.  A number with one separator, a literal that goes on
over a line end, or a comment up to the end of the line that does, is enough for them to differ.

## Main definitions

* `Reading.close` — a line with the comment closed that a reading opens.
* `Reading.SameComments` — two readings of a line open the same comments.
* `Reading.Agreed` — the readings of all lines of a text open the same comments.
* `Reading.Kept`, `Reading.ReadAs` — what joined lines have to be for a text.

## Main results

* `closeLine_eq` — the scanner closes the comment that the plain reading opens.
* `Reading.close_congr` — readings that open the same comments close them alike.
* `Reading.passes_close` — a line with its comment closed is read as it was.
* `contents_splice_continued` — comments stay comments.
* `splice_continued_differs` — not where the readings differ.
-/

namespace Marshal
namespace Header

/-! ### Joined lines -/

section

variable {l e : List Char}

theorem EndsLine.eq_or (h : EndsLine l e) : e = ['\n'] ∨ e = ['\r', '\n'] := h.imp And.left id

/-- A line that ends in no backslash is joined to nothing. -/
theorem EndsLine.splice (h : EndsLine l e) (hl : '\n' ∉ l) (hlast : l.getLast? ≠ some '\\')
    (rest : List Char) : Header.splice (l ++ e ++ rest) = l ++ e ++ Header.splice rest := by
  rw [List.append_assoc, List.append_assoc, splice_append hl (fun h => absurd h hlast)]
  · rcases h with ⟨rfl, -⟩ | rfl <;> simp [Header.splice]
  · rcases h with ⟨rfl, hreturn⟩ | rfl
    · exact fun h => absurd h hreturn
    · simp

/-- A line that ends in a backslash is joined to the next. -/
theorem EndsLine.splice_backslash (h : EndsLine (l ++ ['\\']) e) (hl : '\n' ∉ l ++ ['\\'])
    (rest : List Char) : Header.splice (l ++ ['\\'] ++ e ++ rest) = l ++ Header.splice rest := by
  have hfront : '\n' ∉ l := fun h => hl (List.mem_append_left _ h)
  rw [List.append_assoc, List.append_assoc, splice_append hfront (by simp) (by simp)]
  rcases h.eq_or with rfl | rfl <;> simp [Header.splice]

end

namespace Reading

/-! ### Closing the comment of a line -/

/-- Whether a comment goes on after the line. -/
def goesOn : Reading → Bool
  | block | star => true
  | _ => false

/-- A line with the comment closed that a reading opens up to the end of the line, and whether a
comment goes on after it. -/
def close (rules : Rules) : Reading → List Char → List Char × Bool
  | s, [] => ([], s.goesOn)
  | s, c :: cs =>
      if s = slash ∧ c = '/' then ('*' :: (splitMarks (Text.trimEnd cs) ++ [' ', '*', '/']), false)
      else (c :: (close rules (s.next rules c) cs).1, (close rules (s.next rules c) cs).2)

section

variable {rules : Rules} {s p : Reading} {c : Char} {cs l : List Char}

theorem close_cons (h : ¬ (s = slash ∧ c = '/')) :
    close rules s (c :: cs) =
      (c :: (close rules (s.next rules c) cs).1, (close rules (s.next rules c) cs).2) := by
  rw [close, if_neg h]

/-- A slash that opens no comment is passed over. -/
theorem close_slash (hstar : cs.head? ≠ some '*') (hslash : cs.head? ≠ some '/') :
    close rules slash cs = close rules code cs := by
  cases cs with
  | nil => rfl
  | cons c cs =>
    have hc : c ≠ '/' := fun h => hslash (by rw [h]; rfl)
    have hc' : c ≠ '*' := fun h => hstar (by rw [h]; rfl)
    have hnext : slash.next rules c = code.next rules c := by simp [next, hc, hc']
    rw [close_cons (by simp [hc]), close_cons (by simp), hnext]

/-- A star that closes no comment is passed over. -/
theorem close_star (hslash : cs.head? ≠ some '/') :
    close rules star cs = close rules block cs := by
  cases cs with
  | nil => rfl
  | cons c cs =>
    have hc : c ≠ '/' := fun h => hslash (by rw [h]; rfl)
    have hnext : star.next rules c = block.next rules c := by simp [next, hc]
    rw [close_cons (by simp), close_cons (by simp), hnext]

end

end Reading

/-- What the scanner takes the characters it has read to be part of. -/
def Scan.reading : Scan → Reading
  | .code => .code
  | .quoted q => .literal q
  | .comment => .block

/-- **The scanner closes the comment that the plain reading opens.** -/
theorem closeLine_eq (scan : Scan) (l : List Char) :
    closeLine scan l = scan.reading.close .plain l := by
  fun_induction closeLine scan l with
  | case1 scan => cases scan <;> rfl
  | case2 cs out goesOn heq ih =>
    rw [Scan.reading, Reading.close_cons (by simp),
      show Reading.block.next .plain '*' = .star from rfl, Reading.close_cons (by simp),
      show Reading.star.next .plain '/' = .code from rfl, ← Scan.reading, ← ih, heq]
  | case3 c cs hmark out goesOn heq ih =>
    rw [Scan.reading, Reading.close_cons (by simp)]
    by_cases hc : c = '*'
    · subst hc
      have hhead : cs.head? ≠ some '/' := head?_ne_of_forall fun ds hds => hmark ds rfl hds
      rw [show Reading.block.next .plain '*' = .star from rfl, Reading.close_star hhead,
        ← Scan.reading, ← ih, heq]
    · rw [show Reading.block.next .plain c = .block by simp [Reading.next, hc], ← Scan.reading,
        ← ih, heq]
  | case4 q ih => rfl
  | case5 q c cs out goesOn heq ih =>
    rw [Scan.reading, Reading.close_cons (by simp),
      show (Reading.literal q).next .plain '\\' = .escape q from rfl, Reading.close_cons (by simp),
      show (Reading.escape q).next .plain c = .literal q from rfl, ← Scan.reading, ← ih, heq]
  | case6 q c cs hlone hescape out goesOn heq ih =>
    -- a backslash at the end or before another character is one of the cases above
    have hc : c ≠ '\\' := by
      rintro rfl
      cases cs with
      | nil => exact hlone rfl rfl
      | cons d ds => exact hescape d ds rfl rfl
    have hnext : (Reading.literal q).next .plain c =
        (if c = q then Scan.code else .quoted q).reading := by
      rw [Reading.next, Reading.nextInLiteral, if_neg hc, apply_ite Scan.reading]
      rfl
    rw [Scan.reading, Reading.close_cons (by simp), hnext, ← ih, heq]
  | case7 cs out goesOn heq ih =>
    rw [Scan.reading, Reading.close_cons (by simp),
      show Reading.code.next .plain '/' = .slash from rfl, Reading.close_cons (by simp),
      show Reading.slash.next .plain '*' = .block from rfl, ← Scan.reading, ← ih, heq]
  | case8 cs =>
    rw [Scan.reading, Reading.close_cons (by simp),
      show Reading.code.next .plain '/' = .slash from rfl, Reading.close, if_pos ⟨rfl, rfl⟩]
    rfl
  | case9 c cs hblock hline out goesOn heq ih =>
    rw [Scan.reading, Reading.close_cons (by simp)]
    by_cases hc : c = '/'
    · subst hc
      rw [show Reading.code.next .plain '/' = .slash from rfl,
        Reading.close_slash (head?_ne_of_forall fun ds hds => hblock ds rfl hds)
          (head?_ne_of_forall fun ds hds => hline ds rfl hds)]
      have hcode : (if '/' = '"' ∨ '/' = '\'' then Scan.quoted '/' else .code) = .code := rfl
      rw [hcode] at heq ih
      rw [← Scan.reading, ← ih, heq]
    · have hnext : Reading.code.next .plain c =
          (if c = '"' ∨ c = '\'' then Scan.quoted c else .code).reading := by
        rw [Reading.next, Reading.begin, if_neg hc, apply_ite Scan.reading]
        rfl
      rw [hnext, ← ih, heq]

/-! ### Readings that agree -/

namespace Reading

/-- Two readings of a line, by the rules of a compiler and by the plain ones, open the same
comments. -/
def SameComments : Reading → Reading → List Char → Prop
  | _, _, [] => True
  | s, p, c :: cs => (s.Opens c ↔ p.Opens c) ∧ SameComments (s.next .compiler c) (p.next .plain c) cs

instance decidableSameComments : ∀ (s p : Reading) (cs : List Char), Decidable (SameComments s p cs)
  | _, _, [] => inferInstanceAs (Decidable True)
  | s, p, c :: cs =>
      have := decidableSameComments (s.next .compiler c) (p.next .plain c) cs
      inferInstanceAs (Decidable ((s.Opens c ↔ p.Opens c) ∧ _))

/-- Two readings are in the same comment, or both in none. -/
def Together (s p : Reading) : Prop := s.inComment = true ∧ s = p ∨ s.Calm ∧ p.Calm

section

variable {s p : Reading} {c : Char} {l : List Char}

/-- Readings that open the same comments leave them together. -/
theorem Together.next (h : Together s p) (hopens : s.Opens c ↔ p.Opens c) :
    Together (s.next .compiler c) (p.next .plain c) := by
  by_cases hs : s.Opens c
  · obtain ⟨hslash, -⟩ := hopens.1 hs
    obtain ⟨t, ht, hnext⟩ := next_of_opens hs
    have heq : p.next .plain c = t := by rw [hslash, ← hs.1, hnext]
    exact .inl ⟨by rw [hnext, ht], by rw [hnext, heq]⟩
  · rcases h with ⟨hcomment, rfl⟩ | ⟨hcalm, hcalm'⟩
    · obtain ⟨t, ht, hnext⟩ := next_of_inComment hcomment c
      rw [hnext, hnext]
      rcases ht with ht | rfl
      · exact .inl ⟨ht, rfl⟩
      · exact .inr ⟨⟨trivial, rfl⟩, trivial, rfl⟩
    · exact .inr ⟨hcalm.next _ hs, hcalm'.next _ fun h => hs (hopens.2 h)⟩

theorem Calm.goesOn_eq (h : s.Calm) : s.goesOn = false := by
  obtain ⟨-, hcomment⟩ := h
  cases s with
  | block => cases hcomment
  | star => cases hcomment
  | _ => rfl

theorem Together.goesOn_eq (h : Together s p) : s.goesOn = p.goesOn := by
  rcases h with ⟨-, rfl⟩ | ⟨hs, hp⟩
  · rfl
  · rw [hs.goesOn_eq, hp.goesOn_eq]

/-- **Readings that open the same comments close them alike.** -/
theorem close_congr (h : Together s p) (hsame : SameComments s p l) :
    close .compiler s l = close .plain p l := by
  induction l generalizing s p with
  | nil => rw [close, close, h.goesOn_eq]
  | cons c cs ih =>
    obtain ⟨hopens, hrest⟩ := hsame
    by_cases hc : s = slash ∧ c = '/'
    · have hp : p.Opens c := hopens.1 ⟨hc.1, .inr hc.2⟩
      rw [close, if_pos hc, close, if_pos ⟨hp.1, hc.2⟩]
    · have hp : ¬ (p = slash ∧ c = '/') := fun hp => hc ⟨(hopens.2 ⟨hp.1, .inr hp.2⟩).1, hp.2⟩
      rw [close_cons hc, close_cons hp, ih (h.next hopens) hrest]

end

/-! ### The end of a line -/

/-- What goes on over a line end in a text whose lines are joined, so that nothing is cut. -/
def IsWhole : Reading → Prop
  | code | literal _ | block => True
  | _ => False

section

variable {s : Reading} {c : Char} {e l : List Char}

theorem shows_held (s : Reading) : s.held.filter shows = s.held := by
  cases s <;> rfl

/-- A blank tells what was held back. -/
theorem tells_blank (s : Reading) (hc : Text.isBlank c = true) :
    (s.tells .compiler c).filter shows = s.held := by
  have hmark : ¬ (s.Opens c ∨ s = star ∧ c = '/') := by
    rintro (⟨-, rfl | rfl⟩ | ⟨-, rfl⟩) <;> exact absurd hc (by decide)
  have hnone : (if (s.next .compiler c).held = [] then [((s.next .compiler c).inComment, c)]
      else []).filter shows = [] := by
    split <;> simp [shows, hc]
  rw [tells, if_neg hmark, List.filter_append, shows_held, hnone, List.append_nil]

/-- A blank at the end of a line is read as the line end is. -/
theorem next_blank (hs : s.Ordinary) (hc : c = ' ' ∨ c = '\r') :
    s.next .compiler c = s.next .compiler '\n' := by
  cases s with
  | literal quote =>
    -- the quote is no blank, so neither of them ends the literal
    have hquote (d : Char) (hd : Text.isBlank d = true) : d ≠ quote := by
      rintro rfl
      exact Bool.noConfusion (hd.symm.trans hs)
    rcases hc with rfl | rfl
    · simp [next, nextInLiteral, hquote ' ' rfl, hquote '\n' rfl]
    · simp [next, nextInLiteral, hquote '\r' rfl, hquote '\n' rfl]
  | line => exact hs.elim
  | _ => rcases hc with rfl | rfl <;> rfl

/-- Once a line has ended, what goes on is ordinary, and no star or slash is held back. -/
theorem ordinary_newline (hs : s.Ordinary ∨ s = line) : (s.next .compiler '\n').Ordinary := by
  rcases hs with hs | rfl
  · exact hs.next _ (by simp)
  · exact trivial

theorem held_newline (s : Reading) : (s.next .compiler '\n').held = [] := by
  cases s with
  | literal quote =>
    rw [next, nextInLiteral, if_neg (by decide)]
    split <;> rfl
  | _ => rfl

/-- A second line end changes nothing. -/
theorem next_newline (hs : s.Ordinary ∨ s = line) :
    (s.next .compiler '\n').next .compiler '\n' = s.next .compiler '\n' := by
  rcases hs with hs | rfl
  · cases s with
    | literal quote | escape quote =>
      have hquote : '\n' ≠ quote := by
        rintro rfl
        cases hs
      simp [next, nextInLiteral, hquote]
    | line => exact hs.elim
    | _ => rfl
  · rfl

theorem ordinary_run (hs : s.Ordinary) (hl : '\n' ∉ l) :
    (s.run .compiler l).Ordinary ∨ s.run .compiler l = line := by
  induction l generalizing s with
  | nil => exact .inl hs
  | cons c cs ih =>
    simp only [List.mem_cons, not_or] at hl
    by_cases hc : s = slash ∧ c = '/'
    · obtain ⟨rfl, rfl⟩ := hc
      exact .inr (run_line hl.2)
    · exact ih (hs.next _ hc) hl.2

/-- A line end is read the same way with and without a carriage return. -/
theorem run_lineEnd (hs : s.Ordinary ∨ s = line) (he : e = ['\n'] ∨ e = ['\r', '\n']) :
    s.run .compiler e = s.next .compiler '\n' := by
  rcases he with rfl | rfl
  · rfl
  · rcases hs with hs | rfl
    · rw [run_cons, next_blank hs (.inr rfl), run_cons, next_newline (.inl hs), run_nil]
    · rfl

theorem told_lineEnd (hs : s.Ordinary ∨ s = line) (he : e = ['\n'] ∨ e = ['\r', '\n']) :
    (s.told .compiler e).filter shows = s.held := by
  rcases he with rfl | rfl
  · rw [told_cons, told_nil, List.append_nil, tells_blank s (by decide)]
  · rcases hs with hs | rfl
    · rw [told_cons, told_cons, told_nil, List.append_nil, List.filter_append,
        tells_blank s (by decide), tells_blank _ (by decide), next_blank hs (.inr rfl), held_newline,
        List.append_nil]
    · rfl

/-! ### One line -/

/-- **A line with its comment closed is read as it was**, with a blank for its end. -/
theorem passes_close (hs : s.Ordinary) (hl : '\n' ∉ l) :
    Passes s ((close .compiler s l).1 ++ [' ']) ((s.run .compiler l).next .compiler '\n')
      ((s.told .compiler l).filter shows ++ (s.run .compiler l).held) := by
  induction l generalizing s with
  | nil =>
    have hnext := next_blank hs (.inl rfl)
    have hpasses := passes_singleton hs.ne_line
      (hnext ▸ (ordinary_newline (.inl hs)).ne_line : s.next .compiler ' ' ≠ line)
    rw [tells_blank s (by decide), hnext] at hpasses
    exact hpasses
  | cons c cs ih =>
    simp only [List.mem_cons, not_or] at hl
    by_cases hc : s = slash ∧ c = '/'
    · -- the rest of the line is a comment, which is read up to its end in either form
      obtain ⟨rfl, rfl⟩ := hc
      have hbody := (passes_splitMarks (Text.trimEnd cs)).1
      have hstar : Passes block ['*', '/'] code [] := ⟨rfl, rfl, by decide⟩
      have hblank : Passes code [' '] code [] := ⟨rfl, rfl, by decide⟩
      have hline : (slash.told .compiler ('/' :: cs)).filter shows = remark cs := told_line hl.2
      have hcomment := Passes.cons (s := slash) (c := '*') (by decide)
        ((hbody.append hstar).append hblank)
      rw [remark_trimEnd, List.append_nil, List.append_nil] at hcomment
      have hclose : (close .compiler slash ('/' :: cs)).1 ++ [' '] =
          '*' :: (splitMarks (Text.trimEnd cs) ++ [' '] ++ ['*', '/'] ++ [' ']) := by
        simp [close]
      have hrun : slash.run .compiler ('/' :: cs) = line := run_line hl.2
      rw [hclose, hline, hrun, show line.held = [] from rfl, List.append_nil]
      exact hcomment
    · rw [close_cons hc]
      have hpasses := Passes.cons (c := c) hs.ne_line (ih (hs.next _ hc) hl.2)
      rw [← List.append_assoc, ← List.filter_append] at hpasses
      exact hpasses

theorem close_snd (hs : s.Ordinary) (hl : '\n' ∉ l) :
    (close .compiler s l).2 = ((s.run .compiler l).next .compiler '\n').goesOn := by
  induction l generalizing s with
  | nil =>
    show s.goesOn = (s.next .compiler '\n').goesOn
    by_cases hcomment : s.inComment = true
    · cases s with
      | block => rfl
      | star => rfl
      | line => exact hs.elim
      | _ => cases hcomment
    · have hcalm : s.Calm := ⟨hs, Bool.eq_false_iff.2 hcomment⟩
      rw [hcalm.goesOn_eq, (hcalm.next _ (by simp [Opens])).goesOn_eq]
  | cons c cs ih =>
    simp only [List.mem_cons, not_or] at hl
    by_cases hc : s = slash ∧ c = '/'
    · obtain ⟨rfl, rfl⟩ := hc
      rw [close, if_pos ⟨rfl, rfl⟩, run_cons, show slash.next .compiler '/' = line from rfl,
        run_line hl.2]
      rfl
    · rw [close_cons hc, ih (hs.next _ hc) hl.2, run_cons]

end

/-! ### The lines of a text -/

/-- Where a reading that starts every line afresh is on the next line. -/
def lineStart (s : Reading) : Reading := if s.goesOn then block else code

/-- What goes on when a line starts: nothing is held back. -/
structure StartsLine (s : Reading) : Prop where
  ordinary : s.Ordinary
  held : s.held = []

/-- The plain reading of each line of a text opens the comments that a compiler's reading of the
text opens, and where lines are joined nothing is cut. -/
def Agreed : Reading → List (List Char) → Prop
  | _, [] => True
  | s, l :: ls =>
      SameComments s s.lineStart l ∧
      (l.getLast? = some '\\' → (s.run .compiler l.dropLast).IsWhole) ∧
      Agreed ((s.run .compiler l).next .compiler '\n') ls

instance : DecidablePred IsWhole
  | code | literal _ | block => .isTrue trivial
  | slash | name _ | number | apostrophe | escape _ | delimiter _ | raw _ _ | star | line =>
      .isFalse id

instance decidableAgreed : ∀ (s : Reading) (ls : List (List Char)), Decidable (Agreed s ls)
  | _, [] => inferInstanceAs (Decidable True)
  | s, l :: ls =>
      have := decidableAgreed ((s.run .compiler l).next .compiler '\n') ls
      inferInstanceAs (Decidable (SameComments s s.lineStart l ∧
        (l.getLast? = some '\\' → (s.run .compiler l.dropLast).IsWhole) ∧ _))

/-- What is read in one text is read in another, which has at most backslashes more. -/
structure Kept (ps qs : List (Bool × Char)) : Prop where
  sublist : ps.Sublist qs
  filter_eq : qs.filter (·.2 ≠ '\\') = ps.filter (·.2 ≠ '\\')

section

variable {s : Reading} {e l rest out : List Char} {ps qs rs : List (Bool × Char)}

theorem Kept.refl (ps : List (Bool × Char)) : Kept ps ps := ⟨List.Sublist.refl ps, rfl⟩

theorem Kept.append_left (ps : List (Bool × Char)) (h : Kept qs rs) : Kept (ps ++ qs) (ps ++ rs) where
  sublist := (List.append_sublist_append_left ps).2 h.sublist
  filter_eq := by rw [List.filter_append, List.filter_append, h.filter_eq]

theorem Kept.cons_backslash (comment : Bool) (h : Kept ps qs) : Kept ps ((comment, '\\') :: qs) where
  sublist := h.sublist.cons _
  filter_eq := by rw [List.filter_cons_of_neg (by simp), h.filter_eq]

theorem startsLine_newline (hs : s.Ordinary ∨ s = line) : (s.next .compiler '\n').StartsLine :=
  ⟨ordinary_newline hs, held_newline s⟩

theorem StartsLine.together (hs : s.StartsLine) : Together s s.lineStart := by
  obtain ⟨hordinary, hheld⟩ := hs
  cases s with
  | block => exact .inl ⟨rfl, rfl⟩
  | star => cases hheld
  | line => exact hordinary.elim
  | _ => exact .inr ⟨⟨hordinary, rfl⟩, trivial, rfl⟩

/-- **The scanner closes a line as a compiler's reading does**, where both open the same comments. -/
theorem closeLine_atLine (hs : s.StartsLine) (h : SameComments s s.lineStart l) :
    closeLine (Scan.atLine s.goesOn) l = close .compiler s l := by
  have hstart : (Scan.atLine s.goesOn).reading = s.lineStart := by
    unfold lineStart
    cases s.goesOn <;> rfl
  rw [closeLine_eq, hstart, close_congr hs.together h]

/-- Where nothing is cut, a backslash and a line end lead back to what went on. -/
theorem IsWhole.next_backslash (hs : s.IsWhole) :
    (s.next .compiler '\\').next .compiler '\n' = s := by
  cases s with
  | code | literal quote | block => rfl
  | _ => exact hs.elim

theorem IsWhole.told_backslash (hs : s.IsWhole) :
    (s.told .compiler ['\\']).filter shows ++ (s.next .compiler '\\').held =
      [(s.inComment, '\\')] := by
  cases s with
  | code | literal quote | block => rfl
  | _ => exact hs.elim

/-- Read from `s` on, `out` is one line without a comment up to its end, in which what is read in
`t` is read. -/
structure ReadAs (s : Reading) (out t : List Char) : Prop where
  oneLine : '\n' ∉ out
  avoidsLines : s.AvoidsLines out
  kept : Kept (s.contents t) (s.contents out)

theorem readAs_nil (hs : s.StartsLine) : ReadAs s [] [] where
  oneLine := List.not_mem_nil
  avoidsLines := avoidsLines_nil.2 hs.ordinary.ne_line
  kept := .refl _

/-- The blank after a line takes the place of its end. -/
theorem readAs_last (hs : s.StartsLine) (hl : '\n' ∉ l) (hclose : '\n' ∉ (close .compiler s l).1) :
    ReadAs s ((close .compiler s l).1 ++ [' ']) l := by
  have hpasses := passes_close hs.ordinary hl
  have hend := startsLine_newline (ordinary_run hs.ordinary hl)
  refine ⟨by simp [hclose], hpasses.avoidsLines, ?_⟩
  have hcontents := hpasses.contents []
  have hcontents' := contents_append s l []
  have hline : (s.run .compiler l).contents [] = (s.run .compiler l).held :=
    told_lineEnd (ordinary_run hs.ordinary hl) (.inl rfl)
  have hblank : ((s.run .compiler l).next .compiler '\n').contents [] = [] :=
    (told_lineEnd (.inl hend.ordinary) (.inl rfl)).trans hend.held
  rw [List.append_nil] at hcontents hcontents'
  rw [hcontents, hcontents', hline, hblank, List.append_nil]
  exact .refl _

/-- **One line**: if the lines after it are read as they were, so is it with them. -/
theorem readAs_line (hs : s.StartsLine) (hl : '\n' ∉ l) (hclose : '\n' ∉ (close .compiler s l).1)
    (he : e = ['\n'] ∨ e = ['\r', '\n'])
    (ih : ReadAs ((s.run .compiler l).next .compiler '\n') out rest) :
    ReadAs s ((close .compiler s l).1 ++ ' ' :: out) (l ++ e ++ rest) := by
  have hpasses := passes_close hs.ordinary hl
  have hrun := ordinary_run hs.ordinary hl
  have hcontents : s.contents (l ++ e ++ rest) =
      (s.told .compiler l).filter shows ++ (s.run .compiler l).held ++
        ((s.run .compiler l).next .compiler '\n').contents rest := by
    rw [contents_append, told_append, List.filter_append, told_lineEnd hrun he, run_append,
      run_lineEnd hrun he]
  rw [List.append_cons]
  refine ⟨?_, (avoidsLines_append _ _ _).2 ⟨hpasses.avoidsLines, hpasses.run ▸ ih.avoidsLines⟩, ?_⟩
  · simp [hclose, ih.oneLine]
  · rw [hcontents, hpasses.contents]
    exact ih.kept.append_left _

/-- **One line that goes on in the next** keeps its backslash; if the lines after it are read as
they were, so is it with them. -/
theorem readAs_continued (hs : s.StartsLine) (hl : '\n' ∉ l ++ ['\\'])
    (hclose : '\n' ∉ (close .compiler s (l ++ ['\\'])).1) (hwhole : (s.run .compiler l).IsWhole)
    (ih : ReadAs ((s.run .compiler (l ++ ['\\'])).next .compiler '\n') out rest) :
    ReadAs s ((close .compiler s (l ++ ['\\'])).1 ++ ' ' :: out) (l ++ rest) := by
  have hpasses := passes_close hs.ordinary hl
  have hback : (s.run .compiler (l ++ ['\\'])).next .compiler '\n' = s.run .compiler l := by
    rw [run_append]
    exact hwhole.next_backslash
  have htold : (s.told .compiler (l ++ ['\\'])).filter shows ++
      (s.run .compiler (l ++ ['\\'])).held =
        (s.told .compiler l).filter shows ++ [((s.run .compiler l).inComment, '\\')] := by
    rw [told_append, List.filter_append, List.append_assoc, run_append]
    exact congrArg _ hwhole.told_backslash
  rw [List.append_cons]
  refine ⟨?_, (avoidsLines_append _ _ _).2 ⟨hpasses.avoidsLines, hpasses.run ▸ ih.avoidsLines⟩, ?_⟩
  · simp [hclose, ih.oneLine]
  · -- the backslash is not joined to the line end any more, and is read
    have hkept := ih.kept
    rw [hback] at hkept
    rw [hpasses.contents, htold, hback, contents_append, List.append_assoc]
    exact (hkept.cons_backslash _).append_left _

/-- **What becomes of the lines of a text is read as the text was**, once lines are joined. -/
theorem readAs_continueLines (s : Reading) (hs : s.StartsLine) (t : List Char)
    (h : Agreed s (Text.lines t)) :
    ReadAs s (splice (continueLines s.goesOn (Text.lines t))) (splice t) := by
  induction t using lines_induction generalizing s with
  | nil => exact readAs_nil hs
  | last l hl hne =>
    rw [Text.lines_of_newline_notMem hne hl] at h ⊢
    have hline := closeLine_atLine hs h.1
    have hclose := hline ▸ newline_notMem_closeLine (Scan.atLine s.goesOn) l hl
    have hout : splice (continueLines s.goesOn [l]) = (close .compiler s l).1 ++ [' '] :=
      hline ▸ splice_append_continuation (newline_notMem_closeLine _ l hl) []
    rw [hout, splice_of_newline_notMem hl]
    exact readAs_last hs hl hclose
  | line l e rest hl he ih =>
    rw [he.lines hl] at h ⊢
    obtain ⟨hsame, hwhole, hrest⟩ := h
    have hline := closeLine_atLine hs hsame
    have hclose := hline ▸ newline_notMem_closeLine (Scan.atLine s.goesOn) l hl
    -- the scanner knows of a comment that goes on, as the reading does
    have hon := close_snd hs.ordinary hl
    have hout : splice (continueLines s.goesOn (l :: Text.lines rest)) =
        (close .compiler s l).1 ++ ' ' ::
          splice (continueLines ((s.run .compiler l).next .compiler '\n').goesOn
            (Text.lines rest)) := by
      rw [← hon, ← hline]
      exact splice_append_continuation (newline_notMem_closeLine _ l hl) _
    have ih := ih _ (startsLine_newline (ordinary_run hs.ordinary hl)) hrest
    rw [hout]
    by_cases hlast : l.getLast? = some '\\'
    · obtain ⟨front, rfl⟩ := List.getLast?_eq_some_iff.1 hlast
      rw [List.dropLast_concat] at hwhole
      rw [he.splice_backslash hl]
      exact readAs_continued hs hl hclose (hwhole hlast) ih
    · rw [he.splice hl hlast]
      exact readAs_line hs hl hclose he.eq_or ih

end

end Reading

/-- **Comments stay comments** where both readings open the same: continued code, once its lines are
joined, is one line, no comment in it goes up to the end of the line, and what a compiler reads in
the text it reads there too, in a comment if it was in one; nothing but backslashes is added. -/
theorem contents_splice_continued (text : String)
    (h : Reading.Agreed .code (Text.lines text.toList)) :
    '\n' ∉ splice (continued text).toList ∧
    Reading.AvoidsLines .code (splice (continued text).toList) ∧
    (Reading.contents .code (splice text.toList)).Sublist
      (Reading.contents .code (splice (continued text).toList)) ∧
    (Reading.contents .code (splice (continued text).toList)).filter (·.2 ≠ '\\') =
      (Reading.contents .code (splice text.toList)).filter (·.2 ≠ '\\') := by
  rw [continued, String.toList_ofList]
  obtain ⟨hnew, hlines, hsub, hfilter⟩ :=
    Reading.readAs_continueLines .code ⟨trivial, rfl⟩ text.toList h
  exact ⟨hnew, hlines, hsub, hfilter⟩

/-- Separators in a number, a literal that goes on in the next line, marks in comments. -/
def separated : String :=
  "int n = 1'000'000; // a million\ns = \"one \\\ntwo\";\r\n/* and // so\non */ f('\"'); // last"

theorem contents_splice_continued_separated :
    Reading.Agreed .code (Text.lines separated.toList) ∧
    continued separated = "int n = 1'000'000; /* a million */ \\\ns = \"one \\ \\\n" ++
      "two\"; \\\n/* and // so \\\non */ f('\"'); /* last */ \\\n" ∧
    '\n' ∉ splice (continued separated).toList ∧
    Reading.AvoidsLines .code (splice (continued separated).toList) ∧
    (Reading.contents .code (splice separated.toList)).Sublist
      (Reading.contents .code (splice (continued separated).toList)) ∧
    (((Reading.contents .code (splice (continued separated).toList)).filter
      (·.2 ≠ '\\')).filter (·.1)).map (·.2) = "amillionand//soonlast".toList := by
  have h : Reading.Agreed .code (Text.lines separated.toList) := by decide +kernel
  obtain ⟨hnew, hlines, hsub, hfilter⟩ := contents_splice_continued separated h
  refine ⟨h, by decide +kernel, hnew, hlines, hsub, ?_⟩
  rw [hfilter]
  decide +kernel

/-- **Not where they differ**: one separator in a number, or a literal from the line before, hides a
comment, which then goes up to the end of the line; and a comment up to the end of the line that
goes on in the next is closed before that. -/
theorem splice_continued_differs :
    (Reading.IsLexical .code (splice "int n = 1'000; // many\nint m;".toList) ∧
      continued "int n = 1'000; // many\nint m;" = "int n = 1'000; // many \\\nint m; \\\n" ∧
      ¬ Reading.AvoidsLines .code
        (splice (continued "int n = 1'000; // many\nint m;").toList)) ∧
    (Reading.IsLexical .code (splice "s = \"a\\\nb\"; // c\nf();".toList) ∧
      ¬ Reading.AvoidsLines .code (splice (continued "s = \"a\\\nb\"; // c\nf();").toList)) ∧
    (Reading.IsLexical .code (splice "// a \\\n b\nf();".toList) ∧
      ¬ (Reading.contents .code (splice "// a \\\n b\nf();".toList)).Sublist
        (Reading.contents .code (splice (continued "// a \\\n b\nf();").toList))) := by
  decide +kernel

end Header
end Marshal
