/-!
# Lines and blanks of a text

A text is taken apart into lines at its line feeds.  A carriage return just before a line feed
belongs to the line end; a line feed that ends the text opens no further line, so the empty text
has no lines and `"\n"` has one empty line.

## Main definitions

* `lines` — the lines of a text, without their ends.
* `isBlank` — the characters that count as blank (Unicode `White_Space`).
* `trimEnd` — a text without the blanks at its end.

## Main results

* `lines_append_newline` — a line without line feed, not ending in a carriage return, followed by
  a line feed, is the first line of the text.
* `lines_of_newline_notMem` — a text without a line feed is one line.
* `trimEnd_append_blank` — blanks added at the end do not survive `trimEnd`.
-/

namespace Marshal
namespace Text

/-! ### Lines -/

/-- The lines of a text, without their ends. -/
def lines : List Char → List (List Char)
  | [] => []
  | '\n' :: rest => [] :: lines rest
  | '\r' :: '\n' :: rest => [] :: lines rest
  | c :: rest =>
      match lines rest with
      | [] => [[c]]
      | l :: ls => (c :: l) :: ls

@[simp] theorem lines_nil : lines [] = [] := rfl

@[simp] theorem lines_newline (rest : List Char) : lines ('\n' :: rest) = [] :: lines rest := by
  simp [lines]

theorem lines_cons {c : Char} {rest : List Char} (hn : c ≠ '\n')
    (hr : c = '\r' → ∀ r, rest ≠ '\n' :: r) :
    lines (c :: rest) = match lines rest with
      | [] => [[c]]
      | l :: ls => (c :: l) :: ls := by
  rw [lines.eq_def]
  split
  · contradiction
  · rename_i h; simp at h; exact absurd h.1 hn
  · rename_i r h; simp at h; exact absurd h.2 (hr h.1 r)
  · rename_i h; simp at h; obtain ⟨rfl, rfl⟩ := h; rfl

/-- A line that holds no line feed and does not end in a carriage return is read off the front of
a text in which a line feed follows it. -/
theorem lines_append_newline (l rest : List Char) (hl : '\n' ∉ l) (hr : l.getLast? ≠ some '\r') :
    lines (l ++ '\n' :: rest) = l :: lines rest := by
  induction l with
  | nil => simp
  | cons c cs ih =>
    simp only [List.mem_cons, not_or] at hl
    have hcs : cs.getLast? ≠ some '\r' := by
      intro h
      cases cs with
      | nil => simp at h
      | cons d ds => exact hr (by simpa [List.getLast?_cons_cons] using h)
    rw [List.cons_append, lines_cons (fun h => hl.1 h.symm), ih hl.2 hcs]
    intro hc r h
    cases cs with
    | nil => exact hr (by simp [hc])
    | cons d ds => simp at h; exact hl.2 (by simp [h.1])

/-- A text without a line feed is one line. -/
theorem lines_of_newline_notMem {l : List Char} (hne : l ≠ []) (hl : '\n' ∉ l) :
    lines l = [l] := by
  induction l with
  | nil => exact absurd rfl hne
  | cons c cs ih =>
    simp only [List.mem_cons, not_or] at hl
    have hnext : c = '\r' → ∀ r, cs ≠ '\n' :: r := by
      rintro - r rfl
      exact hl.2 List.mem_cons_self
    rw [lines_cons (fun h => hl.1 h.symm) hnext]
    cases cs with
    | nil => rfl
    | cons d ds => rw [ih (by simp) hl.2]

/-- A line that holds no line feed is read off the front of a text in which a carriage return and
a line feed follow it. -/
theorem lines_append_return (l rest : List Char) (hl : '\n' ∉ l) :
    lines (l ++ '\r' :: '\n' :: rest) = l :: lines rest := by
  induction l with
  | nil => simp [lines]
  | cons c cs ih =>
    simp only [List.mem_cons, not_or] at hl
    rw [List.cons_append, lines_cons (fun h => hl.1 h.symm), ih hl.2]
    rintro - r h
    cases cs with
    | nil => simp at h
    | cons d ds => exact hl.2 (by simp [(List.cons.inj h).1])

/-! ### Blanks -/

/-- The blank characters: those with the property `White_Space`. -/
def isBlank (c : Char) : Bool :=
  let n := c.toNat
  (0x09 ≤ n && n ≤ 0x0D) || n == 0x20 || n == 0x85 || n == 0xA0 || n == 0x1680 ||
  (0x2000 ≤ n && n ≤ 0x200A) || n == 0x2028 || n == 0x2029 || n == 0x202F || n == 0x205F ||
  n == 0x3000

/-- A text without the blanks at its end. -/
def trimEnd (cs : List Char) : List Char :=
  (cs.reverse.dropWhile isBlank).reverse

@[simp] theorem trimEnd_nil : trimEnd [] = [] := rfl

theorem trimEnd_append_blank (cs : List Char) {b : Char} (hb : isBlank b = true) :
    trimEnd (cs ++ [b]) = trimEnd cs := by
  simp [trimEnd, hb]

theorem trimEnd_append_of_not_blank (cs : List Char) {c : Char} (hc : isBlank c = false) :
    trimEnd (cs ++ [c]) = cs ++ [c] := by
  simp [trimEnd, hc]

end Text
end Marshal
