import Marshal.Emit.Literal
import Marshal.Header.Continuation
import Mathlib.Data.List.Basic

/-!
# Lines that are copied

The scanner looks for comments, and copies all else.  A part of a line that it copies, and after
which it is back in code, can be taken by itself: what comes after it is scanned as if it stood
alone.  A literal of the generated code is such a part, whatever text it was made from, since each
of its characters leaves the scanner inside the literal up to the last quote.

A text whose lines are all copied is continued line by line, and nothing else is changed.

## Main definitions

* `Copies` — what the scanner copies, and where it is afterwards.
* `CopiedLine` — a line that is copied.

## Main results

* `copies_literal` — literals are copied.
* `continued_join` — lines that are copied are continued as they are.
-/

namespace Marshal
namespace Header

/-! ### What the scanner copies -/

/-- The scanner copies these characters and goes on in another state, whatever follows them. -/
def Copies (s : Scan) (cs : List Char) (t : Scan) : Prop :=
  ∀ rest, closeLine s (cs ++ rest) = (cs ++ (closeLine t rest).1, (closeLine t rest).2)

theorem copies_nil (s : Scan) : Copies s [] s := fun _ => rfl

theorem Copies.append {s t u : Scan} {cs ds : List Char} (h : Copies s cs t)
    (h' : Copies t ds u) : Copies s (cs ++ ds) u := by
  intro rest
  rw [List.append_assoc, h, h', List.append_assoc]

theorem Copies.flatMap {α : Type} {s : Scan} {as : List α} {f : α → List Char}
    (h : ∀ a ∈ as, Copies s (f a) s) : Copies s (as.flatMap f) s := by
  induction as with
  | nil => exact copies_nil s
  | cons a as ih =>
    obtain ⟨ha, has⟩ := List.forall_mem_cons.1 h
    exact ha.append (ih has)

/-- A line that is copied is left as it is, and no comment goes on after it. -/
theorem Copies.closeLine {l : List Char} (h : Copies .code l .code) :
    closeLine .code l = (l, false) := by
  have hline := h []
  rw [List.append_nil] at hline
  simpa [Header.closeLine] using hline

/-! ### Code and literals -/

/-- What neither starts a literal nor can start a comment leaves the scanner in code. -/
theorem copies_char {c : Char} (hquote : c ≠ '"') (hmark : c ≠ '\'') (hslash : c ≠ '/') :
    Copies .code [c] .code := by
  intro rest
  rw [List.singleton_append]
  simp [Header.closeLine, hquote, hmark, hslash]

theorem copies_opening : Copies .code ['"'] (.quoted '"') := fun _ => rfl

theorem copies_closing : Copies (.quoted '"') ['"'] .code := fun _ => rfl

/-- What is written for a character of a literal leaves the scanner inside the literal. -/
theorem copies_literalChar (c : Char) :
    Copies (.quoted '"') (Emit.literalChar c) (.quoted '"') := by
  unfold Emit.literalChar
  split
  · exact fun _ => rfl
  · exact fun _ => rfl
  · exact fun _ => rfl
  · exact fun _ => rfl
  · next hquote hslash _ _ =>
    intro rest
    rw [List.singleton_append, Header.closeLine, if_neg hquote]
    · rfl
    · exact fun h _ => hslash h
    · exact fun _ _ h _ => hslash h

/-- **Literals are copied**, whatever is in them and whatever follows them. -/
theorem copies_literal (text : String) : Copies .code (Emit.literal text).toList .code := by
  rw [Emit.literal, String.toList_ofList]
  exact (copies_opening.append (Copies.flatMap fun c _ => copies_literalChar c)).append
    copies_closing

/-! ### Lines -/

/-- A line that is copied. -/
structure CopiedLine (l : List Char) : Prop where
  oneLine : '\n' ∉ l
  noReturn : l.getLast? ≠ some '\r'
  copies : Copies .code l .code

/-- A text that is put together line by line. -/
theorem toList_join_lines (ls : List String) (ending : String) :
    (String.join (ls.map (· ++ ending))).toList =
      (ls.map String.toList).flatMap (· ++ ending.toList) := by
  simp [String.toList_join, List.flatMap_map]

/-- The lines of a text are those that it is put together from. -/
theorem lines_flatMap {ls : List (List Char)}
    (h : ∀ l ∈ ls, '\n' ∉ l ∧ l.getLast? ≠ some '\r') :
    Text.lines (ls.flatMap (· ++ ['\n'])) = ls := by
  induction ls with
  | nil => rfl
  | cons l ls ih =>
    obtain ⟨⟨hline, hreturn⟩, hls⟩ := List.forall_mem_cons.1 h
    rw [List.flatMap_cons, List.append_assoc, List.singleton_append,
      Text.lines_append_newline l _ hline hreturn, ih hls]

theorem continueLines_of_copied {ls : List (List Char)} (h : ∀ l ∈ ls, CopiedLine l) :
    continueLines false ls = ls.flatMap (· ++ continuation) := by
  induction ls with
  | nil => rfl
  | cons l ls ih =>
    obtain ⟨hl, hls⟩ := List.forall_mem_cons.1 h
    rw [continueLines, if_neg Bool.false_ne_true, hl.copies.closeLine, List.flatMap_cons]
    simp only [ih hls]

section

variable {ls : List String} (h : ∀ l ∈ ls, CopiedLine l.toList)

include h

/-- **Lines that are copied are continued as they are.** -/
theorem continued_join :
    continued (String.join (ls.map (· ++ "\n"))) = String.join (ls.map (· ++ " \\\n")) := by
  have hcopied : ∀ l ∈ ls.map String.toList, CopiedLine l := List.forall_mem_map.2 h
  have hlines := lines_flatMap fun l hl => ⟨(hcopied l hl).oneLine, (hcopied l hl).noReturn⟩
  apply String.toList_injective
  rw [continued, String.toList_ofList, toList_join_lines, toList_join_lines]
  calc continueLines false (Text.lines ((ls.map String.toList).flatMap (· ++ ['\n'])))
    _ = continueLines false (ls.map String.toList) := by rw [hlines]
    _ = (ls.map String.toList).flatMap (· ++ continuation) := continueLines_of_copied hcopied

/-- Each of them is then one line. -/
theorem lines_continued_join :
    Text.lines (continued (String.join (ls.map (· ++ "\n")))).toList =
      ls.map fun l => (l ++ " \\").toList := by
  have hends : ∀ l ∈ ls.map (fun l => (l ++ " \\").toList), '\n' ∉ l ∧ l.getLast? ≠ some '\r' := by
    refine List.forall_mem_map.2 fun l hl => ?_
    simp [(h l hl).oneLine]
  rw [continued_join h, toList_join_lines]
  simpa [List.flatMap_map] using lines_flatMap hends

end

end Header
end Marshal
