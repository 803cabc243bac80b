import Marshal.Text.Line

/-!
# Code inside a macro

The body of a macro is one line, so code that becomes one has every line end in a backslash.  A
comment up to the end of the line would then swallow all that follows; such comments become
comments between `/*` and `*/`.  What looks like a comment inside a literal is left alone, and so
is what stands inside a comment between `/*` and `*/`, which may go on over several lines.  A
literal ends with its line.

## Main definitions

* `Scan` — where the scanner is.
* `closeLine` — one line, with its comment closed at its end.
* `continued` — a text with every line continued.
-/

namespace Marshal
namespace Header

/-- Where the scanner is. -/
inductive Scan where
  /-- In code. -/
  | code
  /-- In a literal that ends with the given quote. -/
  | quoted (quote : Char)
  /-- In a comment. -/
  | comment
  deriving DecidableEq, Repr, Inhabited

/-- The text of a comment with its end marks taken apart. -/
def splitMarks : List Char → List Char
  | '*' :: '/' :: cs => '*' :: ' ' :: '/' :: splitMarks cs
  | c :: cs => c :: splitMarks cs
  | [] => []

/-- A comment up to the end of the line, written as one that ends by itself. -/
def closedComment (text : List Char) : List Char :=
  ['/', '*'] ++ splitMarks (Text.trimEnd text) ++ [' ', '*', '/']

/-- One line with its comment closed at its end, and whether a comment goes on after it. -/
def closeLine : Scan → List Char → List Char × Bool
  | state, [] => ([], state = .comment)
  | .comment, '*' :: '/' :: cs =>
      let (out, goesOn) := closeLine .code cs
      ('*' :: '/' :: out, goesOn)
  | .comment, c :: cs =>
      let (out, goesOn) := closeLine .comment cs
      (c :: out, goesOn)
  | .quoted q, ['\\'] => closeLine (.quoted q) [] |>.map ('\\' :: ·) id
  | .quoted q, '\\' :: c :: cs =>
      let (out, goesOn) := closeLine (.quoted q) cs
      ('\\' :: c :: out, goesOn)
  | .quoted q, c :: cs =>
      let (out, goesOn) := closeLine (if c = q then .code else .quoted q) cs
      (c :: out, goesOn)
  | .code, '/' :: '*' :: cs =>
      let (out, goesOn) := closeLine .comment cs
      ('/' :: '*' :: out, goesOn)
  | .code, '/' :: '/' :: cs => (closedComment cs, false)
  | .code, c :: cs =>
      let (out, goesOn) := closeLine (if c = '"' ∨ c = '\'' then .quoted c else .code) cs
      (c :: out, goesOn)

/-- What is put after every line. -/
def continuation : List Char := [' ', '\\', '\n']

/-- The lines of a text, closed and continued; a comment may go on from one to the next. -/
def continueLines : Bool → List (List Char) → List Char
  | _, [] => []
  | inComment, l :: ls =>
      let (out, goesOn) := closeLine (if inComment then .comment else .code) l
      out ++ continuation ++ continueLines goesOn ls

/-- A text with every line continued. -/
def continued (text : String) : String :=
  String.ofList (continueLines false (Text.lines text.toList))

end Header
end Marshal
