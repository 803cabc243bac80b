/-!
# Writing code line by line

A writer adds lines to a text.  A line is indented by one tab for every block that is open.

## Main definitions

* `Step` — a line, a blank line, or the start or end of a block.
* `Writer.put`, `Writer.run` — the text that steps add.

## Main results

* `Writer.run_append` — the text of two runs of steps.
-/

namespace Marshal
namespace Emit

/-- What a writer can be told to do. -/
inductive Step where
  /-- Write a line. -/
  | line (text : String)
  /-- Write an empty line, without indentation. -/
  | blank
  /-- Write an opening brace and indent what follows. -/
  | enter
  /-- Indent less and write a closing brace. -/
  | leave
  deriving DecidableEq, Repr, Inhabited

namespace Writer

/-- An indented line. -/
def indented (depth : Nat) (text : String) : String :=
  String.ofList (List.replicate depth '\t') ++ text ++ "\n"

/-- The text a step adds when `depth` blocks are open, and the number of blocks open after it.
Where no block is open, none is closed. -/
def put (depth : Nat) : Step → String × Nat
  | .line text => (indented depth text, depth)
  | .blank => ("\n", depth)
  | .enter => (indented depth "\x7b", depth + 1)
  | .leave => (indented (depth - 1) "\x7d", depth - 1)

/-- The texts that steps add one after the other, and the number of blocks open at the end. -/
def run : Nat → List Step → List String × Nat
  | depth, [] => ([], depth)
  | depth, s :: ss =>
      let (text, after) := put depth s
      let (texts, final) := run after ss
      (text :: texts, final)

theorem run_append (depth : Nat) (ss ts : List Step) :
    run depth (ss ++ ts) =
      ((run depth ss).1 ++ (run (run depth ss).2 ts).1, (run (run depth ss).2 ts).2) := by
  induction ss generalizing depth with
  | nil => simp [run]
  | cons s ss ih => simp [run, ih]

/-- The text that steps write from the start. -/
def text (steps : List Step) : String := String.join (run 0 steps).1

end Writer
end Emit
end Marshal
