/-!
# String literals of the generated code

A text becomes a literal by writing a backslash before quotes and backslashes, and line feeds and
tabs as letters after a backslash.  Every other character stands for itself.

## Main definitions

* `literal` — the literal of a text.
* `dotted` — the key of a member inside another.
-/

namespace Marshal
namespace Emit

/-- A character as it is written in a literal. -/
def literalChar (c : Char) : List Char :=
  match c with
  | '"' => ['\\', '"']
  | '\\' => ['\\', '\\']
  | '\n' => ['\\', 'n']
  | '\t' => ['\\', 't']
  | c => [c]

/-- The literal of a text. -/
def literal (text : String) : String :=
  String.ofList (['"'] ++ text.toList.flatMap literalChar ++ ['"'])

/-- The key of a member inside another; an outer key that is empty adds no dot. -/
def dotted (outer name : String) : String := if outer = "" then name else outer ++ "." ++ name

end Emit
end Marshal
