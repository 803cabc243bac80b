/-!
# Blanks and texts of a TOML document

Every scanner takes the characters that are left and gives back what follows.

## Main definitions

* `dropBlanks`, `dropNewline?`, `dropComment` — what stands between things.
* `basic`, `basicLines`, `raw`, `rawLines` — texts after their opening quotes, on one line or on
  several, with escapes or without.
-/

namespace Marshal
namespace Toml

/-! ### Blanks -/

/-- The blanks within a line. -/
def isBlank (c : Char) : Bool := c = ' ' || c = '\t'

/-- What follows the blanks. -/
def dropBlanks (cs : List Char) : List Char := cs.dropWhile isBlank

/-- What follows a line end. -/
def dropNewline? : List Char → Option (List Char)
  | '\n' :: cs => some cs
  | '\r' :: '\n' :: cs => some cs
  | _ => none

/-- The characters that may stand in a comment. -/
def inComment (c : Char) : Bool := c = '\t' || (0x20 ≤ c.toNat && c.toNat ≠ 0x7F)

/-- What follows a comment, if there is one. -/
def dropComment : List Char → List Char
  | '#' :: cs => cs.dropWhile inComment
  | cs => cs

/-- What follows the rest of a line on which nothing else stands. -/
def dropLine? (cs : List Char) : Option (List Char) :=
  match dropComment (dropBlanks cs) with
  | [] => some []
  | cs => dropNewline? cs

/-- What follows blanks, line ends and comments; stops after `steps` of them. -/
def dropSpace : Nat → List Char → List Char
  | 0, cs => cs
  | steps + 1, cs =>
      match cs with
      | ' ' :: cs | '\t' :: cs | '\n' :: cs | '\r' :: '\n' :: cs => dropSpace steps cs
      | '#' :: cs => dropSpace steps (cs.dropWhile inComment)
      | cs => cs

/-- What follows all blanks, line ends and comments. -/
def dropAllSpace (cs : List Char) : List Char := dropSpace cs.length cs

/-! ### Escapes -/

/-- The value of a hexadecimal digit. -/
def hexDigit? (c : Char) : Option Nat :=
  if c.isDigit then some (c.toNat - '0'.toNat)
  else if 'a' ≤ c && c ≤ 'f' then some (c.toNat - 'a'.toNat + 10)
  else if 'A' ≤ c && c ≤ 'F' then some (c.toNat - 'A'.toNat + 10)
  else none

/-- The number that hexadecimal digits spell. -/
def hexNumber? (cs : List Char) : Option Nat :=
  cs.foldlM (fun n c => (hexDigit? c).map (n * 16 + ·)) 0

/-- The character that hexadecimal digits spell. -/
def hexChar? (cs : List Char) : Option Char := do
  let n ← hexNumber? cs
  if n.isValidChar then return Char.ofNat n else none

/-- The character that a backslash and a letter stand for. -/
def escape? : Char → Option Char
  | 'b' => some '\x08'
  | 't' => some '\t'
  | 'n' => some '\n'
  | 'f' => some '\x0c'
  | 'r' => some '\r'
  | '"' => some '"'
  | '\\' => some '\\'
  | _ => none

/-- A character in front of a text. -/
def put (c : Option Char) (rest : Option (List Char × List Char)) :
    Option (List Char × List Char) := do
  let c ← c
  let (s, cs) ← rest
  return (c :: s, cs)

/-- The characters that may stand in a text with escapes. -/
def inBasic (c : Char) : Bool := inComment c && c ≠ '"' && c ≠ '\\'

/-- The characters that may stand in a text without escapes. -/
def inRaw (c : Char) : Bool := inComment c && c ≠ '\''

/-! ### Texts on one line -/

/-- A text with escapes. -/
def basic : List Char → Option (List Char × List Char)
  | '"' :: cs => some ([], cs)
  | '\\' :: 'u' :: a :: b :: c :: d :: cs => put (hexChar? [a, b, c, d]) (basic cs)
  | '\\' :: 'U' :: a :: b :: c :: d :: e :: f :: g :: h :: cs =>
      put (hexChar? [a, b, c, d, e, f, g, h]) (basic cs)
  | '\\' :: c :: cs => put (escape? c) (basic cs)
  | c :: cs => if inBasic c then put (some c) (basic cs) else none
  | [] => none

/-- A text without escapes. -/
def raw : List Char → Option (List Char × List Char)
  | '\'' :: cs => some ([], cs)
  | c :: cs => if inRaw c then put (some c) (raw cs) else none
  | [] => none

/-! ### Texts on several lines -/

/-- Where the scanner of a text on several lines is. -/
inductive Lines where
  /-- In the text. -/
  | text
  /-- After a backslash that joins lines, before the line end. -/
  | joining
  /-- After that line end, where blanks and line ends do not count. -/
  | joined
  deriving DecidableEq, Repr, Inhabited

/-- Whether blanks and a line end come next. -/
def endsLine (cs : List Char) : Bool := (dropNewline? (dropBlanks cs)).isSome

/-- A text with escapes on several lines.  Up to two quotes may stand before the closing ones. -/
def basicLines : Lines → List Char → Option (List Char × List Char)
  | _, [] => none
  | .joining, '\n' :: cs => basicLines .joined cs
  | .joining, '\r' :: '\n' :: cs => basicLines .joined cs
  | .joining, _ :: cs => basicLines .joining cs
  | .joined, ' ' :: cs => basicLines .joined cs
  | .joined, '\t' :: cs => basicLines .joined cs
  | .joined, '\n' :: cs => basicLines .joined cs
  | .joined, '\r' :: '\n' :: cs => basicLines .joined cs
  | _, '"' :: '"' :: '"' :: '"' :: '"' :: cs => some (['"', '"'], cs)
  | _, '"' :: '"' :: '"' :: '"' :: cs => some (['"'], cs)
  | _, '"' :: '"' :: '"' :: cs => some ([], cs)
  | _, '"' :: cs => put (some '"') (basicLines .text cs)
  | _, '\\' :: 'u' :: a :: b :: c :: d :: cs =>
      put (hexChar? [a, b, c, d]) (basicLines .text cs)
  | _, '\\' :: 'U' :: a :: b :: c :: d :: e :: f :: g :: h :: cs =>
      put (hexChar? [a, b, c, d, e, f, g, h]) (basicLines .text cs)
  | _, '\\' :: c :: cs =>
      if endsLine (c :: cs) then basicLines .joining (c :: cs)
      else put (escape? c) (basicLines .text cs)
  | _, '\n' :: cs => put (some '\n') (basicLines .text cs)
  | _, '\r' :: '\n' :: cs => put (some '\n') (basicLines .text cs)
  | _, c :: cs => if inBasic c then put (some c) (basicLines .text cs) else none

/-- A text without escapes on several lines. -/
def rawLines : List Char → Option (List Char × List Char)
  | [] => none
  | '\'' :: '\'' :: '\'' :: '\'' :: '\'' :: cs => some (['\'', '\''], cs)
  | '\'' :: '\'' :: '\'' :: '\'' :: cs => some (['\''], cs)
  | '\'' :: '\'' :: '\'' :: cs => some ([], cs)
  | '\'' :: cs => put (some '\'') (rawLines cs)
  | '\n' :: cs => put (some '\n') (rawLines cs)
  | '\r' :: '\n' :: cs => put (some '\n') (rawLines cs)
  | c :: cs => if inRaw c then put (some c) (rawLines cs) else none

/-- What follows a line end directly after opening quotes, which does not count. -/
def dropFirstNewline (cs : List Char) : List Char := (dropNewline? cs).getD cs

/-- Any text, from its opening quotes on. -/
def anyText : List Char → Option (List Char × List Char)
  | '"' :: '"' :: '"' :: cs => basicLines .text (dropFirstNewline cs)
  | '"' :: cs => basic cs
  | '\'' :: '\'' :: '\'' :: cs => rawLines (dropFirstNewline cs)
  | '\'' :: cs => raw cs
  | _ => none

end Toml
end Marshal
