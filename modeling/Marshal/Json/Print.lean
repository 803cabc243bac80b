import Marshal.Data.Value

/-!
# Compact JSON

The one form in which JSON is written: no blanks, entries in the order of the table, and only
those characters of a text written as two that have to be.

## Main definitions

* `writeText` — a text between quotes.
* `print` — the compact form of a value.
-/

namespace Marshal
namespace Json

open Data

/-- The digits of a control character. -/
def controlDigits (n : Nat) : List Char :=
  ['0', '0', Nat.digitChar (n / 16), Nat.digitChar (n % 16)]

/-- A character as it is written between quotes. -/
def writeChar (c : Char) : List Char :=
  match c with
  | '"' => ['\\', '"']
  | '\\' => ['\\', '\\']
  | '\x08' => ['\\', 'b']
  | '\t' => ['\\', 't']
  | '\n' => ['\\', 'n']
  | '\x0c' => ['\\', 'f']
  | '\r' => ['\\', 'r']
  | c => if c.toNat < 0x20 then ['\\', 'u'] ++ controlDigits c.toNat else [c]

/-- A text between quotes. -/
def writeText (s : String) : List Char := ['"'] ++ s.toList.flatMap writeChar ++ ['"']

mutual

/-- The compact form of a value. -/
def write : Value → List Char
  | .null => "null".toList
  | .bool b => (if b then "true" else "false").toList
  | .natural n => (toString n).toList
  | .signed i => (toString i).toList
  | .float spelling => spelling.toList
  | .text s => writeText s
  | .seq items => ['['] ++ writeItems items ++ [']']
  | .map entries => ['\x7b'] ++ writeEntries entries ++ ['\x7d']

/-- The items of a list, with commas between them. -/
def writeItems : List Value → List Char
  | [] => []
  | [v] => write v
  | v :: w :: vs => write v ++ ',' :: writeItems (w :: vs)

/-- The entries of a table, with commas between them. -/
def writeEntries : List (String × Value) → List Char
  | [] => []
  | [(k, v)] => writeText k ++ ':' :: write v
  | (k, v) :: e :: es => writeText k ++ ':' :: write v ++ ',' :: writeEntries (e :: es)

end

/-- The compact JSON text of a value. -/
def print (v : Value) : String := String.ofList (write v)

end Json
end Marshal
