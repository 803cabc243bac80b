import Marshal.Text.Unprintable

/-!
# Quoted text

The form in which messages show a text: between double quotes, with the quote, the backslash and
the common controls written as two characters, and every other character that has no look of its
own written as its code point.

## Main definitions

* `quotedChar`, `quoted` — the quoted form of a character and of a text.
-/

namespace Marshal
namespace Text

/-- The quoted form of one character. -/
def quotedChar (c : Char) : List Char :=
  match c with
  | '\x00' => ['\\', '0']
  | '\t' => ['\\', 't']
  | '\r' => ['\\', 'r']
  | '\n' => ['\\', 'n']
  | '\\' => ['\\', '\\']
  | '"' => ['\\', '"']
  | c =>
      if c.toNat < 0x20 || isUnprintable c then
        ['\\', 'u', '\x7b'] ++ Nat.toDigits 16 c.toNat ++ ['\x7d']
      else [c]

/-- A text between double quotes, as messages show it. -/
def quoted (text : String) : String :=
  String.ofList (['"'] ++ text.toList.flatMap quotedChar ++ ['"'])

end Text
end Marshal
