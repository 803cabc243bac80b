import Marshal.Toml.Number
import Marshal.Toml.Table

/-!
# TOML documents

A document is read line by line: headers open tables, keys put values into them, and the rest is
blank or comment.  Lists and inline tables may be nested `deepest` levels, and a key may have as
many parts.

A scanner that goes round is given a number of rounds; since every round takes at least one
character, the number of characters that are left is always enough.

## Main definitions

* `value` — a value.
* `parse` — the value of a document.
* `read` — what a reader makes of a document.
-/

namespace Marshal
namespace Toml

/-- How deep values may be nested, and how many parts a key may have. -/
def deepest : Nat := 79

/-! ### Keys -/

/-- The characters of a key without quotes. -/
def isKeyChar (c : Char) : Bool := c.isAlphanum || c = '_' || c = '-'

/-- One part of a key. -/
def keyPart : List Char → Option (String × List Char)
  | '"' :: cs => (basic cs).map fun (s, cs) => (String.ofList s, cs)
  | '\'' :: cs => (raw cs).map fun (s, cs) => (String.ofList s, cs)
  | cs =>
      let part := cs.takeWhile isKeyChar
      if part = [] then none else some (String.ofList part, cs.dropWhile isKeyChar)

/-- The parts of a key, with dots between them and blanks around. -/
def keyParts : Nat → List Char → Option (List String × List Char)
  | 0, _ => none
  | rounds + 1, cs => do
      let (part, cs) ← keyPart (dropBlanks cs)
      match dropBlanks cs with
      | '.' :: cs =>
          let (parts, cs) ← keyParts rounds cs
          return (part :: parts, cs)
      | cs => return ([part], cs)

/-- A key: the parts before the last one, and the last one. -/
def key (cs : List Char) : Option ((List String × String) × List Char) := do
  let (parts, cs) ← keyParts deepest cs
  let last ← parts.getLast?
  return ((parts.dropLast, last), cs)

/-! ### Values -/

/-- The rest of a list, after its opening bracket or a comma. -/
def items (item : List Char → Option (Value × List Char)) :
    Nat → List Char → Option (List Value × List Char)
  | 0, _ => none
  | rounds + 1, cs =>
      match dropAllSpace cs with
      | ']' :: cs => some ([], cs)
      | cs => do
          let (v, cs) ← item cs
          match dropAllSpace cs with
          | ',' :: cs =>
              let (vs, cs) ← items item rounds cs
              return (v :: vs, cs)
          | ']' :: cs => return ([v], cs)
          | _ => none

/-- The rest of an inline table, from a key on; `t` is what it holds so far. -/
def pairs (item : List Char → Option (Value × List Char)) :
    Nat → Table → List Char → Option (Value × List Char)
  | 0, _, _ => none
  | rounds + 1, t, cs => do
      let ((path, last), cs) ← key cs
      let (v, cs) ← item (dropBlanks (← after '=' cs))
      let t ← t.insert? path last v
      match dropBlanks cs with
      | ',' :: cs => pairs item rounds t cs
      | '\x7d' :: cs => return (t.toValue, cs)
      | _ => none

/-- What follows a word. -/
def dropWord? (word : String) (cs : List Char) : Option (List Char) :=
  if word.toList.isPrefixOf cs then some (cs.drop word.toList.length) else none

/-- A value without parts. -/
def plainValue (cs : List Char) : Option (Value × List Char) :=
  match cs with
  | '"' :: _ | '\'' :: _ => (anyText cs).map fun (s, cs) => (.text (String.ofList s), cs)
  | 't' :: _ => (dropWord? "true" cs).map (.bool true, ·)
  | 'f' :: _ => (dropWord? "false" cs).map (.bool false, ·)
  | cs => dateTime cs <|> number cs

/-- A value with at most `room` levels of lists and inline tables. -/
def value : Nat → List Char → Option (Value × List Char)
  | 0, cs => plainValue cs
  | room + 1, cs =>
      match cs with
      | '[' :: cs => (items (value room) (cs.length + 1) cs).map fun (vs, cs) =>
          (.array false vs, cs)
      | '\x7b' :: cs =>
          match dropBlanks cs with
          | '\x7d' :: cs => some (.table [], cs)
          | cs => pairs (value room) (cs.length + 1) .new cs
      | cs => plainValue cs

/-! ### Lines -/

/-- A header after its opening brackets. -/
def header (b : Builder) (cs : List Char) : Option (Builder × List Char) :=
  match cs with
  | '[' :: cs => do
      let ((parents, last), cs) ← key cs
      let cs ← after ']' (← after ']' cs)
      return (← b.startTables parents last, ← dropLine? cs)
  | cs => do
      let ((parents, last), cs) ← key cs
      return (← b.startTable parents last, ← dropLine? (← after ']' cs))

/-- A key with its value. -/
def pair (b : Builder) (cs : List Char) : Option (Builder × List Char) := do
  let ((path, last), cs) ← key cs
  let (v, cs) ← value deepest (dropBlanks (← after '=' cs))
  return (← b.addLine path last v, ← dropLine? cs)

/-- The lines of a document. -/
def documentLines : Nat → Builder → List Char → Option Builder
  | 0, _, _ => none
  | rounds + 1, b, cs =>
      match dropBlanks cs with
      | [] => some b
      | '[' :: cs => do
          let (b, cs) ← header b cs
          documentLines rounds b cs
      | '#' :: _ | '\n' :: _ | '\r' :: _ => do documentLines rounds b (← dropLine? cs)
      | cs => do
          let (b, cs) ← pair b cs
          documentLines rounds b cs

/-- What follows a mark of byte order. -/
def dropMark : List Char → List Char
  | '\ufeff' :: cs => cs
  | cs => cs

/-- The value of a document. -/
def parse (text : String) : Option Value :=
  let cs := dropMark text.toList
  (documentLines (cs.length + 1) .start cs).bind Builder.finish

/-- What a reader makes of a document. -/
def read {α : Type} (decode : Value → Except Data.Fault α) (text : String) : Except Data.Fault α :=
  match parse text with
  | none => .error .malformed
  | some v => decode v

end Toml
end Marshal
