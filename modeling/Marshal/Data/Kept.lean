import Marshal.Data.Source

/-!
# Values put aside as a source

A value that was put aside has been read completely once, so looking at it never fails.  A list
that stands for a record must not have more elements than the record has fields; an alternative
may be given by its number, and its payload, if written, is empty.

## Main definitions

* `Source Value` — the instance.
-/

namespace Marshal
namespace Data
namespace Value

/-- What is seen of a value that was put aside. -/
def look : Value → Look Value
  | .null => .scalar .null
  | .bool b => .scalar (.bool b)
  | .natural n => .natural n
  | .signed i => .signed i
  | .float spelling => .scalar (.float spelling)
  | .text s => .text s
  | .seq items => .seq (.ok ⟨items, none⟩)
  | .map entries => .map (.ok ⟨entries.map fun (k, v) => (.ok k, v), none⟩)

/-- How the length of a list is called where `n` elements were wanted. -/
def elementsInSequence (n : Nat) : String :=
  if n = 1 then "1 element in sequence" else s!"{n} elements in sequence"

/-- The name of an alternative, or its number. -/
def identify (names : List String) : Value → Except Fault Nat
  | .text s => variantOf names s
  | .natural n =>
      if n < names.length then .ok n
      else .error (.mismatch (.wrongValue (.integer n)
        s!"variant index 0 <= i < {names.length}"))
  | v => wrongType v.found "variant identifier"

/-- An alternative without payload: its name, or a table with its name and an empty value. -/
def choose (names : List String) : Value → Except Fault Nat
  | .text s => variantOf names s
  | .map [(k, v)] => do
      let i ← variantOf names k
      match v with
      | .null | .map [] => return i
      | v => wrongType v.found "unit"
  | .map _ => .error (.mismatch (.wrongValue .map "map with a single key"))
  | v => wrongType v.found "string or map"

/-- A list that stands for a record must be used up. -/
def settle (taken : Nat) (rest : Stream Value) : Except Fault Unit :=
  if rest.elements.length = 0 then .ok ()
  else .error (.mismatch (.wrongLength (taken + rest.elements.length) (elementsInSequence taken)))

end Value

instance : Source Value where
  look v := .ok v.look
  isNull v := .ok (v.found = .null)
  skip _ := .ok ()
  keep v := .ok v
  choose := Value.choose
  identify := Value.identify
  settle := Value.settle

end Data
end Marshal
