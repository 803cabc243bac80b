import Marshal.Data.Source

/-!
# TOML values as a source

A TOML document is well formed as a whole before anything is read from it, so only its shape can
be wrong.  There is no empty value; a date shows itself as a table with one entry of a reserved
name; an alternative is a text, or a table with one entry that is empty.

## Main definitions

* `Value` — the values of a document.
* `Source Value` — the instance.
-/

namespace Marshal
namespace Toml

open Data

/-- A value of a document. -/
inductive Value where
  /-- A text. -/
  | text (s : String)
  /-- A whole number. -/
  | integer (i : Int)
  /-- Any other number, as written in messages. -/
  | float (spelling : String)
  /-- A truth value. -/
  | bool (b : Bool)
  /-- A date, a time, or both. -/
  | date
  /-- A list; `headed` says whether its items are tables with headers of their own. -/
  | array (headed : Bool) (items : List Value)
  /-- A table, in the order of its entries. -/
  | table (entries : List (String × Value))
  deriving Repr, Inhabited

namespace Value

/-- The name under which a date shows itself. -/
def dateKey : String := "$__toml_private_datetime"

/-- What is seen of a value. -/
def look : Value → Look Value
  | .text s => .text s
  | .integer i => .signed i
  | .float spelling => .scalar (.float spelling)
  | .bool b => .scalar (.bool b)
  | .date => .map (.ok ⟨[(.ok dateKey, .text "")], none⟩)
  | .array _ items => .seq (.ok ⟨items, none⟩)
  | .table entries => .map (.ok ⟨entries.map fun (k, v) => (.ok k, v), none⟩)

mutual

/-- A value put aside for a second reading. -/
def keep : Value → Data.Value
  | .text s => .text s
  | .integer i => .signed i
  | .float spelling => .float spelling
  | .bool b => .bool b
  | .date => .map [(dateKey, .text "")]
  | .array _ items => .seq (keepItems items)
  | .table entries => .map (keepEntries entries)

/-- The items of a list put aside. -/
def keepItems : List Value → List Data.Value
  | [] => []
  | v :: vs => keep v :: keepItems vs

/-- The entries of a table put aside. -/
def keepEntries : List (String × Value) → List (String × Data.Value)
  | [] => []
  | (k, v) :: es => (k, keep v) :: keepEntries es

end

/-- The name of an alternative. -/
def identify (names : List String) (v : Value) : Except Fault Nat :=
  match v with
  | .text s => variantOf names s
  | v => wrongType v.look.found "variant identifier"

/-- What stands where an alternative has nothing has to be empty. -/
def checkPayload (v : Value) : Except Fault Unit :=
  match v with
  | .table [] | .array _ [] => .ok ()
  | .table _ | .array false _ => .error (.mismatch (.fullPayload "table"))
  | .array true _ => .error (.mismatch (.fullPayload "array"))
  | .text _ => .error (.mismatch (.payload "string"))
  | .integer _ => .error (.mismatch (.payload "integer"))
  | .float _ => .error (.mismatch (.payload "float"))
  | .bool _ => .error (.mismatch (.payload "boolean"))
  | .date => .error (.mismatch (.payload "datetime"))

/-- An alternative without payload: its name, or a table with its name and nothing. -/
def choose (names : List String) : Value → Except Fault Nat
  | .text s => variantOf names s
  | .table [] => .error (.mismatch .noEntry)
  | .table [(key, v)] => do
      let i ← variantOf names key
      checkPayload v
      return i
  | .table _ => .error (.mismatch .manyEntries)
  | _ => .error (.mismatch .noVariant)

end Value

instance : Source Value where
  look v := .ok v.look
  isNull _ := .ok false
  skip _ := .ok ()
  keep v := .ok v.keep
  choose := Value.choose
  identify := Value.identify
  settle _ _ := .ok ()

end Toml
end Marshal
