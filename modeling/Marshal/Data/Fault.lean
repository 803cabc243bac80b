import Marshal.Text.Quoted

/-!
# Why a text does not describe what was wanted

A described value can fail to be read in three ways: its text is not well formed, its text ends
too early, or the text is fine and its shape is not the one wanted.  The first two say no more;
a **mismatch** says what was found and what was wanted, and has one fixed wording.

## Main definitions

* `Found` — what stood where something else was wanted.
* `Mismatch`, `Mismatch.message` — the causes of a wrong shape, and their wording.
* `Fault` — the three ways to fail.
-/

namespace Marshal
namespace Data

/-- What stood where something else was wanted. -/
inductive Found where
  /-- The empty value. -/
  | null
  /-- A truth value. -/
  | bool (b : Bool)
  /-- A whole number. -/
  | integer (i : Int)
  /-- Any other number, as it is written in messages. -/
  | float (text : String)
  /-- A text. -/
  | text (s : String)
  /-- A list of values. -/
  | seq
  /-- A table of named values. -/
  | map
  deriving DecidableEq, Repr, Inhabited

/-- How messages name what was found. -/
def Found.describe : Found → String
  | .null => "null"
  | .bool b => s!"boolean `{b}`"
  | .integer i => s!"integer `{i}`"
  | .float spelling => s!"floating point `{spelling}`"
  | .text s => "string " ++ Text.quoted s
  | .seq => "sequence"
  | .map => "map"

/-- Why a well-formed value has the wrong shape. -/
inductive Mismatch where
  /-- A value of the wrong kind. -/
  | wrongType (found : Found) (wanted : String)
  /-- A value of the right kind, but out of range. -/
  | wrongValue (found : Found) (wanted : String)
  /-- A list with the wrong number of elements. -/
  | wrongLength (length : Nat) (wanted : String)
  /-- A name that is none of the alternatives. -/
  | unknownVariant (name : String) (known : List String)
  /-- A field that has to be there is not. -/
  | missingField (name : String)
  /-- A field is there twice. -/
  | duplicateField (name : String)
  /-- A value that no alternative can be read from. -/
  | noVariant
  /-- A table where one with a single entry names an alternative, with none. -/
  | noEntry
  /-- A table where one with a single entry names an alternative, with more. -/
  | manyEntries
  /-- The payload of an alternative that has none, of kind `kind`. -/
  | payload (kind : String)
  /-- The payload of an alternative that has none, a table or list that is not empty. -/
  | fullPayload (kind : String)
  deriving DecidableEq, Repr, Inhabited

/-- The alternatives, as messages list them. -/
def listVariants : List String → String
  | [] => "there are no variants"
  | [a] => s!"expected `{a}`"
  | [a, b] => s!"expected `{a}` or `{b}`"
  | names => "expected one of " ++ ", ".intercalate (names.map fun n => s!"`{n}`")

/-- The wording of a mismatch. -/
def Mismatch.message : Mismatch → String
  | .wrongType found wanted => s!"invalid type: {found.describe}, expected {wanted}"
  | .wrongValue found wanted => s!"invalid value: {found.describe}, expected {wanted}"
  | .wrongLength length wanted => s!"invalid length {length}, expected {wanted}"
  | .unknownVariant name known => s!"unknown variant `{name}`, {listVariants known}"
  | .missingField name => s!"missing field `{name}`"
  | .duplicateField name => s!"duplicate field `{name}`"
  | .noVariant => "wanted string or table"
  | .noEntry => "wanted exactly 1 element, found 0 elements"
  | .manyEntries => "wanted exactly 1 element, more than 1 element"
  | .payload kind => s!"expected table, found {kind}"
  | .fullPayload kind => s!"expected empty {kind}"

/-- Why a value could not be read from a text. -/
inductive Fault where
  /-- The text is not well formed. -/
  | malformed
  /-- The text ends too early. -/
  | ended
  /-- The text is fine, its shape is not. -/
  | mismatch (cause : Mismatch)
  deriving DecidableEq, Repr, Inhabited

end Data
end Marshal
