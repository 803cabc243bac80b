import Marshal.Data.Fault

/-!
# Self-describing values

What a data format can say without knowing who reads it: the empty value, truth values, numbers,
texts, lists and tables.  Numbers that are not whole are kept as they are written in messages,
since nothing is computed with them.

## Main definitions

* `Value` — the values.
* `Value.depth` — how deep lists and tables are nested in a value.
-/

namespace Marshal
namespace Data

/-- A self-describing value. -/
inductive Value where
  /-- The empty value. -/
  | null
  /-- A truth value. -/
  | bool (b : Bool)
  /-- A whole number from a format that tells numbers without sign apart. -/
  | natural (n : Nat)
  /-- Any other whole number. -/
  | signed (i : Int)
  /-- A number that is not whole, as written in messages. -/
  | float (text : String)
  /-- A text. -/
  | text (s : String)
  /-- A list. -/
  | seq (items : List Value)
  /-- A table, in the order of its entries; a name may occur more than once. -/
  | map (entries : List (String × Value))
  deriving Repr, Inhabited

namespace Value

mutual

/-- How deep lists and tables are nested in a value. -/
def depth : Value → Nat
  | .seq items => depthItems items + 1
  | .map entries => depthEntries entries + 1
  | _ => 0

/-- The greatest depth of the items of a list. -/
def depthItems : List Value → Nat
  | [] => 0
  | v :: vs => max v.depth (depthItems vs)

/-- The greatest depth of the values of a table. -/
def depthEntries : List (String × Value) → Nat
  | [] => 0
  | (_, v) :: es => max v.depth (depthEntries es)

end

/-- What a reader that wanted something else finds. -/
def found : Value → Found
  | .null => .null
  | .bool b => .bool b
  | .natural n => .integer n
  | .signed i => .integer i
  | .float spelling => .float spelling
  | .text s => .text s
  | .seq _ => .seq
  | .map _ => .map

end Value
end Data
end Marshal
