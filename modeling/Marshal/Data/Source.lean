import Marshal.Data.Value

/-!
# Reading from any source of values

The same records are read from the text of a JSON document, from a TOML document and from values
that were put aside.  A **source** says what it sees when it looks at a value, and settles the
few questions on which the three differ; everything else is written here once.

Reading goes through a value from left to right, and the first problem met is the one reported.
A list or table that is looked at is a **stream**: its elements, and possibly a fault after them.

## Main definitions

* `Stream`, `Look`, `Source` — what a reader sees.
* `readText`, `readCount`, `readList`, `readOptional` — plain values.
* `Layout`, `readRecord` — records, written as tables or as lists in the order of their fields.
* `readEntries` — tables whose every entry is shown to the reader.
* `readTagged` — values of which one entry says how the others are meant.
-/

namespace Marshal
namespace Data

/-! ### What a reader sees -/

/-- Elements, and what goes wrong after them, if anything does. -/
structure Stream (α : Type) where
  /-- The elements that can be reached. -/
  elements : List α
  /-- The fault met after them. -/
  fault : Option Fault
  deriving Inhabited

/-- What is seen when a value is looked at.  Entering a list or table may already fail. -/
inductive Look (σ : Type) where
  /-- A value without parts. -/
  | scalar (found : Found)
  /-- A number without a sign. -/
  | natural (n : Nat)
  /-- A number with a sign. -/
  | signed (i : Int)
  /-- A text. -/
  | text (s : String)
  /-- A list. -/
  | seq (enter : Except Fault (Stream σ))
  /-- A table; each key is shown when the entry is reached. -/
  | map (enter : Except Fault (Stream (Except Fault String × σ)))

/-- What a reader that wanted something else finds. -/
def Look.found {σ : Type} : Look σ → Found
  | .scalar f => f
  | .natural n => .integer n
  | .signed i => .integer i
  | .text s => .text s
  | .seq _ => .seq
  | .map _ => .map

/-- A kind of value that records can be read from. -/
class Source (σ : Type) where
  /-- Look at a value. -/
  look : σ → Except Fault (Look σ)
  /-- Whether a value is the empty one; only what could still be it has to be well formed. -/
  isNull : σ → Except Fault Bool
  /-- Pass over a value. -/
  skip : σ → Except Fault Unit
  /-- Put a value aside for a second reading. -/
  keep : σ → Except Fault Value
  /-- Read one of several named alternatives without payload, as its position. -/
  choose : List String → σ → Except Fault Nat
  /-- Read the name of an alternative, as its position. -/
  identify : List String → σ → Except Fault Nat
  /-- Settle what is left of a list of which `taken` elements were read. -/
  settle : Nat → Stream σ → Except Fault Unit

variable {σ : Type} [Source σ]

/-! ### Plain values -/

/-- The fault of finding something else than what was wanted. -/
def wrongType {α : Type} (found : Found) (wanted : String) : Except Fault α :=
  .error (.mismatch (.wrongType found wanted))

/-- The position of a name among the alternatives. -/
def variantOf (names : List String) (name : String) : Except Fault Nat :=
  match names.findIdx? (· = name) with
  | some i => .ok i
  | none => .error (.mismatch (.unknownVariant name names))

/-- Read a text; `wanted` is how it is called. -/
def readText (wanted : String) (v : σ) : Except Fault String := do
  match ← Source.look v with
  | .text s => return s
  | other => wrongType other.found wanted

/-- Read a number of things. -/
def readCount (v : σ) : Except Fault Nat := do
  match ← Source.look v with
  | .natural n => return n
  | .signed i =>
      if 0 ≤ i then return i.toNat
      else throw (.mismatch (.wrongValue (.integer i) "usize"))
  | other => wrongType other.found "usize"

/-- The elements of a stream, if it has no fault, read one after the other. -/
def Stream.readAll {α β : Type} (read : α → Except Fault β) (s : Stream α) :
    Except Fault (List β) := do
  let items ← s.elements.mapM read
  match s.fault with
  | none => return items
  | some f => throw f

/-- Read a list. -/
def readList {α : Type} (item : σ → Except Fault α) (v : σ) : Except Fault (List α) := do
  match ← Source.look v with
  | .seq enter => (← enter).readAll item
  | other => wrongType other.found "a sequence"

/-- Read a value that may be empty. -/
def readOptional {α : Type} (read : σ → Except Fault α) (v : σ) : Except Fault (Option α) := do
  if ← Source.isNull v then return none else some <$> read v

/-! ### Records -/

/-- The outline of a record: what it is called, and its fields in order. -/
structure Layout where
  /-- How the record is called. -/
  title : String
  /-- The names of its fields, in declaration order. -/
  fields : List String
  deriving Repr, Inhabited

/-- How the record is called where its number of fields matters. -/
def Layout.counted (l : Layout) : String :=
  if l.fields.length = 1 then s!"{l.title} with 1 element"
  else s!"{l.title} with {l.fields.length} elements"

/-- The fault of a missing field of a record. -/
abbrev Missing := Nat → Fault

/-- A field missing from a table is reported by its name. -/
def Layout.missingName (l : Layout) : Missing := fun i =>
  .mismatch (.missingField (l.fields.getD i ""))

/-- A field missing from a list is reported by its place. -/
def Layout.missingPlace (l : Layout) : Missing := fun i =>
  .mismatch (.wrongLength i l.counted)

/-- Read the entries of a record written as a table.  Each field may occur once; entries that
are no field are passed over. -/
def readFields {S : Type} (l : Layout) (put : S → Nat → σ → Except Fault S) :
    S → List Nat → List (Except Fault String × σ) → Except Fault S
  | s, _, [] => .ok s
  | s, seen, (key, v) :: rest => do
      match l.fields.findIdx? (· = (← key)) with
      | none =>
          Source.skip v
          readFields l put s seen rest
      | some i =>
          if i ∈ seen then throw (.mismatch (.duplicateField (l.fields.getD i "")))
          readFields l put (← put s i v) (i :: seen) rest

/-- Read the fields from number `i` on of a record written as a list; the rest of the list is
given back. -/
def readPlaces {S : Type} (put : S → Nat → σ → Except Fault S) :
    S → Nat → Nat → Stream σ → Except Fault (S × Nat × Stream σ)
  | s, i, 0, stream => .ok (s, i, stream)
  | s, i, n + 1, ⟨v :: vs, f⟩ => do readPlaces put (← put s i v) (i + 1) n ⟨vs, f⟩
  | _, _, _ + 1, ⟨[], some f⟩ => .error f
  | s, i, _ + 1, ⟨[], none⟩ => .ok (s, i, ⟨[], none⟩)

/-- Read a record: `put` takes in one field, `finish` says what the fields amount to, given how
a missing one is reported. -/
def readRecord {S α : Type} (l : Layout) (start : S) (put : S → Nat → σ → Except Fault S)
    (finish : Missing → S → Except Fault α) (v : σ) : Except Fault α := do
  match ← Source.look v with
  | .map enter =>
      let stream ← enter
      let s ← readFields l put start [] stream.elements
      if let some f := stream.fault then throw f
      finish l.missingName s
  | .seq enter =>
      let (s, taken, rest) ← readPlaces put start 0 l.fields.length (← enter)
      let a ← finish l.missingPlace s
      Source.settle taken rest
      return a
  | other => wrongType other.found l.title

/-- Read a table, showing every entry to the reader. -/
def readEntries {S : Type} (title : String) (put : S → String → σ → Except Fault S) (start : S)
    (v : σ) : Except Fault S := do
  match ← Source.look v with
  | .map enter =>
      let stream ← enter
      let s ← stream.elements.foldlM (fun s (key, v) => do put s (← key) v) start
      if let some f := stream.fault then throw f
      return s
  | other => wrongType other.found title

/-! ### Tagged values -/

/-- Read a value of which one entry names the alternative the rest belongs to.  The rest is put
aside as it comes; in a list the name comes first. -/
def readTagged (title tag : String) (names : List String) (v : σ) :
    Except Fault (Nat × Value) := do
  match ← Source.look v with
  | .map enter =>
      let stream ← enter
      let step : Option Nat × List (String × Value) → Except Fault String × σ →
          Except Fault (Option Nat × List (String × Value)) := fun (found, rest) (key, v) => do
        let key ← key
        if key = tag then
          if found.isSome then throw (.mismatch (.duplicateField tag))
          return (some (← Source.identify names v), rest)
        else return (found, rest ++ [(key, ← Source.keep v)])
      let (found, rest) ← stream.elements.foldlM step (none, [])
      if let some f := stream.fault then throw f
      match found with
      | none => throw (.mismatch (.missingField tag))
      | some i => return (i, .map rest)
  | .seq enter =>
      let stream ← enter
      match stream with
      | ⟨[], some f⟩ => throw f
      | ⟨[], none⟩ => throw (.mismatch (.missingField tag))
      | ⟨first :: rest, f⟩ =>
          let i ← Source.identify names first
          return (i, .seq (← Stream.readAll Source.keep ⟨rest, f⟩))
  | other => wrongType other.found title

end Data
end Marshal
