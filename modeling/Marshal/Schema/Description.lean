import Marshal.Path
import Marshal.Schema.Decode
import Marshal.Schema.Link

/-!
# Descriptions of source files

A schema file describes the types of one source file.  The policy of a type selects the fields
that take part, and a mark on a field overrides it.  References between types of the same file
are linked at once, and no two types of a file may share a name.

## Main definitions

* `Mark`, `FieldEntry`, `TypeEntry`, `Description` — what a schema file says.
* `readDescription` — read it from any source of values.
* `Analysis` — the types of one source file, as a graph of their own.
* `Description.analyze` — from one to the other.
-/

namespace Marshal
namespace Schema

open Data

/-! ### What a schema file says -/

/-- A mark that overrides the policy of a type for one field. -/
inductive Mark where
  /-- The field takes part. -/
  | serialize
  /-- The field does not take part. -/
  | exclude
  deriving DecidableEq, Repr, Inhabited

/-- A field, and how it is marked. -/
structure FieldEntry where
  /-- The field. -/
  field : Field
  /-- Its mark. -/
  mark : Option Mark
  deriving Repr, Inhabited

/-- A type. -/
structure TypeEntry where
  /-- Its name. -/
  name : String
  /-- Its policy. -/
  policy : Option Policy
  /-- The formats asked for. -/
  formats : List String
  /-- The names of its bases. -/
  bases : List String
  /-- Its fields. -/
  fields : List FieldEntry
  deriving Repr, Inhabited

/-- The contents of a schema file. -/
structure Description where
  /-- The source file, seen from the directory of the schema file. -/
  source : Option FilePath
  /-- The types. -/
  types : List TypeEntry
  deriving Repr, Inhabited

/-! ### Reading -/

variable {σ : Type} [Source σ]

/-- Read a mark. -/
def readMark (v : σ) : Except Fault Mark := do
  return if (← Source.choose ["serialize", "exclude"] v) = 0 then .serialize else .exclude

/-- Take in one entry of a field.  The mark is read at once; what else belongs to the field is
read when all entries are known. -/
def putFieldEntry (p : Option (Option Mark) × List (String × Value)) (key : String) (v : σ) :
    Except Fault (Option (Option Mark) × List (String × Value)) := do
  if key = "mark" then
    if p.1.isSome then throw (.mismatch (.duplicateField "mark"))
    return (some (← readOptional readMark v), p.2)
  else return (p.1, p.2 ++ [(key, ← Source.keep v)])

/-- Read a field with its mark.  Such a record is always a table. -/
def readFieldEntry (v : σ) : Except Fault FieldEntry := do
  let (mark, others) ← readEntries "struct FieldEntry" putFieldEntry (none, []) v
  let own := others.filter fun (key, _) => key ∈ fieldLayout.fields
  return ⟨← readField (Value.map own), mark.join⟩

/-- The outline of a type. -/
def typeLayout : Layout :=
  ⟨"struct TypeEntry", ["name", "policy", "formats", "bases", "fields"]⟩

/-- What has been read of a type. -/
structure TypeParts where
  /-- Its name. -/
  name : Option String
  /-- All else. -/
  rest : TypeEntry
  deriving Inhabited

/-- Take in one part of a type. -/
def putTypePart (p : TypeParts) (place : Nat) (v : σ) : Except Fault TypeParts := do
  match place with
  | 0 => return { p with name := some (← readText "a string" v) }
  | 1 => return { p with rest := { p.rest with policy := ← readOptional readPolicy v } }
  | 2 => return { p with rest := { p.rest with formats := ← readList (readText "a string") v } }
  | 3 => return { p with rest := { p.rest with bases := ← readList (readText "a string") v } }
  | _ => return { p with rest := { p.rest with fields := ← readList readFieldEntry v } }

/-- The type that parts make up. -/
def TypeParts.finish (missing : Missing) (p : TypeParts) : Except Fault TypeEntry := do
  return { p.rest with name := ← need missing 0 p.name }

/-- Read a type. -/
def readType (v : σ) : Except Fault TypeEntry :=
  readRecord typeLayout ⟨none, ⟨"", none, [], [], []⟩⟩ putTypePart TypeParts.finish v

/-- Take in one part of a description. -/
def putDescriptionPart (d : Description) (place : Nat) (v : σ) : Except Fault Description := do
  match place with
  | 0 => return { d with source := (← readOptional (readText "path string") v).map .mk }
  | _ => return { d with types := ← readList readType v }

/-- Read a description. -/
def readDescription (v : σ) : Except Fault Description :=
  readRecord ⟨"struct SchemaFile", ["source", "types"]⟩ ⟨none, []⟩ putDescriptionPart
    (fun _ d => .ok d) v

/-! ### Types of one source file -/

/-- The types of one source file. -/
structure Analysis where
  /-- The source file. -/
  source : FilePath
  /-- The nodes. -/
  graph : Graph
  /-- The types of the file, in declaration order. -/
  tree : List NodeId
  /-- The names the file knows. -/
  names : Names
  deriving Repr, Inhabited

namespace Analysis

/-- Whether the file has no types. -/
def isEmpty (a : Analysis) : Bool := a.tree.isEmpty

/-- The types of a file, and further nodes that are only known by name. -/
def ofNodes (source : FilePath) (nodes helpers : List Node) : Analysis :=
  let all := nodes ++ helpers
  ⟨source, ⟨all⟩, List.range nodes.length,
    all.zipIdx.foldl (fun m (n, id) => m.define n.name id) .empty⟩

end Analysis

/-- Whether a field takes part in a type with the given policy. -/
def FieldEntry.isSelected (policy : Policy) (e : FieldEntry) : Bool :=
  match e.mark with
  | some .serialize => true
  | some .exclude => false
  | none => policy.takes e.field.access

/-- The node of a type; without a policy all its fields take part. -/
def TypeEntry.toNode (t : TypeEntry) : Node :=
  let policy := t.policy.getD .all
  Node.normalize
    ⟨t.name, policy, t.formats, (t.fields.filter (·.isSelected policy)).map (·.field),
      t.bases.map fun b => ⟨b, none⟩⟩

/-- A text without an ending, if it has it. -/
def withoutEnding? (text ending : String) : Option String :=
  if ending.toList.isSuffixOf text.toList then
    some (String.ofList (text.toList.take (text.toList.length - ending.toList.length)))
  else none

/-- What comes before the last dot of a text, if there is one. -/
def beforeDot? (text : String) : Option String :=
  match text.toList.reverse.dropWhile (· ≠ '.') with
  | [] => none
  | _ :: before => some (String.ofList before.reverse)

/-- The source file that a schema file describes if it names none: its neighbour of the same name
that ends in `.h`. -/
def defaultSource (schema : FilePath) : FilePath :=
  let name := schema.fileName.getD ""
  let stem := (withoutEnding? name ".sast.json" <|> withoutEnding? name ".sast.toml" <|>
    beforeDot? name).getD name
  schema.withFileName (stem ++ ".h")

/-- The first name that occurs a second time. -/
def firstRepeated? : List String → List String → Option String
  | _, [] => none
  | seen, name :: rest => if name ∈ seen then some name else firstRepeated? (name :: seen) rest

namespace Description

/-- The source file that a schema file describes. -/
def sourceOf (d : Description) (schema : FilePath) : FilePath :=
  match d.source with
  | none => defaultSource schema
  | some source => (schema.parent.map (·.join source)).getD source

/-- The types of the source file, linked among each other; or the name that is declared twice. -/
def analyze (d : Description) (schema : FilePath) : Except String Analysis :=
  let a := Analysis.ofNodes (d.sourceOf schema) (d.types.map TypeEntry.toNode) []
  match firstRepeated? [] (d.types.map (·.name)) with
  | some name => .error name
  | none => .ok { a with graph := (a.graph.link a.names a.tree).1 }

end Description
end Schema
end Marshal
