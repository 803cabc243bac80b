import Marshal.Data.Kept
import Marshal.Schema.Bundle

/-!
# Nodes and bundles from values

Records are read from any source of values: as tables, or as lists in the order of their fields.
What may be left out has a default; unknown fields are passed over.  The kind of a field is put
aside first, because what belongs to it depends on its name, so everything inside a kind is read
from values that were put aside.

## Main definitions

* `readField`, `readNode`, `readBundle` — the readers.
-/

namespace Marshal
namespace Schema

open Data

variable {σ : Type} [Source σ]

/-! ### Names of alternatives -/

/-- Read one of a list of alternatives. -/
def readChoice {α : Type} (all : List α) (name : α → String) (default : α) (v : σ) :
    Except Fault α := do
  return all.getD (← Source.choose (all.map name) v) default

/-- Read a kind of access. -/
def readAccess (v : σ) : Except Fault Access := readChoice Access.all Access.name .anyone v

/-- Read a policy. -/
def readPolicy (v : σ) : Except Fault Policy := readChoice Policy.every Policy.name .custom v

/-- The alternatives for a kind, in order; `e`, `k` and `v` stand for what is inside. -/
def kinds : List (Kind Unit) :=
  Scalar.all.map .scalar ++
  [.object, .pod, .staticArray (), .dynamicArray () "", .vector (), .set true (), .set false (),
    .map true () (), .map false () ()]

/-! ### Fields -/

/-- The outline of a field. -/
def fieldLayout : Layout :=
  ⟨"struct SastField", ["name", "formatted_name", "type", "original_type_name", "access"]⟩

/-- What has been read of a field. -/
structure FieldParts where
  /-- Its name. -/
  name : Option String
  /-- Its serialized name. -/
  formattedName : Option String
  /-- Its kind. -/
  kind : Option (Kind Field)
  /-- Its type as it is spelled. -/
  typeName : Option String
  /-- Who may name it. -/
  access : Option Access
  deriving Inhabited

/-- A field of which nothing has been read. -/
def FieldParts.none : FieldParts := ⟨.none, .none, .none, .none, .none⟩

/-- The field that parts make up; only the kind has to be there. -/
def FieldParts.finish (missing : Missing) (p : FieldParts) : Except Fault Field :=
  match p.kind with
  | .none => .error (missing 2)
  | some kind =>
      .ok ⟨p.name.getD "", p.formattedName.getD "", kind, p.typeName.getD "",
        p.access.getD .anyone, .none⟩

/-- What is in a container is described by an element, or by a key and a value. -/
structure KindParts where
  /-- The element. -/
  element : Option Field
  /-- The field that holds the length. -/
  lengthVar : Option String
  /-- The key. -/
  key : Option Field
  /-- The value. -/
  value : Option Field
  deriving Inhabited

/-- The title of the record that belongs to a kind. -/
def kindTitle (k : Kind Unit) : String :=
  "struct variant SastType::" ++ match k with
    | .staticArray _ => "StaticArray"
    | .dynamicArray _ _ => "DynamicArray"
    | .vector _ => "Vector"
    | .set true _ => "Set"
    | .set false _ => "UnorderedSet"
    | .map true _ _ => "Map"
    | .map false _ _ => "UnorderedMap"
    | _ => k.name

/-- The outline of the record that belongs to a kind. -/
def kindLayout (k : Kind Unit) : Layout :=
  ⟨kindTitle k, match k with
    | .dynamicArray _ _ => ["element", "length_var"]
    | .map _ _ _ => ["key", "value"]
    | _ => ["element"]⟩

/-- A part of a kind that has to be there. -/
def need {α : Type} (missing : Missing) (place : Nat) (part : Option α) : Except Fault α :=
  match part with
  | some a => .ok a
  | none => .error (missing place)

/-- The kind that parts make up. -/
def KindParts.finish (k : Kind Unit) (missing : Missing) (p : KindParts) :
    Except Fault (Kind Field) :=
  match k with
  | .scalar s => .ok (.scalar s)
  | .object => .ok .object
  | .pod => .ok .pod
  | .staticArray _ => do return .staticArray (← need missing 0 p.element)
  | .dynamicArray _ _ => do
      return .dynamicArray (← need missing 0 p.element) (← need missing 1 p.lengthVar)
  | .vector _ => do return .vector (← need missing 0 p.element)
  | .set sorted _ => do return .set sorted (← need missing 0 p.element)
  | .map sorted _ _ => do
      return .map sorted (← need missing 0 p.key) (← need missing 1 p.value)

/-- Take in one part of a kind. -/
def putKindPart (field : Value → Except Fault Field) (l : Layout) (p : KindParts) (place : Nat)
    (v : Value) : Except Fault KindParts := do
  match l.fields[place]? with
  | some "element" => return { p with element := some (← field v) }
  | some "length_var" => return { p with lengthVar := some (← readText "a string" v) }
  | some "key" => return { p with key := some (← field v) }
  | some "value" => return { p with value := some (← field v) }
  | _ => return p

/-- Read what belongs to a kind without parts: nothing, though a table may say more. -/
def readNoParts (v : Value) : Except Fault Unit :=
  match v with
  | .seq items => Source.settle 0 (⟨items, none⟩ : Stream Value)
  | _ => .ok ()

/-- Read a kind; `field` reads what is inside. -/
def readKindWith (field : Value → Except Fault Field) (v : σ) : Except Fault (Kind Field) := do
  let (i, rest) ← readTagged "internally tagged enum SastType" "kind" (kinds.map Kind.name) v
  let k := kinds.getD i .object
  if k.children.isEmpty then
    readNoParts rest
    KindParts.finish k (fun _ => .malformed) ⟨none, none, none, none⟩
  else
    let l := kindLayout k
    readRecord l ⟨none, none, none, none⟩ (putKindPart field l) (KindParts.finish k) rest

/-- Take in one part of a field; `field` reads what is inside its kind. -/
def putFieldPart (field : Value → Except Fault Field) (p : FieldParts) (place : Nat) (v : σ) :
    Except Fault FieldParts := do
  match place with
  | 0 => return { p with name := some (← readText "a string" v) }
  | 1 => return { p with formattedName := some (← readText "a string" v) }
  | 2 => return { p with kind := some (← readKindWith field v) }
  | 3 => return { p with typeName := some (← readText "a string" v) }
  | _ => return { p with access := some (← readAccess v) }

/-- Read a field; `field` reads what is inside its kind. -/
def readFieldWith (field : Value → Except Fault Field) (v : σ) : Except Fault Field :=
  readRecord fieldLayout .none (putFieldPart field) FieldParts.finish v

/-- Read a field from a value that was put aside, down to `levels` fields inside each other. -/
def fieldOfValue : Nat → Value → Except Fault Field
  | 0, _ => .error .malformed
  | levels + 1, v => readFieldWith (fieldOfValue levels) v

/-- Read what is inside a kind; there cannot be more levels of fields than of values. -/
def readInnerField (v : Value) : Except Fault Field := fieldOfValue (v.depth + 1) v

/-- Read a field. -/
def readField (v : σ) : Except Fault Field := readFieldWith readInnerField v

/-! ### Nodes -/

/-- The outline of a base. -/
def baseLayout : Layout := ⟨"struct BaseRef", ["name"]⟩

/-- Read a base. -/
def readBase (v : σ) : Except Fault Base :=
  readRecord baseLayout none (fun _ _ v => do return some (← readText "a string" v))
    (fun missing name => do return ⟨← need missing 0 name, none⟩) v

/-- The outline of a node. -/
def nodeLayout : Layout := ⟨"struct SastNode", ["name", "policy", "formats", "fields", "bases"]⟩

/-- What has been read of a node. -/
structure NodeParts where
  /-- Its name. -/
  name : Option String
  /-- Its policy. -/
  policy : Policy
  /-- Its formats. -/
  formats : List String
  /-- Its fields. -/
  fields : List Field
  /-- Its bases. -/
  bases : List Base
  deriving Inhabited

/-- Take in one part of a node. -/
def putNodePart (p : NodeParts) (place : Nat) (v : σ) : Except Fault NodeParts := do
  match place with
  | 0 => return { p with name := some (← readText "a string" v) }
  | 1 => return { p with policy := ← readPolicy v }
  | 2 => return { p with formats := ← readList (readText "a string") v }
  | 3 => return { p with fields := ← readList readField v }
  | _ => return { p with bases := ← readList readBase v }

/-- The node that parts make up; only the name has to be there. -/
def NodeParts.finish (missing : Missing) (p : NodeParts) : Except Fault Node := do
  return ⟨← need missing 0 p.name, p.policy, p.formats, p.fields, p.bases⟩

/-- Read a node. -/
def readNode (v : σ) : Except Fault Node :=
  readRecord nodeLayout ⟨none, .custom, [], [], []⟩ putNodePart NodeParts.finish v

/-! ### Bundles -/

/-- Read a site. -/
def readSite (v : σ) : Except Fault Site := do
  let (i, rest) ← readTagged "internally tagged enum LinkSite" "kind" ["base", "field"] v
  if i = 0 then
    readRecord ⟨"struct variant LinkSite::Base", ["index"]⟩ none
      (fun _ _ v => do return some (← readCount v))
      (fun missing index => do return .base (← need missing 0 index)) rest
  else
    readRecord ⟨"struct variant LinkSite::Field", ["path"]⟩ none
      (fun _ _ v => do return some (← readList readCount v))
      (fun missing path => do return .field (← need missing 0 path)) rest

/-- The outline of a link of a bundle. -/
def linkLayout : Layout := ⟨"struct BundleLink", ["from", "site", "to"]⟩

/-- Take in one part of a link. -/
def putLinkPart (p : Option Nat × Option Site × Option Nat) (place : Nat) (v : σ) :
    Except Fault (Option Nat × Option Site × Option Nat) := do
  match place with
  | 0 => return (some (← readCount v), p.2)
  | 1 => return (p.1, some (← readSite v), p.2.2)
  | _ => return (p.1, p.2.1, some (← readCount v))

/-- Read a link of a bundle. -/
def readLink (v : σ) : Except Fault BundleLink :=
  readRecord linkLayout (none, none, none) putLinkPart
    (fun missing (holder, site, target) => do
      return ⟨← need missing 0 holder, ← need missing 1 site, ← need missing 2 target⟩) v

/-- The outline of a bundle. -/
def bundleLayout : Layout := ⟨"struct NodeBundle", ["nodes", "links"]⟩

/-- Take in one part of a bundle. -/
def putBundlePart (p : Option (List Node) × Option (List BundleLink)) (place : Nat) (v : σ) :
    Except Fault (Option (List Node) × Option (List BundleLink)) := do
  match place with
  | 0 => return (some (← readList readNode v), p.2)
  | _ => return (p.1, some (← readList readLink v))

/-- Read a bundle. -/
def readBundle (v : σ) : Except Fault Bundle :=
  readRecord bundleLayout (none, none) putBundlePart
    (fun missing (nodes, links) => do return ⟨← need missing 0 nodes, ← need missing 1 links⟩) v

end Schema
end Marshal
