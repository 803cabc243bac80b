import Marshal.Data.Value
import Marshal.Schema.Bundle

/-!
# Nodes and bundles as values

The written form of a node and of a bundle.  Nothing is left out, even where reading would fill
it in; links are no part of a node's form, since a bundle has a table for them.

## Main definitions

* `Field.encode`, `Node.encode`, `Bundle.encode` — the forms.
-/

namespace Marshal
namespace Schema

open Data

/-- The form of a list of numbers. -/
def encodePath (path : List Nat) : Value := .seq (path.map .natural)

namespace Field

mutual

/-- The form of a field. -/
def encode : Field → Value
  | ⟨name, formattedName, kind, typeName, access, _⟩ =>
      .map [("name", .text name), ("formatted_name", .text formattedName),
        ("type", encodeKind kind), ("original_type_name", .text typeName),
        ("access", .text access.name)]

/-- The form of a kind: its name, then what is in it. -/
def encodeKind : Kind Field → Value
  | .scalar s => .map [("kind", .text s.name)]
  | .object => .map [("kind", .text "object")]
  | .pod => .map [("kind", .text "pod")]
  | .staticArray e => .map [("kind", .text "static_array"), ("element", encode e)]
  | .dynamicArray e v =>
      .map [("kind", .text "dynamic_array"), ("element", encode e), ("length_var", .text v)]
  | .vector e => .map [("kind", .text "vector"), ("element", encode e)]
  | .set sorted e =>
      .map [("kind", .text (if sorted then "set" else "unordered_set")), ("element", encode e)]
  | .map sorted k v =>
      .map [("kind", .text (if sorted then "map" else "unordered_map")), ("key", encode k),
        ("value", encode v)]

end

end Field

/-- The form of a base. -/
def Base.encode (b : Base) : Value := .map [("name", .text b.name)]

/-- The form of a node. -/
def Node.encode (n : Node) : Value :=
  .map [("name", .text n.name), ("policy", .text n.policy.name),
    ("formats", .seq (n.formats.map .text)), ("fields", .seq (n.fields.map Field.encode)),
    ("bases", .seq (n.bases.map Base.encode))]

/-- The form of a site. -/
def Site.encode : Site → Value
  | .base index => .map [("kind", .text "base"), ("index", .natural index)]
  | .field path => .map [("kind", .text "field"), ("path", encodePath path)]

/-- The form of a link of a bundle. -/
def BundleLink.encode (l : BundleLink) : Value :=
  .map [("from", .natural l.holder), ("site", l.site.encode), ("to", .natural l.target)]

/-- The form of a bundle. -/
def Bundle.encode (b : Bundle) : Value :=
  .map [("nodes", .seq (b.nodes.map Node.encode)), ("links", .seq (b.links.map BundleLink.encode))]

end Schema
end Marshal
