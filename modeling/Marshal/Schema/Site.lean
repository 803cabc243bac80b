import Marshal.Schema.Node

/-!
# Sites

A **site** is a place in a node that may hold a reference: a base, or a field, which is found by
its position among the fields of the node and, inside containers, by its position there.

## Main definitions

* `Site` — a place in a node.
* `Node.fieldAt?`, `Node.linkAt?` — what is found there.
* `Node.sites` — all places of a node with the links they hold, in order.
* `Node.linkSite?` — point the link of a site at a node.
-/

namespace Marshal
namespace Schema

/-- A place in a node that may hold a reference. -/
inductive Site where
  /-- The base at a position. -/
  | base (index : Nat)
  /-- The field reached by a path of positions: among the fields of the node, then inside. -/
  | field (path : List Nat)
  deriving DecidableEq, Repr, Inhabited

namespace Field

/-- The field reached from another by a path of positions. -/
def at? : List Nat → Field → Option Field
  | [], f => some f
  | i :: path, f => f.kind.children[i]?.bind (at? path)

mutual

/-- All fields at and inside a field, with the paths that lead to them from `path`. -/
def paths (path : List Nat) : Field → List (List Nat × Field)
  | ⟨n, m, k, t, a, l⟩ => (path, ⟨n, m, k, t, a, l⟩) :: pathsInside path k

/-- All fields inside a kind, with the paths that lead to them from `path`. -/
def pathsInside (path : List Nat) : Kind Field → List (List Nat × Field)
  | .scalar _ | .object | .pod => []
  | .staticArray e | .dynamicArray e _ | .vector e | .set _ e => paths (path ++ [0]) e
  | .map _ k v => paths (path ++ [0]) k ++ paths (path ++ [1]) v

end

/-- Change the field reached by a path of positions, if there is one. -/
def changeAt? (change : Field → Field) : List Nat → Field → Option Field
  | [], f => some (change f)
  | i :: path, f =>
      match f.kind, i with
      | .staticArray e, 0 =>
          (changeAt? change path e).map fun e => { f with kind := .staticArray e }
      | .dynamicArray e v, 0 =>
          (changeAt? change path e).map fun e => { f with kind := .dynamicArray e v }
      | .vector e, 0 => (changeAt? change path e).map fun e => { f with kind := .vector e }
      | .set s e, 0 => (changeAt? change path e).map fun e => { f with kind := .set s e }
      | .map s k v, 0 => (changeAt? change path k).map fun k => { f with kind := .map s k v }
      | .map s k v, 1 => (changeAt? change path v).map fun v => { f with kind := .map s k v }
      | _, _ => none

/-- Point the link of a field at a node, unless it is set. -/
def linkTo (f : Field) (target : NodeId) : Field :=
  { f with link := Schema.linkTo f.link target }

end Field

namespace Base

/-- Point the link of a base at a node, unless it is set. -/
def linkTo (b : Base) (target : NodeId) : Base :=
  { b with link := Schema.linkTo b.link target }

end Base

namespace Node

/-- The field a path leads to. -/
def fieldAt? (n : Node) : List Nat → Option Field
  | [] => none
  | i :: path => n.fields[i]?.bind (Field.at? path)

/-- The link a site holds; nothing if there is no such site. -/
def linkAt? (n : Node) : Site → Option (Option NodeId)
  | .base i => n.bases[i]?.map (·.link)
  | .field path => (n.fieldAt? path).map (·.link)

/-- All sites of a node with their links: the bases, then the fields, outermost first. -/
def sites (n : Node) : List (Site × Option NodeId) :=
  (n.bases.zipIdx.map fun (b, i) => (Site.base i, b.link)) ++
  n.fields.zipIdx.flatMap fun (f, i) =>
    (f.paths [i]).map fun (path, g) => (Site.field path, g.link)

/-- Point the link of a site at a node, unless it is set; nothing if there is no such site. -/
def linkSite? (n : Node) (site : Site) (target : NodeId) : Option Node :=
  match site with
  | .base i => n.bases[i]?.map fun b => { n with bases := n.bases.set i (b.linkTo target) }
  | .field [] => none
  | .field (i :: path) => do
      let f ← n.fields[i]?
      let f ← f.changeAt? (·.linkTo target) path
      return { n with fields := n.fields.set i f }

/-- Change every link of a node. -/
def mapLinks (n : Node) (change : NodeId → NodeId) : Node :=
  { n with
    bases := n.bases.map fun b => { b with link := b.link.map change }
    fields := n.fields.map (Field.mapAll fun f => { f with link := f.link.map change }) }

end Node

end Schema
end Marshal
