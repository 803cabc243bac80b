import Marshal.Schema.Graph

/-!
# Bundles

A **bundle** is one node with everything that can be reached from it, ready to be handed over:
the nodes in a list, the first one first, and a table that says which site refers to which of
them.  Nothing is looked up by name when a bundle is turned back into a graph, so two references
spelled alike keep their own targets.

## Main definitions

* `BundleLink`, `Bundle` — what is handed over.
* `Bundle.capture` — the bundle of a node.
* `Bundle.restore` — the graph of a bundle; fails with a `BundleFault`.
-/

namespace Marshal
namespace Schema

/-- A site of one bundled node that refers to another. -/
structure BundleLink where
  /-- The position of the node that has the site. -/
  holder : Nat
  /-- The site. -/
  site : Site
  /-- The position of the node referred to. -/
  target : Nat
  deriving DecidableEq, Repr, Inhabited

/-- A node with everything that can be reached from it. -/
structure Bundle where
  /-- The nodes, each once, the root first. -/
  nodes : List Node
  /-- The references between them. -/
  links : List BundleLink
  deriving Repr, Inhabited

/-- Why a bundle is no graph. -/
inductive BundleFault where
  /-- There are no nodes. -/
  | empty
  /-- A link has no site or no target in the bundle. -/
  | invalidLink (holder target : Nat)
  deriving DecidableEq, Repr, Inhabited

/-- The wording of a fault. -/
def BundleFault.message : BundleFault → String
  | .empty => "bundle holds no nodes"
  | .invalidLink holder target =>
      s!"bundle link {holder} -> {target} does not name a bundled reference"

namespace Bundle

/-! ### From graphs -/

/-- The links of one node, given the order of all. -/
def linksOf (g : Graph) (order : List NodeId) (position : Nat) (id : NodeId) : List BundleLink :=
  match g.node? id with
  | none => []
  | some n => n.sites.filterMap fun (site, link) =>
      link.bind fun target => (order.idxOf? target).map fun other => ⟨position, site, other⟩

/-- The bundle of a node of a graph. -/
def capture (g : Graph) (root : NodeId) : Bundle :=
  let order := g.reach root
  ⟨order.filterMap g.node?, order.zipIdx.flatMap fun (id, i) => linksOf g order i id⟩

/-! ### To graphs -/

/-- Set one link between nodes whose numbers start at `offset`. -/
def setLink (offset count : Nat) (g : Graph) (l : BundleLink) : Except BundleFault Graph :=
  if l.target < count ∧ l.holder < count then
    match (g.node? (offset + l.holder)).bind (·.linkSite? l.site (offset + l.target)) with
    | some n => .ok (g.set (offset + l.holder) n)
    | none => .error (.invalidLink l.holder l.target)
  else .error (.invalidLink l.holder l.target)

/-- Add the nodes of a bundle to a graph and link them; the root gets the first new number.
Links that the nodes already have into the graph stay. -/
def restore (b : Bundle) (g : Graph) : Except BundleFault (Graph × NodeId) := do
  if b.nodes.isEmpty then throw .empty
  let g' ← b.links.foldlM (setLink g.size b.nodes.length) ⟨g.nodes ++ b.nodes⟩
  return (g', g.size)

end Bundle
end Schema
end Marshal
