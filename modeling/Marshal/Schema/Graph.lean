import Marshal.Schema.Site

/-!
# Graphs of nodes

Nodes refer to each other freely: to themselves, in circles, and several to one.  A **graph**
numbers its nodes, and a link holds the number of its target.  Nodes are only ever added, so a
number once given keeps its meaning.

## Main definitions

* `Graph`, `Graph.node?`, `Graph.add` — nodes by number.
* `Graph.append` — two graphs side by side.
* `Graph.reach` — all that can be reached from a node, in the order of first encounter.
-/

namespace Marshal
namespace Schema

/-- Nodes, numbered from zero. -/
structure Graph where
  /-- The nodes. -/
  nodes : List Node
  deriving Repr, Inhabited

namespace Graph

/-- The graph without nodes. -/
def empty : Graph := ⟨[]⟩

/-- The number of nodes. -/
def size (g : Graph) : Nat := g.nodes.length

/-- The node with a number. -/
def node? (g : Graph) (id : NodeId) : Option Node := g.nodes[id]?

/-- Add a node; its number is the size the graph had. -/
def add (g : Graph) (n : Node) : Graph := ⟨g.nodes ++ [n]⟩

/-- Replace a node. -/
def set (g : Graph) (id : NodeId) (n : Node) : Graph := ⟨g.nodes.set id n⟩

/-- Two graphs side by side; the nodes of the second get new numbers. -/
def append (g h : Graph) : Graph := ⟨g.nodes ++ h.nodes.map (·.mapLinks (g.size + ·))⟩

/-- The name of the node with a number. -/
def nameOf (g : Graph) (id : NodeId) : Option String := (g.node? id).map (·.name)

@[simp] theorem node?_add_size (g : Graph) (n : Node) : (g.add n).node? g.size = some n := by
  simp [node?, add, size]

@[simp] theorem size_add (g : Graph) (n : Node) : (g.add n).size = g.size + 1 := by
  simp [size, add]

@[simp] theorem size_set (g : Graph) (id : NodeId) (n : Node) : (g.set id n).size = g.size := by
  simp [size, set]

/-! ### Reachable nodes -/

/-- The nodes a node refers to, in the order of its sites. -/
def targets (g : Graph) (id : NodeId) : List NodeId :=
  match g.node? id with
  | none => []
  | some n => n.sites.filterMap (·.2)

/-- Note a node, unless it has been noted. -/
def note (order : List NodeId) (id : NodeId) : List NodeId :=
  if id ∈ order then order else order ++ [id]

/-- Note all that the node noted at a position refers to. -/
def explore (g : Graph) (order : List NodeId) (position : Nat) : List NodeId :=
  match order[position]? with
  | none => order
  | some id => (g.targets id).foldl note order

/-- All nodes that can be reached from one, in breadth-first order.  Nothing is noted twice, so
there are no more positions than nodes. -/
def reach (g : Graph) (root : NodeId) : List NodeId :=
  (List.range g.size).foldl g.explore [root]

end Graph
end Schema
end Marshal
