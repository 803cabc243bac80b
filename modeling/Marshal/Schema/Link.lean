import Marshal.Schema.Graph

/-!
# Linking references

A reference is linked to the node that its name stands for.  A name is looked up as it is
spelled, and if that finds nothing, without one leading `::`; the empty name stands for nothing.
A link that is set is never changed, and a name that stands for nothing is reported.

## Main definitions

* `Names` — which node a name stands for; the last definition counts.
* `Node.link`, `Graph.link` — set the links of a node, and of a list of nodes.
* `LinkReport` — how many links were set, and what is still open.
-/

namespace Marshal
namespace Schema

/-! ### Names -/

/-- Which node a name stands for.  Every name occurs once. -/
structure Names where
  /-- The names with their nodes, the one defined last first. -/
  entries : List (String × NodeId)
  deriving Repr, Inhabited

namespace Names

/-- No names. -/
def empty : Names := ⟨[]⟩

/-- The node a name was given to. -/
def get? (m : Names) (name : String) : Option NodeId := m.entries.lookup name

/-- Let a name stand for a node from now on. -/
def define (m : Names) (name : String) (id : NodeId) : Names :=
  ⟨(name, id) :: m.entries.filter (·.1 ≠ name)⟩

/-- The number of names. -/
def size (m : Names) : Nat := m.entries.length

/-- Take in the names of another list; where both have one, the other list counts. -/
def merge (m other : Names) : Names :=
  other.entries.foldr (fun (name, id) m => m.define name id) m

/-- The nodes of another numbering. -/
def mapIds (m : Names) (change : NodeId → NodeId) : Names :=
  ⟨m.entries.map fun (name, id) => (name, change id)⟩

/-- A name without one leading `::`. -/
def withoutGlobal? (name : String) : Option String :=
  match name.toList with
  | ':' :: ':' :: rest => some (String.ofList rest)
  | _ => none

/-- The node a spelling stands for. -/
def resolve? (m : Names) (spelling : String) : Option NodeId :=
  if spelling = "" then none
  else m.get? spelling <|> (withoutGlobal? spelling).bind m.get?

end Names

/-! ### Reports -/

/-- A reference that is still open. -/
structure OpenReference where
  /-- The node that holds it. -/
  owner : String
  /-- The field of the node it belongs to, or `<base>`. -/
  field : String
  /-- Its spelling. -/
  typeName : String
  deriving DecidableEq, Repr, Inhabited

/-- What linking did. -/
structure LinkReport where
  /-- The number of links that were set. -/
  resolved : Nat
  /-- The references that are still open, in order. -/
  unresolved : List OpenReference
  deriving DecidableEq, Repr, Inhabited

namespace LinkReport

/-- Nothing was to be done. -/
def empty : LinkReport := ⟨0, []⟩

/-- One report after another. -/
def append (r s : LinkReport) : LinkReport :=
  ⟨r.resolved + s.resolved, r.unresolved ++ s.unresolved⟩

end LinkReport

/-! ### Nodes -/

namespace Field

/-- Whether a field is a reference that is not linked. -/
def isOpen (f : Field) : Bool := f.kind.isRecord && f.link.isNone

/-- Link a field, if it is an open reference whose name stands for a node. -/
def resolve (names : Names) (f : Field) : Field :=
  if f.isOpen then { f with link := names.resolve? f.typeName } else f

/-- What linking a field and all that is inside it does; `owner` and `field` say where it is. -/
def linkReport (names : Names) (owner field : String) (f : Field) : LinkReport :=
  let opens := f.descendants.filter isOpen
  ⟨(opens.filter fun g => (names.resolve? g.typeName).isSome).length,
    (opens.filter fun g => (names.resolve? g.typeName).isNone).map fun g =>
      ⟨owner, field, g.typeName⟩⟩

end Field

namespace Base

/-- Link a base, if it is open and its name stands for a node. -/
def resolve (names : Names) (b : Base) : Base :=
  if b.link.isNone then { b with link := names.resolve? b.name } else b

/-- What linking a base does. -/
def linkReport (names : Names) (owner : String) (b : Base) : LinkReport :=
  if b.link.isSome then .empty
  else if (names.resolve? b.name).isSome then ⟨1, []⟩
  else ⟨0, [⟨owner, "<base>", b.name⟩]⟩

end Base

namespace Node

/-- Link all references of a node. -/
def link (names : Names) (n : Node) : Node :=
  { n with
    bases := n.bases.map (Base.resolve names)
    fields := n.fields.map (Field.mapAll (Field.resolve names)) }

/-- What linking a node does: the bases first, then the fields. -/
def linkReport (names : Names) (n : Node) : LinkReport :=
  ((n.bases.map (Base.linkReport names n.name)) ++
    n.fields.map fun f => f.linkReport names n.name f.name).foldl LinkReport.append .empty

end Node

namespace Graph

/-- Link one node of a graph. -/
def linkNode (names : Names) (g : Graph) (id : NodeId) : Graph × LinkReport :=
  match g.node? id with
  | none => (g, .empty)
  | some n => (g.set id (n.link names), n.linkReport names)

/-- Link a list of nodes of a graph, one after the other. -/
def link (names : Names) (g : Graph) (ids : List NodeId) : Graph × LinkReport :=
  ids.foldl (fun (g, report) id =>
    let (g, r) := g.linkNode names id
    (g, report.append r)) (g, .empty)

end Graph
end Schema
end Marshal
