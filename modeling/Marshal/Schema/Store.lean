import Marshal.Schema.Description

/-!
# The schema of a run

All analysed source files are merged into one **store**, and references between them are linked
when all are there.  A name stands for the type that was merged last; a second analysis of the
same source file adds its types to those of the first.

## Main definitions

* `Store`, `Store.merge`, `Store.link` — the merged schema.
* `Store.tree?`, `Store.nodeId?` — what is found in it.
-/

namespace Marshal
namespace Schema

/-- The types of one source file in a store. -/
structure Tree where
  /-- The source file, as it was first spelled. -/
  source : FilePath
  /-- Its types. -/
  ids : List NodeId
  deriving Repr, Inhabited

/-- The merged schema of a run. -/
structure Store where
  /-- All nodes. -/
  graph : Graph
  /-- The source files, in the order of their paths. -/
  trees : List Tree
  /-- Which node a name stands for. -/
  names : Names
  deriving Repr, Inhabited

/-- Add types to the tree of a source file, keeping the order of paths. -/
def insertTree (source : FilePath) (ids : List NodeId) : List Tree → List Tree
  | [] => [⟨source, ids⟩]
  | t :: ts =>
      match source.compare t.source with
      | .lt => ⟨source, ids⟩ :: t :: ts
      | .eq => { t with ids := t.ids ++ ids } :: ts
      | .gt => t :: insertTree source ids ts

namespace Store

/-- The store of a run that has not begun. -/
def empty : Store := ⟨.empty, [], .empty⟩

/-- Take in the types of one source file. -/
def merge (s : Store) (a : Analysis) : Store :=
  let move := (s.graph.size + ·)
  ⟨s.graph.append a.graph, insertTree a.source (a.tree.map move) s.trees,
    s.names.merge (a.names.mapIds move)⟩

/-- Link the references in all trees, in the order of paths. -/
def link (s : Store) : Store × LinkReport :=
  let (graph, report) := s.trees.foldl (fun (g, report) t =>
    let (g, r) := g.link s.names t.ids
    (g, report.append r)) (s.graph, .empty)
  ({ s with graph := graph }, report)

/-- The types of a source file. -/
def tree? (s : Store) (source : FilePath) : Option (List NodeId) :=
  (s.trees.find? (·.source.same source)).map (·.ids)

/-- The type a name stands for. -/
def nodeId? (s : Store) (name : String) : Option NodeId := s.names.get? name

/-- The number of source files. -/
def fileCount (s : Store) : Nat := s.trees.length

/-- The number of names. -/
def nodeCount (s : Store) : Nat := s.names.size

end Store
end Schema
end Marshal
