import Marshal.Header.Continuation
import Marshal.Plugin.Registry

/-!
# The code for a source file

Every type of a source file is given to the plugin for every format it asks for.  A format
without plugin, or a plugin that has no code for the type, is an **issue**; it does not keep
others from being written.

## Main definitions

* `TypeCode`, `FileCode` — the code for a type and for a file.
* `Issue` — why a type has no code in a format it asks for.
* `generate` — the code for the types of a file.
-/

namespace Marshal
namespace Header

open Schema Plugin

/-- The code for one type, every line continued. -/
structure TypeCode where
  /-- The name of the type. -/
  typeName : String
  /-- The formats that have code, in the order asked for, with their code. -/
  formats : List (String × String)
  deriving DecidableEq, Repr, Inhabited

/-- Why a type has no code in a format it asks for. -/
inductive Issue where
  /-- There is no plugin for the format. -/
  | missingPlugin (typeName format : String)
  /-- The plugin has no code for the type. -/
  | failed (typeName format : String) (cause : Failure)
  deriving DecidableEq, Repr, Inhabited

/-- The wording of an issue. -/
def Issue.message : Issue → String
  | .missingPlugin typeName format =>
      s!"no plugin registered for format `{format}` requested by `{typeName}`"
  | .failed typeName format cause =>
      s!"{format} generation failed for `{typeName}`: {cause.message}"

/-- The code for one source file. -/
structure FileCode where
  /-- The types that have code, in declaration order. -/
  types : List TypeCode
  /-- The headers that the code needs, in ascending order, each once. -/
  includes : List String
  /-- The issues, in order. -/
  issues : List Issue
  deriving DecidableEq, Repr, Inhabited

/-- Put a text in its place in an ascending list, unless it is there. -/
def insertSorted (s : String) : List String → List String
  | [] => [s]
  | t :: ts => if s < t then s :: t :: ts else if s = t then t :: ts else t :: insertSorted s ts

/-- All texts of two lists, the first of which is ascending. -/
def unite (as bs : List String) : List String := bs.foldl (fun as b => insertSorted b as) as

namespace FileCode

/-- No code. -/
def empty : FileCode := ⟨[], [], []⟩

/-- Whether there is no code. -/
def isEmpty (c : FileCode) : Bool := c.types.isEmpty

/-- The code for a type in a format: the first of its name, and in that the first of the format. -/
def code? (c : FileCode) (typeName format : String) : Option String :=
  (c.types.find? (·.typeName = typeName)).bind fun t => t.formats.lookup format

end FileCode

/-- What one request came to: code with the headers it needs, or an issue. -/
inductive Answer where
  /-- Code in a format. -/
  | code (format text : String) (includes : List String)
  /-- An issue. -/
  | issue (i : Issue)
  deriving Repr, Inhabited

/-- Ask for the code of a type in a format. -/
def request (r : Registry) (g : Graph) (id : NodeId) (typeName format : String) : Answer :=
  match r.get? format with
  | none => .issue (.missingPlugin typeName format)
  | some plugin =>
      match plugin.generate g id with
      | .ok text => .code format (continued text) plugin.includes
      | .error cause => .issue (.failed typeName format cause)

namespace Answer

/-- The code of an answer. -/
def code? : Answer → Option (String × String)
  | .code format text _ => some (format, text)
  | .issue _ => none

/-- The headers of an answer. -/
def needed : Answer → List String
  | .code _ _ includes => includes
  | .issue _ => []

/-- The issue of an answer. -/
def issue? : Answer → Option Issue
  | .code _ _ _ => none
  | .issue i => some i

end Answer

/-- The answers to all requests of a type; a type that is only written as part of others makes
none. -/
def answers (r : Registry) (g : Graph) (id : NodeId) (n : Node) : List Answer :=
  if n.isPod then [] else n.formats.map (request r g id n.name)

/-- Add the answers for a type to the code of a file. -/
def addType (c : FileCode) (n : Node) (as : List Answer) : FileCode :=
  let formats := as.filterMap Answer.code?
  ⟨if formats.isEmpty then c.types else c.types ++ [⟨n.name, formats⟩],
    unite c.includes (as.flatMap Answer.needed), c.issues ++ as.filterMap Answer.issue?⟩

/-- Add one type to the code of a file. -/
def addNode (r : Registry) (g : Graph) (c : FileCode) (id : NodeId) : FileCode :=
  match g.node? id with
  | none => c
  | some n => addType c n (answers r g id n)

/-- The code for types of a graph. -/
def generate (r : Registry) (g : Graph) (ids : List NodeId) : FileCode :=
  ids.foldl (addNode r g) .empty

end Header
end Marshal
