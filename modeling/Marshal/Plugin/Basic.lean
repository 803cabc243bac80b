import Marshal.Data.Fault
import Marshal.Emit.Routines
import Marshal.Schema.Bundle

/-!
# Plugins

A **plugin** writes the code for one format.  It has the name of its format, a priority, the
headers that its code needs, and a function from nodes to code.  What it writes depends on the
node and what can be reached from it, and on nothing else.

## Main definitions

* `Failure` — why a plugin has no code for a node.
* `Plugin` — a plugin.
* `Plugin.json` — the one that writes the JSON routines.
-/

namespace Marshal

open Schema

namespace Plugin

/-- Why a plugin has no code for a node. -/
inductive Failure where
  /-- There are no routines for the node. -/
  | noCode (cause : Emit.NoCode)
  /-- The request holds no bundle. -/
  | request (cause : Data.Fault)
  /-- The bundle of the request is no graph. -/
  | bundle (cause : BundleFault)
  /-- A plugin on the other side of the table refused. -/
  | refused (status : Int) (message : String)
  /-- The plugin did not return.  Where nothing stands between, its caller does not return
  either. -/
  | crashed
  deriving DecidableEq, Repr, Inhabited

/-- What is said of a request that holds no bundle. -/
def faultText : Data.Fault → String
  | .malformed => "the text is not well formed"
  | .ended => "the text ends too early"
  | .mismatch cause => cause.message

/-- The wording of a failure. -/
def Failure.message : Failure → String
  | .noCode cause => cause.message
  | .request cause => "malformed plugin request: " ++ faultText cause
  | .bundle cause => cause.message
  | .refused status message => s!"plugin failed (status {status}): {message}"
  | .crashed => "plugin did not return"

end Plugin

/-- A plugin. -/
structure Plugin where
  /-- The name of its format. -/
  format : String
  /-- How it ranks among plugins for the same format. -/
  priority : Nat
  /-- The headers its code needs. -/
  includes : List String
  /-- The code for a node of a graph. -/
  generate : Graph → NodeId → Except Plugin.Failure String

namespace Plugin

/-- The headers that the JSON routines need. -/
def jsonIncludes : List String :=
  ["<format>", "<istream>", "<ostream>", "<string>", "<type_traits>", "<JSONStructure.h>"]

/-- The plugin with the given function from nodes to code, for numbers that have a node. -/
def ofNode (format : String) (priority : Nat) (includes : List String)
    (code : Graph → Node → Except Failure String) : Plugin :=
  ⟨format, priority, includes, fun g id =>
    match g.node? id with
    | none => .error (.bundle .empty)
    | some n => code g n⟩

/-- The plugin that writes the JSON routines. -/
def json (priority : Nat) : Plugin :=
  ofNode "JSON" priority jsonIncludes fun g n => (Emit.generate g n).mapError .noCode

end Plugin
end Marshal
