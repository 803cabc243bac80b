import Marshal.Json.Print
import Marshal.Json.Read
import Marshal.Plugin.Basic
import Marshal.Schema.Decode
import Marshal.Schema.Encode
import Marshal.Text.Line

/-!
# Plugins behind a table

A plugin in a library is reached through a **table**: its version, its priority, two texts that
may be missing or broken, and a function from a request to an answer.  A request is the bundle of
a node as JSON text; an answer is a status and a text, which is the code if the status is zero
and a message otherwise.

One side turns a plugin into a table, the other a table into a plugin.

## Main definitions

* `Table` — a table.
* `Table.ofPlugin` — the table of a plugin.
* `Table.toPlugin` — the plugin behind a table, or why it cannot be used (`TableFault`).
-/

namespace Marshal
namespace Plugin

open Schema

/-- The version of tables and requests. -/
def tableVersion : Nat := 2

/-- What comes back from a request; a text may be missing. -/
structure Reply where
  /-- Zero if all went well. -/
  status : Int
  /-- The code, or a message. -/
  text : Option Raw
  deriving DecidableEq, Repr, Inhabited

/-- A table. -/
structure Table where
  /-- Its version. -/
  version : Nat
  /-- The priority of the plugin. -/
  priority : Nat
  /-- The name of its format. -/
  format : Option Raw
  /-- The headers its code needs, one on a line. -/
  includes : Option Raw
  /-- The answer to a request. -/
  respond : Raw → Reply

/-! ### From plugins to tables -/

/-- The bundle of a request. -/
def readRequest (request : Raw) : Except Data.Fault Bundle := Json.read readBundle request

/-- Why or what a plugin answers to a request. -/
def answer (plugin : Plugin) (request : Raw) : Except Failure String := do
  let bundle ← (readRequest request).mapError .request
  let (g, root) ← (bundle.restore .empty).mapError .bundle
  plugin.generate g root

/-- The reply to a request.  A plugin that does not return is caught here. -/
def reply (plugin : Plugin) (request : Raw) : Reply :=
  match answer plugin request with
  | .ok text => ⟨0, some (Raw.ofText text)⟩
  | .error .crashed =>
      ⟨2, some (Raw.ofText s!"plugin `{plugin.format}` panicked while generating code")⟩
  | .error cause => ⟨1, some (Raw.ofText cause.message)⟩

/-- The headers of a plugin, one on a line. -/
def joinIncludes (includes : List String) : String := "\n".intercalate includes

/-- The table of a plugin. -/
def Table.ofPlugin (plugin : Plugin) : Table :=
  ⟨tableVersion, plugin.priority, some (Raw.ofText plugin.format),
    some (Raw.ofText (joinIncludes plugin.includes)), reply plugin⟩

/-! ### From tables to plugins -/

/-- Why a table cannot be used. -/
inductive TableFault where
  /-- It has another version. -/
  | version (found : Nat)
  /-- It has no name that could be read. -/
  | name
  deriving DecidableEq, Repr, Inhabited

/-- The headers on the lines of a text. -/
def splitIncludes (text : String) : List String :=
  ((Text.lines text.toList).filter (· ≠ [])).map String.ofList

/-- The request for a node. -/
def requestFor (g : Graph) (root : NodeId) : String :=
  Json.print (Bundle.capture g root).encode

/-- The code of a reply, or the failure it tells of. -/
def Reply.result (r : Reply) : Except Failure String :=
  let text := (r.text.map Raw.lossy).getD ""
  if r.status = 0 then .ok text else .error (.refused r.status text)

/-- The text of a field of a table; a missing one is empty. -/
def tableText? (field : Option Raw) : Option String :=
  match field with
  | none => some ""
  | some raw => raw.toText?

/-- The plugin behind a table. -/
def Table.toPlugin (t : Table) : Except TableFault Plugin :=
  if t.version ≠ tableVersion then .error (.version t.version)
  else
    match tableText? t.format with
    | none | some "" => .error .name
    | some format =>
        .ok ⟨format, t.priority, splitIncludes ((tableText? t.includes).getD ""),
          fun g root => (t.respond (Raw.ofText (requestFor g root))).result⟩

end Plugin
end Marshal
