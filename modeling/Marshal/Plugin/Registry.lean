import Marshal.Plugin.Basic
import Marshal.Text.Quoted

/-!
# The registry of plugins

There is one plugin for each format.  A plugin is registered with a priority, and takes the place
of one that is there unless that one was registered with a higher priority.

## Main definitions

* `Registry`, `Registry.register` — the plugins in use.
* `Registry.names` — the formats, in order.
-/

namespace Marshal
namespace Plugin

/-- A plugin with the priority it was registered with. -/
structure Registered where
  /-- The name of the format. -/
  name : String
  /-- The plugin. -/
  plugin : Plugin
  /-- The priority. -/
  priority : Nat

/-- The plugins in use, by the names of their formats in ascending order. -/
structure Registry where
  /-- The plugins. -/
  entries : List Registered

namespace Registry

/-- No plugins. -/
def empty : Registry := ⟨[]⟩

/-- What is registered for a format. -/
def find? (r : Registry) (name : String) : Option Registered := r.entries.find? (·.name = name)

/-- The plugin for a format. -/
def get? (r : Registry) (name : String) : Option Plugin := (r.find? name).map (·.plugin)

/-- The priority that the plugin for a format was registered with. -/
def priorityOf? (r : Registry) (name : String) : Option Nat := (r.find? name).map (·.priority)

/-- Put an entry in its place, instead of one of the same name. -/
def insert (e : Registered) : List Registered → List Registered
  | [] => [e]
  | d :: ds =>
      if e.name < d.name then e :: d :: ds
      else if e.name = d.name then e :: ds
      else d :: insert e ds

/-- Whether a plugin may be registered for a format. -/
def admits (r : Registry) (name : String) (priority : Nat) : Bool :=
  match r.priorityOf? name with
  | none => true
  | some present => present ≤ priority

/-- Register a plugin; says whether it is in use now. -/
def register (r : Registry) (plugin : Plugin) (priority : Nat) : Bool × Registry :=
  if r.admits plugin.format priority then
    (true, ⟨insert ⟨plugin.format, plugin, priority⟩ r.entries⟩)
  else (false, r)

/-- Register a plugin with its own priority. -/
def registerPlugin (r : Registry) (plugin : Plugin) : Bool × Registry :=
  r.register plugin plugin.priority

/-- The plugin for JSON routines alone. -/
def builtin : Registry := (empty.register (Plugin.json 0) 0).2

/-- The names of the formats, in order. -/
def names (r : Registry) : List String := r.entries.map (·.name)

/-- The number of formats. -/
def size (r : Registry) : Nat := r.entries.length

/-- The formats with their priorities, as messages show them. -/
def describe (r : Registry) : String :=
  "\x7b" ++ ", ".intercalate (r.entries.map fun e =>
    Text.quoted e.name ++ ": " ++ toString e.priority) ++ "\x7d"

end Registry
end Plugin
end Marshal
