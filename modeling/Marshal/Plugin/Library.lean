import Marshal.Path
import Marshal.Plugin.Exported
import Marshal.Plugin.Registry

/-!
# Plugin libraries

A library hands out the table of one plugin.  A library may hand out nothing, have no way to ask
it, or a table that cannot be used; then it is not loaded, and nothing else changes.

## Main definitions

* `Library` — what a library has.
* `LoadFault` — why a library is not loaded.
* `Library.plugin` — the plugin of a library.
* `isLibraryName`, `libraryName` — the names of library files.
-/

namespace Marshal
namespace Plugin

/-- What a library has. -/
inductive Library where
  /-- Nothing to ask for a table. -/
  | noFactory
  /-- No table. -/
  | noTable
  /-- A table. -/
  | table (t : Table)

/-- Why a library is not loaded. -/
inductive LoadFault where
  /-- There is no library. -/
  | unreadable (path : FilePath)
  /-- There is nothing to ask for a table. -/
  | missingFactory (path : FilePath)
  /-- There is no table. -/
  | noTable (path : FilePath)
  /-- The table has another version. -/
  | version (path : FilePath) (found : Nat)
  /-- The table has no name that could be read. -/
  | invalidName (path : FilePath)
  deriving DecidableEq, Repr, Inhabited

/-- The wording of why a library is not loaded. -/
def LoadFault.message : LoadFault → String
  | .unreadable path => s!"failed to open plugin library {path.text}"
  | .missingFactory path => s!"{path.text} does not export `CreatePlugin`"
  | .noTable path => s!"`CreatePlugin` in {path.text} returned a null plugin"
  | .version path found =>
      s!"{path.text} was built for plugin ABI {found}, expected {tableVersion}"
  | .invalidName path =>
      s!"plugin in {path.text} reports a format name that is not valid UTF-8"

/-- The plugin of the library at a path, if there is one. -/
def Library.plugin (path : FilePath) : Option Library → Except LoadFault Plugin
  | none => .error (.unreadable path)
  | some .noFactory => .error (.missingFactory path)
  | some .noTable => .error (.noTable path)
  | some (.table t) =>
      match t.toPlugin with
      | .ok plugin => .ok plugin
      | .error (.version found) => .error (.version path found)
      | .error .name => .error (.invalidName path)

/-- Whether a path has the name of a library. -/
def isLibraryName (path : FilePath) : Bool :=
  path.extension = some "so" || path.extension = some "dylib"

/-- The file name of a library with a given name. -/
def libraryName (name : String) : String :=
  "lib" ++ String.ofList (name.toList.map fun c => if c = '-' then '_' else c) ++ ".so"

end Plugin
end Marshal
