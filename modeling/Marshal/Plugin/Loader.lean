import Marshal.Disk

/-!
# Loading plugin libraries

A library that can be used is kept, and its plugin is registered with the priority it reports.
Of a directory, the files with the name of a library are loaded in the order of their paths; one
that cannot be used is passed over.

Loading works on a loader in place, and what a load that fails has changed by then stays changed;
so the plugin is looked at from all sides before anything is registered.

## Main definitions

* `Loader` — the libraries kept, and the plugins in use.
* `Loader.load`, `Loader.loadFile`, `Loader.tryFile` — loading one library.
* `Loader.loadAll`, `Loader.loadDirectory` — loading several, and those in a directory.
-/

namespace Marshal
namespace Plugin

/-- The libraries kept, and the plugins in use. -/
structure Loader where
  /-- The number of libraries kept. -/
  libraries : Nat
  /-- The plugins in use. -/
  registry : Registry

namespace Loader

/-- No libraries yet. -/
def new (registry : Registry) : Loader := ⟨0, registry⟩

/-! ### One library -/

/-- Register a plugin with its own priority. -/
def register (plugin : Plugin) (l : Loader) : Loader :=
  { l with registry := (l.registry.registerPlugin plugin).2 }

/-- Keep a library. -/
def keep (l : Loader) : Loader := { l with libraries := l.libraries + 1 }

/-- Load one library into a loader. -/
def load (d : Disk) (path : FilePath) : EStateM LoadFault Loader Unit := do
  let plugin ← MonadExcept.ofExcept (Library.plugin path (d.library? path))
  modify (register plugin)
  modify keep

/-- The loader after one library was loaded, if it could be used. -/
def loadFile (d : Disk) (l : Loader) (path : FilePath) : Except LoadFault Loader :=
  match (load d path).run l with
  | .ok _ after => .ok after
  | .error fault _ => .error fault

/-- The loader after one library was loaded or passed over. -/
def tryFile (d : Disk) (l : Loader) (path : FilePath) : Loader :=
  match (load d path).run l with
  | .ok _ after => after
  | .error _ after => after

/-! ### Several libraries -/

/-- Load one library more, given how many could be used so far. -/
def loadNext (d : Disk) (sofar : Loader × Nat) (path : FilePath) : Loader × Nat :=
  match (load d path).run sofar.1 with
  | .ok _ after => (after, sofar.2 + 1)
  | .error _ after => (after, sofar.2)

/-- Load libraries one after the other, passing over those that cannot be used; says how many
could. -/
def loadAll (d : Disk) (l : Loader) (paths : List FilePath) : Loader × Nat :=
  paths.foldl (loadNext d) (l, 0)

/-- The libraries among the names in a directory, in the order of their paths. -/
def librariesAmong (d : Disk) (directory : FilePath) (names : List String) : List FilePath :=
  ((names.map fun name => directory.join ⟨name⟩).filter
    fun path => d.isFile path && isLibraryName path).mergeSort fun a b => (a.compare b).isLE

/-- Load the libraries among the names in a directory, which may come in any order. -/
def loadListed (d : Disk) (l : Loader) (directory : FilePath) (names : List String) :
    Loader × Nat :=
  l.loadAll d (librariesAmong d directory names)

/-- Load the libraries in a directory; says how many could be used. -/
def loadDirectory (d : Disk) (l : Loader) (directory : FilePath) : Loader × Nat :=
  match d.listing? directory with
  | none => (l, 0)
  | some names => l.loadListed d directory names

end Loader
end Plugin
end Marshal
