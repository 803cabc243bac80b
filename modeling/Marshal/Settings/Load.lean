import Marshal.Disk
import Marshal.Settings.Read

/-!
# Loading settings

The layers of a run are the settings of the user, those of the project, and a file that was asked
for.  Only the last has to be there.  A file that is there has to be readable; of several that
are not, the first one counts.

## Main definitions

* `LoadFault` — why settings are not loaded.
* `Settings.loadFile` — one layer.
* `Settings.load` — all layers.
* `Settings.logFilter` — which messages are logged.
-/

namespace Marshal
namespace Settings

/-- Why settings are not loaded. -/
inductive LoadFault where
  /-- A file cannot be read as text. -/
  | unreadable (path : FilePath)
  /-- A file holds no settings. -/
  | invalid (path : FilePath) (cause : Data.Fault)
  deriving DecidableEq, Repr, Inhabited

/-- The wording of why settings are not loaded. -/
def LoadFault.message : LoadFault → String
  | .unreadable path => s!"failed to read config {path.text}"
  | .invalid path _ => s!"invalid config {path.text}"

/-- The layer in a file. -/
def loadFile (d : Disk) (path : FilePath) : Except LoadFault Settings :=
  match d.readText? path with
  | none => .error (.unreadable path)
  | some text => (parse text).mapError (.invalid path)

/-- Where settings of the user are looked for. -/
structure Home where
  /-- The home directory, if there is one. -/
  directory : Option FilePath
  /-- The directory of the settings of all programs, if it was given. -/
  configuration : Option FilePath
  deriving Repr, Inhabited

/-- The settings file of the user. -/
def Home.file? (h : Home) : Option FilePath :=
  (h.configuration.or (h.directory.map (·.join ⟨".config"⟩))).map fun directory =>
    (directory.join ⟨"genserialize"⟩).join ⟨"config.toml"⟩

/-- The settings file of a project. -/
def projectFile (root : FilePath) : FilePath :=
  (root.join ⟨".genserialize"⟩).join ⟨"config.toml"⟩

/-- The files that the layers are in. -/
def layerFiles (d : Disk) (home : Home) (root : FilePath) (explicit : Option FilePath) :
    List FilePath :=
  (home.file?.toList ++ [projectFile root]).filter d.isFile ++ explicit.toList

/-- The layers in files, as one. -/
def loadAll (d : Disk) (files : List FilePath) : Except LoadFault Settings :=
  files.foldlM (fun s path => s.under <$> loadFile d path) unset

/-- The settings of a run. -/
def load (d : Disk) (home : Home) (root : FilePath) (explicit : Option FilePath) :
    Except LoadFault Settings :=
  loadAll d (layerFiles d home root explicit)

/-- Which messages are logged. -/
def logFilter (level : Option String) (verbose : Bool) : String :=
  if verbose then "debug" else level.getD "info"

end Settings
end Marshal
