import Marshal.Data.Source
import Marshal.Settings.Basic
import Marshal.Toml.Document

/-!
# Reading settings

A settings file is a TOML document in which every part may be left out.

## Main definitions

* `Settings.read` — one layer, from any source of values.
* `Settings.parse` — one layer, from the text of a settings file.
-/

namespace Marshal
namespace Settings

open Data

variable {σ : Type} [Source σ]

/-- Read a path. -/
def readPath (v : σ) : Except Fault FilePath := FilePath.mk <$> readText "path string" v

/-- Read one of the records that settings are divided into. -/
def readPart (title : String) (fields : List String)
    (put : Settings → Nat → σ → Except Fault Settings) (s : Settings) (v : σ) :
    Except Fault Settings :=
  readRecord ⟨title, fields⟩ s put (fun _ s => .ok s) v

/-- Take in one of the numbers of workers. -/
def putThreads (s : Settings) (place : Nat) (v : σ) : Except Fault Settings := do
  match place with
  | 0 => return { s with parseThreads := ← readCount v }
  | _ => return { s with generateThreads := ← readCount v }

/-- Take in where plugins are. -/
def putPlugins (s : Settings) (place : Nat) (v : σ) : Except Fault Settings := do
  match place with
  | 0 => return { s with pluginDirectory := ← readOptional readPath v }
  | _ => return { s with pluginPaths := ← readList readPath v }

/-- Take in where inputs are looked for. -/
def putIncludes (s : Settings) (_ : Nat) (v : σ) : Except Fault Settings := do
  return { s with includePaths := ← readList readPath v }

/-- Take in where headers go. -/
def putOutput (s : Settings) (_ : Nat) (v : σ) : Except Fault Settings := do
  return { s with outputDirectory := ← readOptional readPath v }

/-- Take in one part of the settings. -/
def putPart (s : Settings) (place : Nat) (v : σ) : Except Fault Settings := do
  match place with
  | 0 => return { s with logLevel := ← readOptional (readText "a string") v }
  | 1 => readPart "struct PipelineConfig" ["parse_threads", "generate_threads"] putThreads s v
  | 2 => readPart "struct PluginsConfig" ["directory", "paths"] putPlugins s v
  | 3 => readPart "struct FrontendConfig" ["include_paths"] putIncludes s v
  | _ => readPart "struct OutputConfig" ["directory"] putOutput s v

/-- Read one layer. -/
def read (v : σ) : Except Fault Settings :=
  readPart "struct GenSerializeConfig" ["log_level", "pipeline", "plugins", "frontend", "output"]
    putPart unset v

/-- The layer that a text stands for. -/
def parse (text : String) : Except Fault Settings := Toml.read read text

end Settings
end Marshal
