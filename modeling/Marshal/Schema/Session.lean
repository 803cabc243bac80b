import Marshal.Disk
import Marshal.Json.Read
import Marshal.Schema.Description
import Marshal.Toml.Document

/-!
# Analysing schema files

A schema file is looked for where it is named, and if it is not there, in further directories.
The ending of its path says whether it is JSON or TOML.  One session analyses files one after
the other; it has a buffer that is emptied for each of them.

## Main definitions

* `AnalysisFault` — why a file has no analysis.
* `Frontend`, `Frontend.locate?` — where files are looked for.
* `Session.analyze` — the analysis of one file.
-/

namespace Marshal
namespace Schema

/-- The formats of schema files. -/
inductive FileFormat where
  /-- JSON. -/
  | json
  /-- TOML. -/
  | toml
  deriving DecidableEq, Repr, Inhabited

/-- The description in a text. -/
def FileFormat.read (f : FileFormat) (text : String) : Except Data.Fault Description :=
  match f with
  | .json => Json.read readDescription (Raw.ofText text)
  | .toml => Toml.read readDescription text

/-- The format that the ending of a path stands for. -/
def FileFormat.ofPath? (p : FilePath) : Option FileFormat :=
  match p.extension with
  | some "json" => some .json
  | some "toml" => some .toml
  | _ => none

/-- Why a file has no analysis. -/
inductive AnalysisFault where
  /-- There is no file. -/
  | notFound (path : FilePath)
  /-- The file cannot be read as text. -/
  | unreadable (path : FilePath)
  /-- The file holds no description. -/
  | invalid (format : FileFormat) (path : FilePath) (cause : Data.Fault)
  /-- Two types have the same name. -/
  | duplicateType (name : String) (path : FilePath)
  /-- The path has another ending. -/
  | unsupported (path : FilePath)
  deriving DecidableEq, Repr, Inhabited

namespace AnalysisFault

/-- Whether the file could not be read at all. -/
def isUnreadable : AnalysisFault → Bool
  | .notFound _ | .unreadable _ => true
  | _ => false

/-- The wording of a fault. -/
def message : AnalysisFault → String
  | .notFound path => s!"input not found: {path.text}"
  | .unreadable path => s!"failed to read {path.text}"
  | .invalid .json path _ => s!"invalid JSON schema file {path.text}"
  | .invalid .toml path _ => s!"invalid TOML schema file {path.text}"
  | .duplicateType name path => s!"type `{name}` declared twice in {path.text}"
  | .unsupported path =>
      s!"unsupported input {path.text}: expected a .sast.json or .sast.toml file"

end AnalysisFault

/-- The analysis of a text that was read from a path. -/
def analyzeText (f : FileFormat) (path : FilePath) (text : String) :
    Except AnalysisFault Analysis :=
  match f.read text with
  | .error cause => .error (.invalid f path cause)
  | .ok d => (d.analyze path).mapError fun name => .duplicateType name path

/-- Where schema files are looked for. -/
structure Frontend where
  /-- What is on the disk. -/
  disk : Disk
  /-- Further directories. -/
  includePaths : List FilePath

namespace Frontend

/-- The name of this way to describe types. -/
def name : String := "schema-file"

/-- Where a file is. -/
def locate? (f : Frontend) (path : FilePath) : Option FilePath :=
  if f.disk.isFile path then some path
  else if path.isAbsolute then none
  else (f.includePaths.map (·.join path)).find? f.disk.isFile

end Frontend

/-- A session. -/
structure Session where
  /-- The text that was read last. -/
  buffer : String
  deriving Repr, Inhabited

namespace Session

/-- A session that has read nothing. -/
def new : Session := ⟨""⟩

/-- Empty the buffer and read a file into it. -/
def load (_ : Session) (d : Disk) (path : FilePath) : Session × Bool :=
  let s : Session := ⟨""⟩
  match d.readText? path with
  | some text => (⟨s.buffer ++ text⟩, true)
  | none => (s, false)

/-- The analysis of one file. -/
def analyze (f : Frontend) (s : Session) (path : FilePath) :
    Session × Except AnalysisFault Analysis :=
  match f.locate? path with
  | none => (s, .error (.notFound path))
  | some place =>
      match s.load f.disk place with
      | (s, false) => (s, .error (.unreadable place))
      | (s, true) =>
          match FileFormat.ofPath? place with
          | none => (s, .error (.unsupported place))
          | some format => (s, analyzeText format place s.buffer)

/-- The analyses of files, one after the other. -/
def analyzeAll (f : Frontend) : Session → List FilePath →
    List (FilePath × Except AnalysisFault Analysis)
  | _, [] => []
  | s, p :: ps =>
      let (s, result) := s.analyze f p
      (p, result) :: analyzeAll f s ps

end Session
end Schema
end Marshal
