import Marshal.Disk
import Marshal.Header.Render

/-!
# Where code goes

Code for source files is handed to a **sink**, one file after the other.  One sink writes headers
to disk, another keeps the code by source file.

## Main definitions

* `WriteFault` — why code did not get to its place.
* `Sink` — a place for code.
* `Sink.headers` — headers on disk.
* `Sink.memory` — code kept by source file.
-/

namespace Marshal
namespace Header

/-- Why code did not get to its place. -/
inductive WriteFault where
  /-- The source file has no header. -/
  | noName (source : FilePath)
  /-- A directory cannot be made. -/
  | noDirectory (path : FilePath)
  /-- A file cannot be written. -/
  | noFile (path : FilePath)
  deriving DecidableEq, Repr, Inhabited

/-- The wording of a fault. -/
def WriteFault.message : WriteFault → String
  | .noName source => s!"cannot derive an output name from {source.text}"
  | .noDirectory path => s!"failed to create {path.text}"
  | .noFile path => s!"failed to write {path.text}"

/-- A place for code, which is in a state of its own. -/
structure Sink (σ : Type) where
  /-- Hand over the code for a source file; says where it went. -/
  write : σ → FilePath → FileCode → σ × Except WriteFault FilePath

/-- Make the directory that a header goes to. -/
def makeRoom (d : Disk) (header : FilePath) : Disk × Except WriteFault Unit :=
  match header.parent with
  | none | some ⟨""⟩ => (d, .ok ())
  | some directory =>
      match d.createDirectories directory with
      | (d, true) => (d, .ok ())
      | (d, false) => (d, .error (.noDirectory directory))

/-- Write the header for a source file. -/
def writeHeader (outputDirectory : Option FilePath) (d : Disk) (source : FilePath)
    (c : FileCode) : Disk × Except WriteFault FilePath :=
  match headerPath? outputDirectory source with
  | none => (d, .error (.noName source))
  | some header =>
      match makeRoom d header with
      | (d, .error fault) => (d, .error fault)
      | (d, .ok ()) =>
          match d.writeText header (render source c) with
          | .ok d => (d, .ok header)
          | .error _ => (d, .error (.noFile header))

namespace Sink

/-- Headers on disk. -/
def headers (outputDirectory : Option FilePath) : Sink Disk := ⟨writeHeader outputDirectory⟩

/-- Code kept by source file, the last one for each. -/
def memory : Sink (List (FilePath × FileCode)) where
  write kept source c :=
    (kept.filter (fun entry => !entry.1.same source) ++ [(source, c)], .ok source)

end Sink
end Header
end Marshal
