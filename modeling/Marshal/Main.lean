import Marshal.Run.Program

/-!
# The command line program

The files that a run may look at are read first, then the program is run on what was read, and
what it wrote is written to disk.

## Main definitions

* `main` — the program.
-/

namespace Marshal
namespace Main

open Run CommandLine

/-- The places on the way to a place, from the top on. -/
def waysTo (place : Location) : List Location :=
  (List.range place.length).map fun n => place.take (n + 1)

/-- The place that a path from a directory stands for, as it is spelled. -/
def placeOf (here : Location) (p : FilePath) : Location :=
  p.components.foldl (fun place c => match c with
    | .root => []
    | .here => place
    | .up => place.dropLast
    | .name n => place ++ [n]) (if p.isAbsolute then [] else here)

/-- The spelling of a place. -/
def spell (place : Location) : String := "/" ++ "/".intercalate place

/-- The names in a directory. -/
def namesIn (place : Location) : IO (List String) := do
  let directory ← IO.FS.realPath (spell place)
  return (← directory.readDir).toList.map (·.fileName)

/-- What is at a place. -/
def look (place : Location) : IO (Option Entry) := do
  try
    let _ ← namesIn place
    return some .directory
  catch _ =>
    try
      let bytes ← IO.FS.readBinFile (spell place)
      return some (.file (.text (Raw.ofBytes bytes.toList)))
    catch _ => return none

/-- Add what is at a place, and on the way to it, to what is known. -/
def learn (d : Disk) (place : Location) : IO Disk :=
  (waysTo place).foldlM (fun d step => do
    if (d.get? step).isSome then return d
    match ← look step with
    | some e => return d.put step e
    | none => return d) d

/-- Add what is in a directory to what is known. -/
def learnListing (d : Disk) (place : Location) : IO Disk := do
  let d ← learn d place
  try
    (← namesIn place).foldlM (fun d name => learn d (place ++ [name])) d
  catch _ => return d

/-- What a run with the given settings may look at. -/
def learnInputs (d : Disk) (s : Settings) (sources : List FilePath) : IO Disk := do
  let d ← match s.pluginDirectory with
    | none => pure d
    | some directory => learnListing d (placeOf d.here directory)
  let found := sources ++ s.includePaths.flatMap fun directory => sources.map directory.join
  (s.pluginPaths ++ found ++ s.outputDirectory.toList).foldlM
    (fun d p => learn d (placeOf d.here p)) d

/-- The texts that were written during a run. -/
def changes (before after : Disk) : List (Location × String) :=
  after.entries.filterMap fun (place, e) =>
    match e with
    | .file (.text raw) =>
        match before.get? place with
        | some (.file (.text old)) => if old = raw then none else some (place, raw.lossy)
        | _ => some (place, raw.lossy)
    | _ => none

/-- Write what was written during a run; says whether that went well. -/
def store (before after : Disk) : IO Bool := do
  (changes before after).foldlM (fun ok (place, text) => do
    try
      IO.FS.createDirAll (spell place.dropLast)
      IO.FS.writeFile (spell place) text
      return ok
    catch e =>
      IO.eprintln s!"error: {e}"
      return false) true

/-- Run the program. -/
def runProgram (args : List String) : IO UInt32 := do
  let directory : FilePath := ⟨toString (← IO.currentDir)⟩
  let home : Settings.Home :=
    ⟨(← IO.getEnv "HOME").map .mk, (← IO.getEnv "XDG_CONFIG_HOME").map .mk⟩
  let here := placeOf [] directory
  let env : Environment := ⟨home, directory, 1⟩
  let disk ← learn ⟨[], here⟩ here
  let disk ← match parse args with
    | .error _ => pure disk
    | .ok i =>
        let files := home.file?.toList ++ [Settings.projectFile directory] ++
          i.configuration.toList
        let disk ← files.foldlM (fun d p => learn d (placeOf here p)) disk
        match Settings.load disk home directory i.configuration with
        | .error _ => pure disk
        | .ok s => learnInputs disk (i.applyTo s) i.sources
  let outcome := program env disk args
  IO.print outcome.output
  if let some complaint := outcome.complaint then IO.eprintln complaint
  let stored ← store disk outcome.disk
  return if stored then outcome.status.toUInt32 else 1

end Main
end Marshal

/-- The program. -/
def main (args : List String) : IO UInt32 := Marshal.Main.runProgram args
