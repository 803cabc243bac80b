import Marshal.Data.Lookup
import Marshal.Plugin.Library

/-!
# Files and directories

What is on a disk, as far as a run can see it: directories, and files that hold a text or are
plugin libraries.  A path is followed step by step; every step but the last has to lead to a
directory, and so has the last one if a slash follows it.  Paths that do not start at the top
start from one fixed directory.

## Main definitions

* `Location`, `Entry`, `Disk` — what is where.
* `Disk.find` — where a path leads, or what is in the way (`Trouble`).
* `Disk.readText?`, `Disk.library?`, `Disk.listing?` — looking at it.
* `Disk.createDirectories`, `Disk.writeText` — changing it.

## Main results

* `get?_put_self`, `get?_put_of_ne` — what is where after something was put somewhere.
-/

namespace Marshal

/-- The names that lead from the top to a place. -/
abbrev Location := List String

/-- What is in a file. -/
inductive Content where
  /-- A text. -/
  | text (raw : Raw)
  /-- A plugin library. -/
  | library (l : Plugin.Library)

/-- What is at a place. -/
inductive Entry where
  /-- A directory. -/
  | directory
  /-- A file. -/
  | file (content : Content)

/-- What is on a disk. -/
structure Disk where
  /-- What is where; the top is a directory and is not listed. -/
  entries : List (Location × Entry)
  /-- The directory that paths start from. -/
  here : Location

/-- What is in the way of an access. -/
inductive Trouble where
  /-- There is nothing at a place on the way, or at its end. -/
  | missing
  /-- Anything else. -/
  | other
  deriving DecidableEq, Repr, Inhabited

namespace Disk

/-! ### Places -/

/-- What is at a place. -/
def get? (d : Disk) (place : Location) : Option Entry :=
  if place = [] then some .directory else d.entries.lookup place

/-- Put something at a place. -/
def put (d : Disk) (place : Location) (e : Entry) : Disk :=
  { d with entries := (place, e) :: d.entries.filter (·.1 ≠ place) }

theorem get?_put_self (d : Disk) {place : Location} (e : Entry) (h : place ≠ []) :
    (d.put place e).get? place = some e := by
  rw [get?, if_neg h, put, Data.lookup_cons_filter, if_pos rfl]

theorem get?_put_of_ne (d : Disk) {place other : Location} (e : Entry) (h : other ≠ place) :
    (d.put place e).get? other = d.get? other := by
  rw [get?, get?, put, Data.lookup_cons_filter, if_neg h]

/-! ### Following paths -/

/-- The most bytes that a name may have. -/
def longestName : Nat := 255

/-- The most bytes that a path may have. -/
def longestPath : Nat := 4095

/-- Follow one piece of a path from a place. -/
def follow (d : Disk) (place : Location) (piece : List Char) : Except Trouble Location :=
  match d.get? place with
  | some .directory =>
      if Path.isIdle piece then .ok place
      else if piece = ['.', '.'] then .ok place.dropLast
      else
        let name := String.ofList piece
        if longestName < name.utf8ByteSize then .error .other
        else if (d.get? (place ++ [name])).isSome then .ok (place ++ [name])
        else .error .missing
  | _ => .error .other

/-- The place a path starts from; some texts are no path. -/
def start (d : Disk) (p : FilePath) : Except Trouble Location :=
  if p.text = "" then .error .missing
  else if '\x00' ∈ p.text.toList || longestPath < p.text.utf8ByteSize then .error .other
  else .ok (if p.isAbsolute then [] else d.here)

/-- The place that a path leads to, if there is something. -/
def find (d : Disk) (p : FilePath) : Except Trouble Location := do
  (Path.pieces p.text.toList).foldlM d.follow (← d.start p)

/-- What a path leads to. -/
def at? (d : Disk) (p : FilePath) : Option Entry := (d.find p).toOption.bind d.get?

/-- Whether a path leads to a file. -/
def isFile (d : Disk) (p : FilePath) : Bool :=
  match d.at? p with
  | some (.file _) => true
  | _ => false

/-- Whether a path leads to a directory. -/
def isDirectory (d : Disk) (p : FilePath) : Bool :=
  match d.at? p with
  | some .directory => true
  | _ => false

/-- The text of the file that a path leads to. -/
def readText? (d : Disk) (p : FilePath) : Option String :=
  match d.at? p with
  | some (.file (.text raw)) => raw.toText?
  | _ => none

/-- The library that a path leads to. -/
def library? (d : Disk) (p : FilePath) : Option Plugin.Library :=
  match d.at? p with
  | some (.file (.library l)) => some l
  | _ => none

/-- The names in the directory that a path leads to. -/
def listing? (d : Disk) (p : FilePath) : Option (List String) :=
  if d.isDirectory p then
    (d.find p).toOption.map fun place => d.entries.filterMap fun (other, _) =>
      if other.dropLast = place then other.getLast? else none
  else none

/-! ### Changes -/

/-- The last name of a path and the place it belongs to.  Slashes after a directory do not count. -/
def parentAndName (d : Disk) (directory : Bool) (p : FilePath) :
    Except Trouble (Location × List Char) := do
  let pieces := Path.pieces p.text.toList
  let pieces := if directory then (pieces.reverse.dropWhile (· = [])).reverse else pieces
  match pieces.getLast? with
  | none => .error .other
  | some last =>
      let place ← pieces.dropLast.foldlM d.follow (← d.start p)
      match d.get? place with
      | some .directory =>
          if Path.isIdle last || last = ['.', '.'] then .error .other
          else if longestName < (String.ofList last).utf8ByteSize then .error .other
          else return (place, last)
      | _ => .error .other

/-- Make a directory where there is nothing. -/
def createDirectory (d : Disk) (p : FilePath) : Except Trouble Disk := do
  if p.text = "" then throw .missing
  let (place, last) ← d.parentAndName true p
  let place := place ++ [String.ofList last]
  if (d.get? place).isSome then throw .other
  return d.put place .directory

/-- Make a directory and those it is in; says whether it is there now. -/
def createUpTo : Nat → Disk → FilePath → Disk × Bool
  | 0, d, p => (d, d.isDirectory p)
  | levels + 1, d, p =>
      if p.text = "" then (d, true)
      else
        match d.createDirectory p with
        | .ok d => (d, true)
        | .error .other => (d, d.isDirectory p)
        | .error .missing =>
            match p.parent with
            | none => (d, false)
            | some q =>
                match createUpTo levels d q with
                | (d, false) => (d, false)
                | (d, true) =>
                    match d.createDirectory p with
                    | .ok d => (d, true)
                    | .error _ => (d, d.isDirectory p)

/-- Make a directory and those it is in; says whether it is there now. -/
def createDirectories (d : Disk) (p : FilePath) : Disk × Bool :=
  createUpTo (p.components.length + 1) d p

/-- Write a text to a file, in the place of what it holds. -/
def writeText (d : Disk) (p : FilePath) (text : String) : Except Trouble Disk := do
  let (place, last) ← d.parentAndName false p
  let place := place ++ [String.ofList last]
  match d.get? place with
  | some .directory => throw .other
  | _ => return d.put place (.file (.text (Raw.ofText text)))

end Disk
end Marshal
