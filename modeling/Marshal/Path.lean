/-!
# File paths

A path is kept as it was written, and meant by its **components**: the pieces between slashes,
without the empty ones and without `.` except at the very start.  Two spellings of one list of
components name the same place, and paths are ordered by their components, never by their text.
`..` is a component like any other; it is not collapsed.

## Main definitions

* `Component`, `FilePath.components` — what a path means.
* `FilePath.parent`, `FilePath.fileName`, `FilePath.stem`, `FilePath.extension` — its parts.
* `FilePath.join`, `FilePath.withFileName` — paths made from paths.
* `FilePath.same`, `FilePath.compare` — equality and order by components.

## Main results

* `pieces_join` — joining the pieces of a text gives the text back.
-/

namespace Marshal

/-! ### Pieces between slashes -/

namespace Path

/-- The pieces of a text between its slashes; one more than there are slashes. -/
def pieces : List Char → List (List Char)
  | [] => [[]]
  | c :: cs =>
      if c = '/' then [] :: pieces cs
      else match pieces cs with
        | [] => [[c]]
        | p :: ps => (c :: p) :: ps

/-- Pieces with a slash between any two. -/
def joinPieces : List (List Char) → List Char
  | [] => []
  | [p] => p
  | p :: q :: ps => p ++ '/' :: joinPieces (q :: ps)

theorem pieces_ne_nil (cs : List Char) : pieces cs ≠ [] := by
  cases cs with
  | nil => simp [pieces]
  | cons c cs =>
    simp only [pieces]
    split
    · simp
    · split <;> simp

/-- Joining the pieces of a text gives the text back. -/
theorem pieces_join (cs : List Char) : joinPieces (pieces cs) = cs := by
  induction cs with
  | nil => rfl
  | cons c cs ih =>
    simp only [pieces]
    split
    · rename_i h
      subst h
      cases hp : pieces cs with
      | nil => exact absurd hp (pieces_ne_nil cs)
      | cons p ps => simp [joinPieces, ← hp, ih]
    · cases hp : pieces cs with
      | nil => exact absurd hp (pieces_ne_nil cs)
      | cons p ps =>
        rw [hp] at ih
        cases ps with
        | nil => simpa [joinPieces] using ih
        | cons q qs => simpa [joinPieces] using ih

/-- Whether a piece that is not the first names nothing. -/
def isIdle (piece : List Char) : Bool := piece = [] || piece = ['.']

/-- Pieces without the idle ones at their end. -/
def trimIdle (ps : List (List Char)) : List (List Char) :=
  (ps.reverse.dropWhile isIdle).reverse

/-- A name split at its last dot; a dot that starts the name does not count. -/
def splitExtension (name : List Char) : List Char × Option (List Char) :=
  let after := (name.reverse.takeWhile (· ≠ '.')).reverse
  let before := name.take (name.length - after.length - 1)
  if name = ['.', '.'] || before = [] then (name, none) else (before, some after)

end Path

/-! ### Components -/

/-- One step of a path. -/
inductive Component where
  /-- The top of the file tree. -/
  | root
  /-- The directory a relative path starts from, where it is written out. -/
  | here
  /-- The directory above. -/
  | up
  /-- An entry of the directory reached so far. -/
  | name (text : String)
  deriving DecidableEq, Repr, Inhabited

namespace Component

/-- The rank of the kinds of component in the order of paths. -/
def rank : Component → Nat
  | .root => 0
  | .here => 1
  | .up => 2
  | .name _ => 3

/-- Components are ordered by kind, and names by their code points. -/
def compare (a b : Component) : Ordering :=
  match a, b with
  | .name s, .name t => Ord.compare s t
  | _, _ => Ord.compare a.rank b.rank

/-- The component a piece that is not the first stands for, if any. -/
def ofPiece (piece : List Char) : List Component :=
  if Path.isIdle piece then []
  else if piece = ['.', '.'] then [.up]
  else [.name (String.ofList piece)]

end Component

/-- A path as it was written. -/
structure FilePath where
  /-- The spelling. -/
  text : String
  deriving DecidableEq, Repr, Inhabited

namespace FilePath

/-- Whether the path starts at the top of the file tree. -/
def isAbsolute (p : FilePath) : Bool := p.text.toList.head? = some '/'

/-- What the path means. -/
def components (p : FilePath) : List Component :=
  match Path.pieces p.text.toList with
  | [] => []
  | first :: rest =>
      (if p.isAbsolute then [.root]
        else if first = ['.'] then [.here]
        else Component.ofPiece first) ++ rest.flatMap Component.ofPiece

/-- Two paths are the same place if their components are equal. -/
def same (p q : FilePath) : Bool := p.components = q.components

/-- The order of paths: component by component, a path before those that go on from it. -/
def compare (p q : FilePath) : Ordering :=
  go p.components q.components
where
  /-- The order of lists of components. -/
  go : List Component → List Component → Ordering
    | [], [] => .eq
    | [], _ :: _ => .lt
    | _ :: _, [] => .gt
    | a :: as, b :: bs => (a.compare b).then (go as bs)

/-! ### Parts -/

/-- The path without its last component, spelled as before. -/
def parent (p : FilePath) : Option FilePath :=
  match Path.pieces p.text.toList with
  | [] => none
  | first :: rest =>
      match Path.trimIdle rest with
      | [] => if first = [] then none else some ⟨""⟩
      | kept =>
          match Path.trimIdle kept.dropLast with
          | [] => if p.isAbsolute then some ⟨"/"⟩ else some ⟨String.ofList first⟩
          | kept => some ⟨String.ofList (Path.joinPieces (first :: kept))⟩

/-- The name of the entry the path leads to, if its last component is a name. -/
def fileName (p : FilePath) : Option String :=
  match p.components.getLast? with
  | some (.name n) => some n
  | _ => none

/-- The name of the entry without its extension. -/
def stem (p : FilePath) : Option String :=
  p.fileName.map fun n => String.ofList (Path.splitExtension n.toList).1

/-- What follows the last dot of the name of the entry. -/
def extension (p : FilePath) : Option String :=
  p.fileName.bind fun n => (Path.splitExtension n.toList).2.map String.ofList

/-! ### Paths from paths -/

/-- The path reached by going `q` from `p`; an absolute `q` stands for itself. -/
def join (p q : FilePath) : FilePath :=
  if q.isAbsolute then q
  else if p.text = "" || p.text.toList.getLast? = some '/' then ⟨p.text ++ q.text⟩
  else ⟨p.text ++ "/" ++ q.text⟩

/-- The path with its last name replaced, or with a name added if the last component is none. -/
def withFileName (p : FilePath) (name : String) : FilePath :=
  let base := if p.fileName.isSome then p.parent.getD p else p
  base.join ⟨name⟩

end FilePath
end Marshal
