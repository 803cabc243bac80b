import Marshal.Proofs.Disk.Changes
import Marshal.Proofs.Path.Order

/-!
# Spellings of one path

A path may be spelled with pieces that name nothing, which are no components.  If two spellings of
a path both lead somewhere, they lead to the same place, so what is found there depends on the
components alone.

## Main definitions

* `FilePath.steps` — the pieces of a path that lead from one place to another.

## Main results

* `FilePath.steps_eq` — the steps of a path are its pieces without the idle ones.
* `Disk.find_eq_of_same` — two spellings lead to the same place.
-/

namespace Marshal

/-! ### The steps of a path -/

/-- The piece that leads one step on, if the component does. -/
def Component.steps : Component → List (List Char)
  | .root | .here => []
  | .up => [['.', '.']]
  | .name text => [text.toList]

theorem Component.steps_ofPiece (piece : List Char) :
    (ofPiece piece).flatMap steps = [piece].filter (!Path.isIdle ·) := by
  unfold ofPiece
  by_cases hidle : Path.isIdle piece
  · simp [hidle]
  · by_cases hup : piece = ['.', '.']
    · subst hup
      rfl
    · simp [hidle, hup, steps]

theorem Component.steps_ofPieces (pieces : List (List Char)) :
    (pieces.flatMap ofPiece).flatMap steps = pieces.filter (!Path.isIdle ·) := by
  induction pieces with
  | nil => rfl
  | cons piece pieces ih =>
    rw [List.flatMap_cons, List.flatMap_append, ih, steps_ofPiece, ← List.filter_append]
    rfl

theorem Component.root_notMem_ofPiece (piece : List Char) : root ∉ ofPiece piece := by
  unfold ofPiece
  split
  · simp
  · split <;> simp

namespace FilePath

/-- The pieces of a path that lead from one place to another. -/
def steps (p : FilePath) : List (List Char) := p.components.flatMap Component.steps

theorem isIdle_of_isAbsolute {p : FilePath} (h : p.isAbsolute = true) {first : List Char}
    {rest : List (List Char)} (hp : Path.pieces p.text.toList = first :: rest) :
    Path.isIdle first = true := by
  unfold isAbsolute at h
  cases hcs : p.text.toList with
  | nil => simp [hcs] at h
  | cons c cs =>
    obtain rfl : c = '/' := by simpa [hcs] using h
    rw [hcs, Path.pieces, if_pos rfl] at hp
    obtain ⟨rfl, -⟩ := List.cons.inj hp
    rfl

/-- The steps of a path are its pieces without the idle ones. -/
theorem steps_eq (p : FilePath) :
    p.steps = (Path.pieces p.text.toList).filter (!Path.isIdle ·) := by
  unfold steps components
  cases hp : Path.pieces p.text.toList with
  | nil => rfl
  | cons first rest =>
    -- the first piece alone may stand for the top or for the place where one is
    have hfirst : (if p.isAbsolute then [Component.root] else if first = ['.'] then [.here]
        else Component.ofPiece first).flatMap Component.steps = [first].filter (!Path.isIdle ·) := by
      split
      · rename_i habs
        simp [isIdle_of_isAbsolute habs hp, Component.steps]
      · split
        · rename_i hhere
          subst hhere
          rfl
        · exact Component.steps_ofPiece first
    rw [List.flatMap_append, Component.steps_ofPieces, hfirst, ← List.filter_append]
    rfl

/-- A path starts at the top exactly if its first component is the top. -/
theorem isAbsolute_eq (p : FilePath) : p.isAbsolute = decide (p.components.head? = some .root) := by
  unfold components
  cases hp : Path.pieces p.text.toList with
  | nil => exact absurd hp (Path.pieces_ne_nil _)
  | cons first rest =>
    cases habs : p.isAbsolute with
    | true => simp
    | false =>
      have hrest : Component.root ∉ rest.flatMap Component.ofPiece := fun h => by
        obtain ⟨piece, -, hpiece⟩ := List.mem_flatMap.1 h
        exact Component.root_notMem_ofPiece piece hpiece
      have hall : Component.root ∉ (if first = ['.'] then [.here] else Component.ofPiece first) ++
          rest.flatMap Component.ofPiece := by
        rw [List.mem_append, not_or]
        refine ⟨?_, hrest⟩
        split
        · simp
        · exact Component.root_notMem_ofPiece first
      simp only [Bool.false_eq_true, if_false]
      rw [eq_comm, decide_eq_false_iff_not]
      exact fun h => hall (List.mem_of_mem_head? h)

end FilePath

namespace Disk

variable {d : Disk}

/-- Idle pieces lead nowhere else. -/
theorem foldlM_follow_filter {pieces : List (List Char)} {place place' : Location}
    (h : pieces.foldlM d.follow place = .ok place') :
    (pieces.filter (!Path.isIdle ·)).foldlM d.follow place = .ok place' := by
  induction pieces generalizing place with
  | nil => exact h
  | cons piece pieces ih =>
    rw [List.foldlM_cons] at h
    obtain ⟨between, hfirst, hrest⟩ := bind_eq_ok.1 h
    by_cases hidle : Path.isIdle piece
    · have hplace := (follow_eq_ok.1 hfirst).2
      rw [if_pos hidle] at hplace
      subst hplace
      simpa [hidle] using ih hrest
    · rw [List.filter_cons_of_pos (by simpa using hidle), List.foldlM_cons, hfirst]
      exact ih hrest

/-- A path leads where its steps lead from the top or from the fixed directory. -/
theorem foldlM_steps_of_find {p : FilePath} {place : Location} (h : d.find p = .ok place) :
    p.steps.foldlM d.follow (if p.isAbsolute then [] else d.here) = .ok place := by
  obtain ⟨first, hstart, h⟩ := bind_eq_ok.1 h
  unfold start at hstart
  split at hstart
  · cases hstart
  · split at hstart
    · cases hstart
    · obtain rfl := Except.ok.inj hstart
      rw [FilePath.steps_eq]
      exact foldlM_follow_filter h

/-- **Two spellings of a path lead to the same place**, if they lead anywhere. -/
theorem find_eq_of_same {p q : FilePath} (hsame : p.same q = true) {place place' : Location}
    (hp : d.find p = .ok place) (hq : d.find q = .ok place') : place = place' := by
  have hcomponents : p.components = q.components := of_decide_eq_true hsame
  -- both are one walk: the components say where it starts and which steps it takes
  have hp := foldlM_steps_of_find hp
  have hq := foldlM_steps_of_find hq
  rw [FilePath.isAbsolute_eq, FilePath.steps, hcomponents] at hp
  rw [FilePath.isAbsolute_eq, FilePath.steps, hp] at hq
  exact Except.ok.inj hq

theorem find_of_isFile {p : FilePath} (h : d.isFile p = true) :
    ∃ place content, d.find p = .ok place ∧ d.get? place = some (.file content) := by
  unfold isFile at h
  split at h
  · rename_i content hat
    unfold at? at hat
    obtain ⟨place, hplace, hget⟩ := Option.bind_eq_some_iff.1 hat
    cases hfind : d.find p with
    | error trouble => rw [hfind] at hplace; cases hplace
    | ok other =>
      rw [hfind] at hplace
      obtain rfl := Option.some.inj hplace
      exact ⟨other, content, rfl, hget⟩
  · cases h

/-- Two spellings of the path of a file lead to the same library, if it is one. -/
theorem library?_eq_of_same {p q : FilePath} (hsame : p.same q = true) (hp : d.isFile p = true)
    (hq : d.isFile q = true) : d.library? p = d.library? q := by
  obtain ⟨place, _, hfind, -⟩ := find_of_isFile hp
  obtain ⟨place', _, hfind', -⟩ := find_of_isFile hq
  obtain rfl := find_eq_of_same hsame hfind hfind'
  have hat : d.at? p = d.at? q := by rw [at?, at?, hfind, hfind']
  rw [library?, library?, hat]

end Disk
end Marshal
