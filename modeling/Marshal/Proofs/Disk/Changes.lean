import Mathlib.Data.List.Basic
import Marshal.Disk
import Marshal.Proofs.Data.Gives

/-!
# What changes leave as it was

Making directories only adds to a disk.  Writing a file also changes what is in one place, which
its path leads to.  In both cases nothing is taken away and directories stay directories, so a path
that leads somewhere leads to the same place afterwards.

## Main definitions

* `Disk.Adds` — nothing is changed that was there.
* `Disk.Grows` — nothing is taken away, and directories stay directories.

## Main results

* `Grows.find` — a path leads to the place it led to before.
* `createDirectories_adds` — making directories only adds.
* `writeText_eq_ok` — what is where after a text was written.
-/

namespace Marshal
namespace Disk

/-- Nothing is changed that was there. -/
structure Adds (d d' : Disk) : Prop where
  here : d'.here = d.here
  get? : ∀ place e, d.get? place = some e → d'.get? place = some e

/-- Nothing is taken away, and directories stay directories. -/
structure Grows (d d' : Disk) : Prop where
  here : d'.here = d.here
  directory : ∀ place, d.get? place = some .directory → d'.get? place = some .directory
  isSome : ∀ place, (d.get? place).isSome → (d'.get? place).isSome

variable {d d' d'' : Disk}

/-! ### Adding -/

theorem Adds.refl (d : Disk) : d.Adds d := ⟨rfl, fun _ _ h => h⟩

theorem Adds.trans (h : d.Adds d') (h' : d'.Adds d'') : d.Adds d'' :=
  ⟨h'.here.trans h.here, fun place e he => h'.get? place e (h.get? place e he)⟩

theorem Adds.grows (h : d.Adds d') : d.Grows d' where
  here := h.here
  directory place := h.get? place .directory
  isSome place hplace := by
    obtain ⟨e, he⟩ := Option.isSome_iff_exists.1 hplace
    rw [h.get? place e he]
    rfl

theorem adds_put {place : Location} {e : Entry} (h : (d.get? place).isSome = false) :
    d.Adds (d.put place e) := by
  refine ⟨rfl, fun other e' he' => ?_⟩
  have hne : other ≠ place := by
    rintro rfl
    rw [he'] at h
    cases h
  rw [get?_put_of_ne d e hne, he']

/-! ### Following paths -/

theorem Grows.trans (h : d.Grows d') (h' : d'.Grows d'') : d.Grows d'' :=
  ⟨h'.here.trans h.here, fun place hp => h'.directory place (h.directory place hp),
    fun place hp => h'.isSome place (h.isSome place hp)⟩

/-- What it takes to follow a piece of a path. -/
theorem follow_eq_ok {place place' : Location} {piece : List Char} :
    d.follow place piece = .ok place' ↔ d.get? place = some .directory ∧
      if Path.isIdle piece then place = place'
      else if piece = ['.', '.'] then place.dropLast = place'
      else ¬longestName < (String.ofList piece).utf8ByteSize ∧
        (d.get? (place ++ [String.ofList piece])).isSome ∧ place ++ [String.ofList piece] = place' := by
  unfold follow
  split
  · rename_i hdirectory
    simp only [hdirectory, true_and]
    by_cases hidle : Path.isIdle piece
    · rw [if_pos hidle, if_pos hidle, Except.ok.injEq]
    · rw [if_neg hidle, if_neg hidle]
      by_cases hup : piece = ['.', '.']
      · rw [if_pos hup, if_pos hup, Except.ok.injEq]
      · rw [if_neg hup, if_neg hup]
        by_cases hlong : longestName < (String.ofList piece).utf8ByteSize
        · simp [hlong]
        · by_cases hthere : (d.get? (place ++ [String.ofList piece])).isSome
          · simp [hlong, hthere]
          · simp [hlong, hthere]
  · rename_i hdirectory
    constructor
    · intro h
      cases h
    · rintro ⟨h, -⟩
      exact absurd h hdirectory

theorem Grows.follow (h : d.Grows d') {place place' : Location} {piece : List Char}
    (hfollow : d.follow place piece = .ok place') : d'.follow place piece = .ok place' := by
  rw [follow_eq_ok] at hfollow ⊢
  obtain ⟨hdirectory, hfollow⟩ := hfollow
  refine ⟨h.directory place hdirectory, ?_⟩
  by_cases hidle : Path.isIdle piece
  · rwa [if_pos hidle] at hfollow ⊢
  · by_cases hup : piece = ['.', '.']
    · rwa [if_neg hidle, if_pos hup] at hfollow ⊢
    · rw [if_neg hidle, if_neg hup] at hfollow ⊢
      obtain ⟨hshort, hthere, hplace⟩ := hfollow
      exact ⟨hshort, h.isSome _ hthere, hplace⟩

theorem Grows.foldlM_follow (h : d.Grows d') {pieces : List (List Char)} {place place' : Location}
    (hfollow : pieces.foldlM d.follow place = .ok place') :
    pieces.foldlM d'.follow place = .ok place' := by
  induction pieces generalizing place with
  | nil => exact hfollow
  | cons piece pieces ih =>
    rw [List.foldlM_cons] at hfollow ⊢
    obtain ⟨between, hfirst, hrest⟩ := bind_eq_ok.1 hfollow
    rw [h.follow hfirst]
    exact ih hrest

theorem Grows.start (h : d.Grows d') (p : FilePath) : d'.start p = d.start p := by
  unfold Disk.start
  rw [h.here]

/-- **A path leads to the place it led to before.** -/
theorem Grows.find (h : d.Grows d') {p : FilePath} {place : Location} (hfind : d.find p = .ok place) :
    d'.find p = .ok place := by
  unfold Disk.find at hfind ⊢
  rw [h.start p]
  obtain ⟨first, hstart, hfollow⟩ := bind_eq_ok.1 hfind
  rw [hstart]
  exact h.foldlM_follow hfollow

theorem readText?_of_find {p : FilePath} {place : Location} {raw : Raw} (h : d.find p = .ok place)
    (hget : d.get? place = some (.file (.text raw))) : d.readText? p = raw.toText? := by
  have hat : d.at? p = some (.file (.text raw)) := by
    rw [at?, h]
    exact hget
  rw [readText?, hat]

/-! ### Making directories -/

theorem createDirectory_adds {p : FilePath} (h : d.createDirectory p = .ok d') : d.Adds d' := by
  unfold createDirectory at h
  by_cases hempty : p.text = ""
  · rw [if_pos hempty] at h
    cases h
  · rw [if_neg hempty] at h
    obtain ⟨-, -, h⟩ := bind_eq_ok.1 h
    obtain ⟨⟨place, last⟩, -, h⟩ := bind_eq_ok.1 h
    dsimp only at h
    by_cases hthere : (d.get? (place ++ [String.ofList last])).isSome
    · rw [if_pos hthere] at h
      cases h
    · rw [if_neg hthere] at h
      obtain rfl : d.put (place ++ [String.ofList last]) .directory = d' := Except.ok.inj h
      exact adds_put (Bool.eq_false_iff.2 hthere)

/-- **Making directories only adds to a disk.** -/
theorem createUpTo_adds (levels : Nat) (d : Disk) (p : FilePath) :
    d.Adds (d.createUpTo levels p).1 := by
  induction levels generalizing d p with
  | zero => exact .refl d
  | succ levels ih =>
    unfold createUpTo
    by_cases hempty : p.text = ""
    · rw [if_pos hempty]
      exact .refl d
    · rw [if_neg hempty]
      cases hmade : d.createDirectory p with
      | ok d' => exact createDirectory_adds hmade
      | error trouble =>
        cases trouble with
        | other => exact .refl d
        | missing =>
          cases p.parent with
          | none => exact .refl d
          | some q =>
            have hbelow := ih d q
            dsimp only
            generalize d.createUpTo levels q = below at hbelow
            obtain ⟨d', done⟩ := below
            cases done with
            | false => exact hbelow
            | true =>
              dsimp only
              cases hmade' : d'.createDirectory p with
              | ok d'' => exact hbelow.trans (createDirectory_adds hmade')
              | error trouble => exact hbelow

theorem createDirectories_adds (d : Disk) (p : FilePath) : d.Adds (d.createDirectories p).1 :=
  createUpTo_adds _ d p

/-! ### Writing files -/

/-- What it takes to find the place of a file. -/
theorem parentAndName_eq_ok {p : FilePath} {place : Location} {last : List Char}
    (h : d.parentAndName false p = .ok (place, last)) :
    ∃ before first, Path.pieces p.text.toList = before ++ [last] ∧ d.start p = .ok first ∧
      before.foldlM d.follow first = .ok place ∧ d.get? place = some .directory ∧
      Path.isIdle last = false ∧ last ≠ ['.', '.'] ∧
      ¬longestName < (String.ofList last).utf8ByteSize := by
  simp only [parentAndName, Bool.false_eq_true, if_false] at h
  cases hlast : (Path.pieces p.text.toList).getLast? with
  | none =>
    rw [hlast] at h
    cases h
  | some last' =>
    simp only [hlast] at h
    obtain ⟨first, hfirst, h⟩ := bind_eq_ok.1 h
    obtain ⟨place', hplace, h⟩ := bind_eq_ok.1 h
    split at h
    · rename_i hdirectory
      split at h
      · cases h
      · rename_i hname
        rw [Bool.or_eq_true, not_or, decide_eq_true_iff, Bool.not_eq_true] at hname
        split at h
        · cases h
        · rename_i hshort
          obtain ⟨rfl, rfl⟩ := Prod.mk.inj (Except.ok.inj h)
          exact ⟨_, first, (List.dropLast_append_getLast? last' hlast).symm, hfirst, hplace, hdirectory,
            hname.1, hname.2, hshort⟩
    · cases h

/-- **What is where after a text was written.**  The path leads to the text, and nothing else has
changed. -/
theorem writeText_eq_ok {p : FilePath} {text : String} (h : d.writeText p text = .ok d') :
    d.Grows d' ∧ ∃ place, d'.find p = .ok place ∧
      d'.get? place = some (.file (.text (.ofText text))) ∧
      ∀ other, other ≠ place → d'.get? other = d.get? other := by
  unfold writeText at h
  obtain ⟨⟨directory, last⟩, hparent, h⟩ := bind_eq_ok.1 h
  obtain ⟨before, first, hpieces, hfirst, hbefore, hdirectory, hidle, hup, hshort⟩ :=
    parentAndName_eq_ok hparent
  let place : Location := directory ++ [String.ofList last]
  let e : Entry := .file (.text (.ofText text))
  have hd' : d.get? place ≠ some .directory ∧ d.put place e = d' := by
    dsimp only at h
    split at h
    · cases h
    · rename_i hfree
      exact ⟨hfree, Except.ok.inj h⟩
  obtain ⟨hfree, rfl⟩ := hd'
  have hself : (d.put place e).get? place = some e := get?_put_self d e (by simp [place])
  have hother : ∀ other, other ≠ place → (d.put place e).get? other = d.get? other :=
    fun other hne => get?_put_of_ne d e hne
  have hgrows : d.Grows (d.put place e) := by
    refine ⟨rfl, fun other hd => ?_, fun other hthere => ?_⟩
    · have hne : other ≠ place := by
        rintro rfl
        exact hfree hd
      rw [hother other hne, hd]
    · by_cases hsame : other = place
      · rw [hsame, hself]
        rfl
      · rwa [hother other hsame]
  refine ⟨hgrows, place, ?_, hself, hother⟩
  have hlast : (d.put place e).follow directory last = .ok place := by
    rw [follow_eq_ok, hidle, if_neg Bool.false_ne_true, if_neg hup]
    exact ⟨hgrows.directory directory hdirectory, hshort, by rw [hself]; rfl, rfl⟩
  unfold Disk.find
  rw [hgrows.start p, hfirst, hpieces]
  refine bind_eq_ok.2 ⟨first, rfl, ?_⟩
  rw [List.foldlM_append]
  exact bind_eq_ok.2 ⟨directory, hgrows.foldlM_follow hbefore, bind_eq_ok.2 ⟨place, hlast, rfl⟩⟩

end Disk
end Marshal
