/-!
# Sharing out work

A list is shared out in pieces that follow each other.  There are as many pieces as workers, but
never an empty one; their sizes differ by one at most, and the larger ones come first.

## Main definitions

* `Span` — a piece.
* `partition` — the pieces for a number of workers.
* `shares` — a list cut in its pieces.
* `workers` — the number of workers for a setting.
-/

namespace Marshal
namespace Run

/-- The places from one up to, and without, another. -/
structure Span where
  /-- The first place. -/
  start : Nat
  /-- The place after the last. -/
  stop : Nat
  deriving DecidableEq, Repr, Inhabited

/-- The number of places. -/
def Span.size (s : Span) : Nat := s.stop - s.start

/-- Spans of the given sizes that follow each other; the first empty one ends them. -/
def layOut (start : Nat) : List Nat → List Span
  | [] => []
  | size :: sizes =>
      if size = 0 then [] else ⟨start, start + size⟩ :: layOut (start + size) sizes

/-- The sizes of the pieces. -/
def pieceSizes (len pieces : Nat) : List Nat :=
  (List.range pieces).map fun i => len / pieces + if i < len % pieces then 1 else 0

/-- The pieces that places are shared out in. -/
def partition (len parts : Nat) : List Span :=
  let pieces := min (max parts 1) (max len 1)
  layOut 0 (pieceSizes len pieces)

/-- The part of a list at the places of a span. -/
def Span.slice {α : Type} (s : Span) (as : List α) : List α := (as.drop s.start).take s.size

/-- A list cut in its pieces. -/
def shares {α : Type} (parts : Nat) (as : List α) : List (List α) :=
  (partition as.length parts).map fun s => s.slice as

/-- The number of workers for a setting; zero stands for one per processor. -/
def workers (processors setting : Nat) : Nat :=
  if 0 < setting then setting else max processors 1

end Run
end Marshal
