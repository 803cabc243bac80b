import Mathlib.Data.List.Basic
import Marshal.Proofs.Run.Shares

/-!
# Pieces

The pieces that places are shared out in follow each other from the first place to the last, and
none of them is empty; there are as many as workers, unless there are fewer places.  They differ by
one place at most, the larger ones first.

The same pieces come out if they are worked out in words of a fixed width, where a sum may not fit
and where nothing is divided by zero.  Neither happens, whatever the words are: the end of each
piece is at most the number of places, and the pieces are counted up to a number that is a word
itself.  How much room a list of pieces takes is not looked at.

## Main definitions

* `Span.places` — the places of a piece.
* `add?`, `div?`, `mod?`, `clamp?` — what is worked out with words, if it can be.
* `partition?` — the pieces for words, each laid out where the one before it ends.

## Main results

* `map_size_partition` — the sizes of the pieces.
* `places_partition` — the places of all pieces.
* `partition?_eq` — words give the same pieces.
* `partition_tiles` — all that was said above.
-/

namespace Marshal
namespace Run

/-! ### Pieces that follow each other -/

/-- The places of a piece, in order. -/
def Span.places (s : Span) : List Nat := List.range' s.start s.size

section

variable {sizes : List Nat} {len parts pieces : Nat}

theorem map_size_layOut (h : 0 ∉ sizes) (start : Nat) :
    (layOut start sizes).map Span.size = sizes := by
  induction sizes generalizing start with
  | nil => rfl
  | cons size sizes ih =>
    simp only [List.mem_cons, not_or] at h
    have hsize : ¬ size = 0 := fun hs => h.1 hs.symm
    rw [layOut, if_neg hsize, List.map_cons, ih h.2, Span.size, Nat.add_sub_cancel_left]

theorem places_layOut (h : 0 ∉ sizes) (start : Nat) :
    (layOut start sizes).flatMap Span.places = List.range' start sizes.sum := by
  induction sizes generalizing start with
  | nil => rfl
  | cons size sizes ih =>
    simp only [List.mem_cons, not_or] at h
    have hsize : ¬ size = 0 := fun hs => h.1 hs.symm
    rw [layOut, if_neg hsize, List.flatMap_cons, ih h.2, Span.places, Span.size,
      Nat.add_sub_cancel_left, List.range'_append_1, List.sum_cons]

/-- Without places there are no pieces; otherwise there are some, and not more than places. -/
theorem partition_eq (len parts : Nat) :
    partition len parts = layOut 0 (pieceSizes len (min len (max parts 1))) := by
  rcases Nat.eq_zero_or_pos len with rfl | hpos
  · have hone : min (max parts 1) (max 0 1) = 1 := by omega
    rw [partition, hone, Nat.zero_min]
    rfl
  · have hpieces : min (max parts 1) (max len 1) = min len (max parts 1) := by omega
    rw [partition, hpieces]

theorem zero_notMem_sizes (len parts : Nat) : 0 ∉ pieceSizes len (min len (max parts 1)) := by
  rcases Nat.eq_zero_or_pos len with rfl | hpos
  · rw [Nat.zero_min]
    exact List.not_mem_nil
  · exact zero_notMem_pieceSizes (by omega) (by omega)

/-- **The sizes of the pieces.** -/
theorem map_size_partition (len parts : Nat) :
    (partition len parts).map Span.size = pieceSizes len (min len (max parts 1)) := by
  rw [partition_eq, map_size_layOut (zero_notMem_sizes len parts)]

theorem length_partition (len parts : Nat) :
    (partition len parts).length = min len (max parts 1) := by
  have hlength := congrArg List.length (map_size_partition len parts)
  rwa [List.length_map, pieceSizes, List.length_map, List.length_range] at hlength

/-- No piece is empty. -/
theorem start_lt_stop_of_mem_partition {s : Span} (hs : s ∈ partition len parts) :
    s.start < s.stop := by
  have hmem : s.size ∈ pieceSizes len (min len (max parts 1)) := by
    rw [← map_size_partition]
    exact List.mem_map_of_mem hs
  have hsize : s.size ≠ 0 := fun hzero => zero_notMem_sizes len parts (hzero ▸ hmem)
  rw [Span.size] at hsize
  omega

/-- **The places of all pieces** are all places, in order. -/
theorem places_partition (len parts : Nat) :
    (partition len parts).flatMap Span.places = List.range len := by
  rw [partition_eq, places_layOut (zero_notMem_sizes len parts), List.range_eq_range']
  rcases Nat.eq_zero_or_pos len with rfl | hpos
  · rw [Nat.zero_min]
    rfl
  · rw [sum_pieceSizes (by omega)]

/-- Sizes differ by one at most, and the larger ones come first. -/
theorem pairwise_pieceSizes (len pieces : Nat) :
    (pieceSizes len pieces).Pairwise fun a b => b ≤ a ∧ a ≤ b + 1 := by
  rw [pieceSizes, List.pairwise_map]
  refine List.pairwise_lt_range.imp fun {i j} hij => ?_
  split <;> split <;> omega

end

/-! ### Words -/

section

variable {w : Nat}

/-- The sum of two words, if it is a word. -/
def add? (a b : BitVec w) : Option (BitVec w) := if a.uaddOverflow b then none else some (a + b)

/-- The quotient of two words, but not by zero. -/
def div? (a b : BitVec w) : Option (BitVec w) := if b = 0 then none else some (a / b)

/-- The remainder of two words, but not by zero. -/
def mod? (a b : BitVec w) : Option (BitVec w) := if b = 0 then none else some (a % b)

/-- A word moved between two bounds, if they are in order. -/
def clamp? (low high a : BitVec w) : Option (BitVec w) :=
  if high < low then none else some (if a < low then low else if high < a then high else a)

/-- The larger one of two words. -/
def larger (a b : BitVec w) : BitVec w := if a < b then b else a

/-- The pieces that are left to lay out, from the `i`-th on, each where the one before it ends. -/
def layOut? (base extra : BitVec w) :
    Nat → BitVec w → BitVec w → Option (List (BitVec w × BitVec w))
  | 0, _, _ => some []
  | left + 1, i, start => do
      let size ← add? base (if i < extra then 1#w else 0#w)
      if size = 0 then return []
      let stop ← add? start size
      let next ← add? i 1#w
      let rest ← layOut? base extra left next stop
      return (start, stop) :: rest

/-- The pieces for words. -/
def partition? (len parts : BitVec w) : Option (List (BitVec w × BitVec w)) := do
  let pieces ← clamp? 1#w (larger len 1#w) parts
  let base ← div? len pieces
  let extra ← mod? len pieces
  layOut? base extra pieces.toNat 0#w 0#w

/-- The piece between two words. -/
def spanOf (bounds : BitVec w × BitVec w) : Span := ⟨bounds.1.toNat, bounds.2.toNat⟩

theorem add?_eq {a b : BitVec w} (h : a.toNat + b.toNat < 2 ^ w) :
    ∃ c, add? a b = some c ∧ c.toNat = a.toNat + b.toNat := by
  have hfits : a.uaddOverflow b = false := by
    rw [BitVec.uaddOverflow, decide_eq_false_iff_not]
    omega
  refine ⟨a + b, by rw [add?, hfits]; rfl, ?_⟩
  rw [BitVec.toNat_add, Nat.mod_eq_of_lt h]

theorem div?_eq {a b : BitVec w} (h : 0 < b.toNat) :
    ∃ c, div? a b = some c ∧ c.toNat = a.toNat / b.toNat := by
  have hzero : b ≠ 0 := by
    rintro rfl
    simp at h
  exact ⟨a / b, if_neg hzero, BitVec.toNat_udiv⟩

theorem mod?_eq {a b : BitVec w} (h : 0 < b.toNat) :
    ∃ c, mod? a b = some c ∧ c.toNat = a.toNat % b.toNat := by
  have hzero : b ≠ 0 := by
    rintro rfl
    simp at h
  exact ⟨a % b, if_neg hzero, BitVec.toNat_umod⟩

theorem clamp?_eq {low high a : BitVec w} (h : low.toNat ≤ high.toNat) :
    ∃ c, clamp? low high a = some c ∧ c.toNat = min (max a.toNat low.toNat) high.toNat := by
  have horder : ¬ high < low := by
    simp only [BitVec.lt_def]
    omega
  refine ⟨_, if_neg horder, ?_⟩
  simp only [BitVec.lt_def]
  split
  · omega
  · split <;> omega

theorem toNat_larger (a b : BitVec w) : (larger a b).toNat = max a.toNat b.toNat := by
  simp only [larger, BitVec.lt_def]
  split <;> omega

/-- The sizes of the pieces from the `i`-th on. -/
def sizesFrom (base extra i left : Nat) : List Nat :=
  (List.range' i left).map fun j => base + if j < extra then 1 else 0

theorem toNat_one (w : Nat) : (1#(w + 1)).toNat = 1 := by
  rw [BitVec.toNat_ofNat, Nat.mod_eq_of_lt (Nat.one_lt_two_pow (Nat.succ_ne_zero w))]

/-- Pieces that end at a word can be laid out in words, if they can be counted in words. -/
theorem layOut?_eq (base extra : BitVec (w + 1)) (left : Nat) (i start : BitVec (w + 1))
    (hcount : i.toNat + left < 2 ^ (w + 1))
    (hstop : start.toNat + (sizesFrom base.toNat extra.toNat i.toNat left).sum < 2 ^ (w + 1)) :
    (layOut? base extra left i start).map (List.map spanOf) =
      some (layOut start.toNat (sizesFrom base.toNat extra.toNat i.toNat left)) := by
  induction left generalizing i start with
  | zero => rfl
  | succ left ih =>
    have hsizes : sizesFrom base.toNat extra.toNat i.toNat (left + 1) =
        (base.toNat + if i.toNat < extra.toNat then 1 else 0) ::
          sizesFrom base.toNat extra.toNat (i.toNat + 1) left := rfl
    rw [hsizes] at hstop ⊢
    rw [List.sum_cons] at hstop
    have hmore : (if i < extra then 1#(w + 1) else 0#(w + 1)).toNat =
        if i.toNat < extra.toNat then 1 else 0 := by
      simp only [apply_ite BitVec.toNat, toNat_one, BitVec.toNat_zero, BitVec.lt_def]
    have hfits : base.toNat + (if i < extra then 1#(w + 1) else 0#(w + 1)).toNat < 2 ^ (w + 1) := by
      rw [hmore]
      omega
    obtain ⟨size, hsize, hsizeNat⟩ := add?_eq hfits
    rw [hmore] at hsizeNat
    rw [← hsizeNat] at hstop ⊢
    rw [layOut?, hsize, Option.bind_eq_bind, Option.bind_some, layOut]
    by_cases hempty : size = 0
    · subst hempty
      rfl
    · have hpos : ¬ size.toNat = 0 := fun h => hempty (BitVec.eq_of_toNat_eq h)
      obtain ⟨stop, hstop', hstopNat⟩ := add?_eq (a := start) (b := size) (by omega)
      obtain ⟨next, hnext, hnextNat⟩ := add?_eq (a := i) (b := 1#(w + 1)) (by rw [toNat_one]; omega)
      rw [toNat_one] at hnextNat
      have hrest := ih next stop (by omega) (by rw [hnextNat, hstopNat]; omega)
      rw [hnextNat, hstopNat] at hrest
      obtain ⟨rest, hrest', hspans⟩ := Option.map_eq_some_iff.1 hrest
      simp only [if_neg hempty, if_neg hpos, hstop', hnext, hrest', Option.bind_eq_bind,
        Option.bind_some, Option.pure_def, Option.map_some, List.map_cons, hspans]
      rw [spanOf, hstopNat]

end

/-- **Words give the same pieces**: no sum of words is too large and nothing is divided by zero. -/
theorem partition?_eq {w : Nat} (len parts : BitVec (w + 1)) :
    (partition? len parts).map (List.map spanOf) = some (partition len.toNat parts.toNat) := by
  have hlarger : (larger len 1#(w + 1)).toNat = max len.toNat 1 := by rw [toNat_larger, toNat_one]
  have hbounds : (1#(w + 1)).toNat ≤ (larger len 1#(w + 1)).toNat := by
    rw [hlarger, toNat_one]
    omega
  obtain ⟨pieces, hpieces, hpiecesNat⟩ := clamp?_eq (a := parts) hbounds
  rw [hlarger, toNat_one] at hpiecesNat
  have hpos : 0 < pieces.toNat := by omega
  obtain ⟨base, hbase, hbaseNat⟩ := div?_eq (a := len) hpos
  obtain ⟨extra, hextra, hextraNat⟩ := mod?_eq (a := len) hpos
  have hsizes : sizesFrom base.toNat extra.toNat 0 pieces.toNat =
      pieceSizes len.toNat pieces.toNat := by
    rw [pieceSizes, List.range_eq_range', ← hbaseNat, ← hextraNat, sizesFrom]
  have hlaid := layOut?_eq base extra pieces.toNat 0#(w + 1) 0#(w + 1)
  rw [BitVec.toNat_zero, hsizes, sum_pieceSizes hpos] at hlaid
  have hlen := len.isLt
  have hcount := pieces.isLt
  simp only [partition?, hpieces, hbase, hextra, Option.bind_eq_bind, Option.bind_some, partition,
    ← hpiecesNat]
  exact hlaid (by omega) (by omega)

/-- **The pieces that places are shared out in.**  There are as many as workers, and at least one,
but not more than places; none is empty; one after the other they have all places, in order; each
has as many places as any that comes after it, or one more.  The same pieces come out in words of
any width, where no sum is too large and nothing is divided by zero. -/
theorem partition_tiles (len parts : Nat) :
    (partition len parts).length = min len (max parts 1) ∧
    (∀ s ∈ partition len parts, s.start < s.stop) ∧
    (partition len parts).flatMap Span.places = List.range len ∧
    ((partition len parts).map Span.size).Pairwise (fun a b => b ≤ a ∧ a ≤ b + 1) ∧
    ∀ (w : Nat) (n k : BitVec (w + 1)),
      (partition? n k).map (List.map spanOf) = some (partition n.toNat k.toNat) := by
  refine ⟨length_partition len parts, fun s => start_lt_stop_of_mem_partition,
    places_partition len parts, ?_, fun w n k => partition?_eq n k⟩
  rw [map_size_partition]
  exact pairwise_pieceSizes len _

/-- Ten places for three workers; words of four bits. -/
example : partition? (10#4) 3 = some [(0, 4), (4, 7), (7, 10)] := by decide

end Run
end Marshal
