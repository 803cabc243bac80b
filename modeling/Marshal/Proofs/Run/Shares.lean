import Mathlib.Algebra.Ring.Nat
import Mathlib.Data.List.Basic
import Marshal.Run.Partition

/-!
# What is shared out is all there is

The sizes of the pieces add up to the length of the list, and none of them is zero unless the list
is empty.  So the pieces follow each other from the start of the list to its end.

## Main results

* `sum_pieceSizes` — the sizes add up.
* `flatten_shares` — the shares put together are the list.
-/

namespace Marshal
namespace Run

/-! ### Sizes -/

theorem sum_range_pieces (base extra n : Nat) :
    ((List.range n).map fun i => base + if i < extra then 1 else 0).sum = n * base + min n extra := by
  induction n with
  | zero => simp
  | succ n ih =>
    rw [List.range_succ, List.map_append, List.sum_append, ih]
    simp only [List.map_cons, List.map_nil, List.sum_cons, List.sum_nil, Nat.succ_mul]
    split <;> omega

/-- **The sizes of the pieces add up to the length.** -/
theorem sum_pieceSizes {len pieces : Nat} (h : 0 < pieces) : (pieceSizes len pieces).sum = len := by
  have hextra : min pieces (len % pieces) = len % pieces :=
    Nat.min_eq_right (Nat.le_of_lt (Nat.mod_lt len h))
  rw [pieceSizes, sum_range_pieces, hextra, Nat.div_add_mod]

/-- No piece is empty if there are not more pieces than places. -/
theorem zero_notMem_pieceSizes {len pieces : Nat} (hpos : 0 < pieces) (h : pieces ≤ len) :
    0 ∉ pieceSizes len pieces := by
  intro hmem
  obtain ⟨i, -, hi⟩ := List.mem_map.1 hmem
  have hbase : 0 < len / pieces := Nat.div_pos h hpos
  omega

/-! ### Pieces -/

theorem flatten_layOut {α : Type} (as : List α) {sizes : List Nat} (h : 0 ∉ sizes) (start : Nat) :
    ((layOut start sizes).map fun s => s.slice as).flatten = (as.drop start).take sizes.sum := by
  induction sizes generalizing start with
  | nil => simp [layOut]
  | cons size sizes ih =>
    simp only [List.mem_cons, not_or] at h
    have hsize : ¬ size = 0 := fun hs => h.1 hs.symm
    rw [layOut, if_neg hsize, List.map_cons, List.flatten_cons, ih h.2, List.sum_cons, List.take_add,
      List.drop_drop]
    simp [Span.slice, Span.size]

/-- **The shares put together are the list**, whatever the number of workers. -/
theorem flatten_shares {α : Type} (parts : Nat) (as : List α) : (shares parts as).flatten = as := by
  unfold shares partition
  rcases Nat.eq_zero_or_pos as.length with hzero | hpos
  · rw [List.length_eq_zero_iff.1 hzero]
    simp [Span.slice]
  · have hpieces : 0 < min (max parts 1) (max as.length 1) := by omega
    have hle : min (max parts 1) (max as.length 1) ≤ as.length := by omega
    rw [flatten_layOut as (zero_notMem_pieceSizes hpieces hle), sum_pieceSizes hpieces]
    simp

end Run
end Marshal
