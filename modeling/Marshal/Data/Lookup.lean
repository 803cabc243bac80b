/-!
# Tables as lists

A list of keys with what they stand for, in which a key stands for what comes first with it.

## Main results

* `lookup_cons_filter` — what keys stand for after one was given something else to stand for.
-/

namespace Marshal
namespace Data

variable {κ ν : Type} [BEq κ] [LawfulBEq κ] [DecidableEq κ]

/-- Taking away what one key stands for changes nothing for the others. -/
theorem lookup_filter_ne (entries : List (κ × ν)) {key other : κ} (h : other ≠ key) :
    (entries.filter (·.1 ≠ key)).lookup other = entries.lookup other := by
  induction entries with
  | nil => rfl
  | cons e entries ih =>
    obtain ⟨k, v⟩ := e
    by_cases hk : k = key
    · have hne : (other == k) = false := by simpa [hk] using h
      simpa [List.filter_cons, hk, List.lookup_cons, hk ▸ hne] using ih
    · simp only [List.filter_cons, ne_eq, hk, not_false_eq_true, decide_true, if_true,
        List.lookup_cons, ih]

/-- **What keys stand for after one was given something else to stand for.** -/
theorem lookup_cons_filter (entries : List (κ × ν)) (key : κ) (v : ν) (other : κ) :
    ((key, v) :: entries.filter (·.1 ≠ key)).lookup other =
      if other = key then some v else entries.lookup other := by
  by_cases h : other = key
  · rw [List.lookup_cons, if_pos h, beq_iff_eq.2 h]
  · rw [List.lookup_cons, if_neg h, beq_eq_false_iff_ne.2 h, lookup_filter_ne entries h]

end Data
end Marshal
