import Marshal.Path

/-!
# The order of paths

Paths are compared component by component, and components by kind and then by name.  Both are
total orders; two paths are at the same place in the order exactly if their components are equal,
however they are spelled.

## Main results

* `Component.compare_eq` — components are compared by kind, and then by name.
* `FilePath.compare_eq_eq_iff` — paths that compare as equal have the same components.
-/

namespace Marshal

open Std

namespace Component

/-- The name of a component that is a name. -/
def label : Component → String
  | .name text => text
  | _ => ""

theorem compare_eq : compare = compareLex (compareOn rank) (compareOn label) := by
  funext a b
  cases a <;> cases b <;>
    simp [compare, compareLex, compareOn, rank, label, Ordering.then, Nat.compare_eq_ite_lt]

instance : TransCmp compare := by
  rw [compare_eq]
  infer_instance

instance : LawfulEqCmp compare where
  eq_of_compare {a b} h := by
    rw [compare_eq, compareLex, Ordering.then_eq_eq] at h
    obtain ⟨hrank, hlabel⟩ := h
    have hrank : a.rank = b.rank := LawfulEqCmp.eq_of_compare hrank
    have hlabel : a.label = b.label := LawfulEqCmp.eq_of_compare hlabel
    cases a <;> cases b <;> simp_all [rank, label]

end Component

namespace FilePath

theorem compare_eq (p q : FilePath) :
    p.compare q = List.compareLex Component.compare p.components q.components := by
  unfold compare
  generalize p.components = as
  generalize q.components = bs
  induction as generalizing bs with
  | nil => cases bs <;> rfl
  | cons a as ih =>
    cases bs with
    | nil => rfl
    | cons b bs => rw [compare.go, List.compareLex_cons_cons, ih]

instance : TransCmp compare where
  eq_swap {p q} := by
    simp only [compare_eq]
    exact OrientedCmp.eq_swap
  isLE_trans {p q r} := by
    simp only [compare_eq]
    exact TransCmp.isLE_trans

/-- **Paths that compare as equal have the same components.** -/
theorem compare_eq_eq_iff {p q : FilePath} : p.compare q = .eq ↔ p.same q = true := by
  rw [compare_eq, same, decide_eq_true_iff, LawfulEqCmp.compare_eq_iff_eq]

theorem same_comm (p q : FilePath) : p.same q = q.same p := by
  simp [same, eq_comm]

theorem same_congr_left {p q : FilePath} (h : p.same q = true) (r : FilePath) :
    p.same r = q.same r := by
  have hcomponents : p.components = q.components := of_decide_eq_true h
  simp only [same, hcomponents]

theorem same_eq_false_of_compare {p q : FilePath} (h : p.compare q ≠ .eq) : q.same p = false := by
  rw [same_comm, Bool.eq_false_iff]
  exact fun hsame => h (compare_eq_eq_iff.2 hsame)

end FilePath
end Marshal
