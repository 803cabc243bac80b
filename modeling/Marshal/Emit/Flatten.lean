import Marshal.Schema.Graph

/-!
# Inherited fields

The fields that are written for a node are those of its bases, in order and each base after its
own bases, and then its own.  Of a base, the fields that only the base itself may name are left
out.  A base that is not linked adds nothing, and neither does one whose name is already on the
way from the node to it, so that the walk ends in every graph.

## Main definitions

* `flatten` — the fields that are written for a node.

## Main results

* `fresh_lt` — going on to a node whose name is new on the way leaves fewer names that are new.
-/

namespace Marshal
namespace Emit

open Schema

/-- The names of a graph that are not on a way. -/
def fresh (g : Graph) (way : List String) : List String :=
  ((g.nodes.map (·.name)).eraseDups).filter (· ∉ way)

theorem mem_eraseDups {α : Type} [BEq α] [LawfulBEq α] {a : α} {as : List α} (h : a ∈ as) :
    a ∈ as.eraseDups := by
  simpa using h

/-- A node whose name is not on the way takes it off the names that are new. -/
theorem fresh_lt {g : Graph} {way : List String} {id : NodeId} {n : Node}
    (hn : g.node? id = some n) (h : n.name ∉ way) :
    (fresh g (n.name :: way)).length < (fresh g way).length := by
  have hmem : n.name ∈ (g.nodes.map (·.name)).eraseDups := by
    apply mem_eraseDups
    have : n ∈ g.nodes := List.mem_of_getElem? hn
    exact List.mem_map.2 ⟨n, this, rfl⟩
  have hsub : fresh g (n.name :: way) = (fresh g way).filter (· ≠ n.name) := by
    unfold fresh
    rw [List.filter_filter]
    congr 1
    funext a
    by_cases ha : a = n.name <;> simp [ha]
  rw [hsub]
  refine Nat.lt_of_le_of_ne (List.length_filter_le ..) fun he => ?_
  have hin : n.name ∈ fresh g way := List.mem_filter.2 ⟨hmem, by simpa using h⟩
  simpa using List.length_filter_eq_length_iff.1 he n.name hin

/-- The fields inherited from bases; `way` has the names from the node down to here. -/
def inherited (g : Graph) (way : List String) : List Base → List Field
  | [] => []
  | b :: bs =>
      (match _hn : b.link.bind g.node? with
        | none => []
        | some n =>
            if _hw : n.name ∈ way then []
            else inherited g (n.name :: way) n.bases ++ n.fields.filter (·.access ≠ .owner)) ++
      inherited g way bs
termination_by bases => ((fresh g way).length, bases.length)
decreasing_by
  · obtain ⟨id, _, hid⟩ := Option.bind_eq_some_iff.1 _hn
    exact Prod.Lex.left _ _ (fresh_lt hid _hw)
  · exact Prod.Lex.right _ (Nat.lt_succ_self _)

/-- The fields that are written for a node. -/
def flatten (g : Graph) (n : Node) : List Field := inherited g [n.name] n.bases ++ n.fields

end Emit
end Marshal
