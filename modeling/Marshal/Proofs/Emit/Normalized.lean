import Marshal.Proofs.Emit.Unfold
import Marshal.Proofs.Schema.Normalized

/-!
# Code for normalized types

Code is written from the serialized names of fields, and these are the same whether they are
written out or not.  So it does not matter which of the types are normalized, of those that are
written as of those that are inherited from or written out as part of others.

## Main definitions

* `Graph.normalizeAt` — a graph with some of its types normalized.

## Main results

* `Node.alike_normalize` — a normalized type is alike.
* `generate_normalize` — what normalizing a type changes, and that it does not change any code.
-/

namespace Marshal

open Schema

namespace Schema

/-! ### Normalized types are alike -/

/-- A normalized field is alike, and so is all that is inside it. -/
theorem Field.alike_normalize (f : Field) : f.Alike (· = ·) f.normalize := by
  induction f using Field.childInduction with
  | step f ih =>
    obtain ⟨n, m, k, t, a, l⟩ := f
    have hserialized := serializedName_normalize ⟨n, m, k, t, a, l⟩
    rw [normalize_eq] at hserialized ⊢
    refine .intro rfl hserialized.symm rfl rfl (related_self fun _ _ => rfl) ?_
    cases k with
    | scalar s => exact .scalar s
    | object => exact .object
    | pod => exact .pod
    | staticArray e => exact .staticArray (ih e (by simp [Kind.children]))
    | dynamicArray e v => exact .dynamicArray v (ih e (by simp [Kind.children]))
    | vector e => exact .vector (ih e (by simp [Kind.children]))
    | set sorted e => exact .set sorted (ih e (by simp [Kind.children]))
    | map sorted k v =>
      exact .map sorted (ih k (by simp [Kind.children])) (ih v (by simp [Kind.children]))

theorem Node.alike_refl (n : Node) : n.Alike (· = ·) n := alike_self fun _ _ _ => rfl

/-- **A normalized type is alike.** -/
theorem Node.alike_normalize (n : Node) : n.Alike (· = ·) n.normalize where
  name := rfl
  isPod := rfl
  fields := List.forall₂_map_right_iff.2 (List.forall₂_same.2 fun f _ => f.alike_normalize)
  bases := List.forall₂_same.2 fun _ _ => related_self fun _ _ => rfl

/-- A graph with some of its types normalized. -/
def Graph.normalizeAt (g : Graph) (chosen : NodeId → Bool) : Graph :=
  ⟨g.nodes.mapIdx fun id n => if chosen id then n.normalize else n⟩

theorem Graph.bisimulation_normalizeAt (g : Graph) (chosen : NodeId → Bool) :
    g.Bisimulation (g.normalizeAt chosen) (· = ·) := by
  rintro id _ rfl
  rw [node?, node?, normalizeAt, List.getElem?_mapIdx]
  cases g.nodes[id]? with
  | none => exact .none
  | some n =>
    refine .some ?_
    show n.Alike (· = ·) (if chosen id then n.normalize else n)
    split
    · exact n.alike_normalize
    · exact n.alike_refl

end Schema

namespace Emit

/-! ### Code for normalized types -/

/-- **Normalizing a type is not seen in any code.**  It writes out the serialized name of each of
its fields, at every depth, where there was none, and changes nothing else, so that the name that
each of them is written under stays the same, and doing it again changes nothing.  Whichever types
of a graph are normalized, this one or others, it has the same code, or none for the same reason,
and so has every other type, whether it inherits from them, holds them or has nothing to do with
them. -/
theorem generate_normalize (n : Node) :
    n.normalize.unformatted = n.unformatted ∧
    (∀ path, (n.normalize.fieldAt? path).map (·.formattedName) =
      (n.fieldAt? path).map fun f => if f.formattedName = "" then f.name else f.formattedName) ∧
    n.normalize.normalize = n.normalize ∧
    (∀ path, (n.normalize.fieldAt? path).map (·.serializedName) =
      (n.fieldAt? path).map (·.serializedName)) ∧
    ∀ (g : Graph) (chosen : NodeId → Bool),
      generate (g.normalizeAt chosen) n.normalize = generate g n ∧
      ∀ m, generate (g.normalizeAt chosen) m = generate g m := by
  refine ⟨n.unformatted_normalize, fun path => ?_, n.normalize_normalize, fun path => ?_,
    fun g chosen => ?_⟩
  · rw [Node.fieldAt?_normalize, Option.map_map]
    exact congrArg (Option.map · (n.fieldAt? path)) (funext Field.formattedName_normalize)
  · rw [Node.fieldAt?_normalize, Option.map_map]
    exact congrArg (Option.map · (n.fieldAt? path)) (funext Field.serializedName_normalize)
  · have hgraphs := g.bisimulation_normalizeAt chosen
    exact ⟨(generate_alike hgraphs n.alike_normalize).symm,
      fun m => (generate_alike hgraphs m.alike_refl).symm⟩

end Emit
end Marshal
