import Marshal.Proofs.Schema.Sites

/-!
# Names written out

Normalizing a type writes out the serialized names of its fields and of all that is inside them.
It changes nothing else, and doing it again changes nothing.

## Main definitions

* `Field.unformatted`, `Node.unformatted` — a description without the names to write fields under.

## Main results

* `Field.mapAll_mapAll` — two changes of all that is inside a field, one after the other.
* `Node.fieldAt?_normalize` — every field of a type is normalized, however deep it is.
* `Node.normalize_normalize`, `Node.unformatted_normalize` — what normalizing leaves as it is.
-/

namespace Marshal
namespace Schema

/-! ### Fields -/

namespace Field

theorem mapAll_eq (change : Field → Field) (f : Field) :
    f.mapAll change = { change f with kind := mapInside change f.kind } := by
  cases f; rfl

/-- Two changes one after the other come to one, if they do so whatever is inside the field. -/
theorem mapAll_mapAll {change next both : Field → Field}
    (h : ∀ f k k', { next { change f with kind := k } with kind := k' } =
      { both f with kind := k' }) (f : Field) :
    (f.mapAll change).mapAll next = f.mapAll both := by
  induction f using childInduction with
  | step f ih =>
    have hinside : mapInside next (mapInside change f.kind) = mapInside both f.kind := by
      cases hk : f.kind <;> rw [hk] at ih <;> simp_all [mapInside, Kind.children]
    rw [mapAll_eq next, kind_mapAll, hinside, mapAll_eq change, mapAll_eq both]
    exact h f _ _

/-- A field without the names that it and all that is inside it are written under. -/
def unformatted (f : Field) : Field := f.mapAll fun e => { e with formattedName := "" }

section

variable (f : Field)

theorem normalize_eq :
    f.normalize = ⟨f.name, f.serializedName, mapInside (fun g => { g with
      formattedName := g.serializedName }) f.kind, f.typeName, f.access, f.link⟩ := by
  rw [normalize, mapAll_eq]

theorem formattedName_normalize : f.normalize.formattedName = f.serializedName := by
  rw [normalize_eq]

@[simp] theorem serializedName_normalize : f.normalize.serializedName = f.serializedName := by
  rw [normalize_eq, serializedName, serializedName]
  split <;> simp_all

/-- A name that is written out is written out as it is. -/
theorem normalize_normalize : f.normalize.normalize = f.normalize := by
  refine mapAll_mapAll (fun e k k' => ?_) f
  by_cases h : e.formattedName = "" <;> simp [serializedName, h]

theorem unformatted_normalize : f.normalize.unformatted = f.unformatted :=
  mapAll_mapAll (fun _ _ _ => rfl) f

end

end Field

/-! ### Nodes -/

namespace Node

variable (n : Node)

/-- A type without the names that its fields are written under. -/
def unformatted : Node := { n with fields := n.fields.map Field.unformatted }

variable {n} in
/-- Where all fields are changed, so is the one that a path leads to. -/
theorem fieldAt?_of_map {m : Node} {change : Field → Field}
    (h : m.fields = n.fields.map (Field.mapAll change)) (path : List Nat) :
    m.fieldAt? path = (n.fieldAt? path).map (Field.mapAll change) := by
  cases path with
  | nil => rfl
  | cons i path =>
    simp only [fieldAt?, h, List.getElem?_map]
    cases n.fields[i]? with
    | none => rfl
    | some f => exact Field.at?_mapAll change path f

/-- **Every field of a type is normalized**, and there are no others. -/
theorem fieldAt?_normalize (path : List Nat) :
    n.normalize.fieldAt? path = (n.fieldAt? path).map Field.normalize := fieldAt?_of_map rfl path

theorem fieldAt?_unlinked (path : List Nat) :
    n.unlinked.fieldAt? path = (n.fieldAt? path).map Field.unlinked := fieldAt?_of_map rfl path

theorem normalize_normalize : n.normalize.normalize = n.normalize := by
  simp [normalize, Function.comp_def, Field.normalize_normalize]

theorem unformatted_normalize : n.normalize.unformatted = n.unformatted := by
  simp [unformatted, normalize, Function.comp_def, Field.unformatted_normalize]

end Node
end Schema
end Marshal
