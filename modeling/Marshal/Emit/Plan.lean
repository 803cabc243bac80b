import Marshal.Emit.Flatten
import Marshal.Emit.Literal

/-!
# Plans

Before any code is written for a node, its fields are laid out as a **plan**: the members of one
JSON object, each with the way to it, the key it is written under, and its shape.  The fields of
a plain record become members of the object that its holder is written to; only inside a
container, where there is no such object, it gets one of its own.

Whatever stands in the way of writing code is met while planning, so a plan can be written in
both directions.

## Main definitions

* `Shape`, `Member` — plans.
* `Obstacle` — why there is none.
* `plan` — the plan of a list of fields.
-/

namespace Marshal
namespace Emit

open Schema

/-! ### Plans -/

/-- A member of an object. -/
structure Member (α : Type) where
  /-- The names that lead from the object to the record that has the member. -/
  owner : List String
  /-- The name of the member in that record. -/
  name : String
  /-- The key it is written under. -/
  key : String
  /-- How its value is written. -/
  shape : α
  deriving Repr, Inhabited

/-- How a value is written. -/
inductive Shape where
  /-- A number; when read, it is cast to a type, or if that is empty, to the type of the target. -/
  | number (typeName : String)
  /-- A truth value. -/
  | bool
  /-- A text. -/
  | text
  /-- An object that is left to the routines of its own type. -/
  | object
  /-- An object with members. -/
  | record (members : List (Member Shape))
  /-- A list, from an array whose size is part of its type. -/
  | staticArray (element : Shape)
  /-- A list, from an array whose length is kept in another member. -/
  | dynamicArray (lengthVar : String) (element : Shape)
  /-- A list, from a sequence that can grow. -/
  | vector (element : Shape)
  /-- A list, from a set. -/
  | set (element : Shape)
  /-- An object, from a map with keys without parts. -/
  | map (key : Scalar) (value : Shape)
  deriving Repr, Inhabited

/-- The shape of a value without parts. -/
def Shape.ofScalar (typeName : String) : Scalar → Shape
  | .int | .float | .double => .number typeName
  | .bool => .bool
  | .string => .text

/-! ### Obstacles -/

/-- Why there is no plan; `field` is the serialized name of the outermost field. -/
inductive Obstacle where
  /-- A plain record is not known. -/
  | unresolvedPod (field typeName : String)
  /-- A plain record is part of itself. -/
  | recursivePod (name : String)
  /-- An array whose length would be kept elsewhere is no member of a record. -/
  | strayArray (field : String)
  /-- The key of a map has parts. -/
  | unsupportedKey (field kind : String)
  deriving DecidableEq, Repr, Inhabited

/-- The wording of an obstacle. -/
def Obstacle.message : Obstacle → String
  | .unresolvedPod field typeName =>
      s!"POD field `{field}` refers to unresolved type `{typeName}`"
  | .recursivePod name => s!"POD type `{name}` contains itself"
  | .strayArray field =>
      s!"field `{field}`: dynamic arrays are only supported as direct members of a record"
  | .unsupportedKey field kind => s!"field `{field}`: map keys of kind `{kind}` are not supported"

/-! ### Planning -/

section

variable (g : Graph) (top : String)

/-- The kind of a field is part of it. -/
theorem sizeOf_kind_lt (f : Field) : sizeOf f.kind < sizeOf f := by
  cases f
  simp
  omega

mutual

/-- The members that fields add to an object.  `pods` has the plain records that are being
written out, innermost first; `owner` leads to the record with the fields, and `outer` is the key
it has. -/
def planMembers (pods : List String) (owner : List String) (outer : String) :
    List Field → Except Obstacle (List (Member Shape))
  | [] => .ok []
  | f :: fs => do
      let members ← planMember pods owner outer f
      return members ++ (← planMembers pods owner outer fs)
termination_by fs => ((fresh g pods).length, sizeOf fs, 2)

/-- The members that a field adds to an object. -/
def planMember (pods : List String) (owner : List String) (outer : String) (f : Field) :
    Except Obstacle (List (Member Shape)) :=
  match f.kind with
  | .pod =>
      match _hn : f.link.bind g.node? with
      | none => .error (.unresolvedPod top f.typeName)
      | some n =>
          if _hw : n.name ∈ pods then .error (.recursivePod n.name)
          else planMembers (n.name :: pods) (owner ++ [f.name]) (dotted outer f.serializedName)
            (flatten g n)
  | _ => do
      let shape ← planShape pods true f
      return [⟨owner, f.name, dotted outer f.serializedName, shape⟩]
termination_by ((fresh g pods).length, sizeOf f, 1)
decreasing_by
  · obtain ⟨_, _, hid⟩ := Option.bind_eq_some_iff.1 _hn
    exact Prod.Lex.left _ _ (fresh_lt hid _hw)
  · exact Prod.Lex.right _ (Prod.Lex.right _ (by decide))

/-- The shape of the value of a field; `direct` says whether it is a member of a record. -/
def planShape (pods : List String) (direct : Bool) (f : Field) : Except Obstacle Shape :=
  match _hk : f.kind with
  | .scalar s => .ok (.ofScalar f.typeName s)
  | .object => .ok .object
  | .pod =>
      match _hn : f.link.bind g.node? with
      | none => .error (.unresolvedPod top f.typeName)
      | some n =>
          if _hw : n.name ∈ pods then .error (.recursivePod n.name)
          else do return .record (← planMembers (n.name :: pods) [] "" (flatten g n))
  | .staticArray e => do return .staticArray (← planShape pods false e)
  | .dynamicArray e v =>
      if direct then do return .dynamicArray v (← planShape pods false e)
      else .error (.strayArray top)
  | .vector e => do return .vector (← planShape pods false e)
  | .set _ e => do return .set (← planShape pods false e)
  | .map _ k v =>
      match k.kind with
      | .scalar s => do return .map s (← planShape pods false v)
      | kind => .error (.unsupportedKey top kind.name)
termination_by ((fresh g pods).length, sizeOf f, 0)
decreasing_by
  all_goals first
    | (obtain ⟨_, _, hid⟩ := Option.bind_eq_some_iff.1 _hn
       exact Prod.Lex.left _ _ (fresh_lt hid _hw))
    | (apply Prod.Lex.right
       apply Prod.Lex.left
       refine Nat.lt_of_lt_of_le ?_ (Nat.le_of_lt (sizeOf_kind_lt f))
       rw [_hk]
       simp
       try omega)

end

end

/-- The plan of the fields of a type. -/
def plan (g : Graph) (fields : List Field) : Except Obstacle (List (Member Shape)) := do
  return (← fields.mapM fun f => planMember g f.serializedName [] [] "" f).flatten

end Emit
end Marshal
