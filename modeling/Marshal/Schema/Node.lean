/-!
# Types marked for serialization

A **node** describes one type: which formats are asked for, which fields take part, and which
other types it inherits from.  The kind of a field tells how it is written; the kind of a
container holds the descriptions of what is in it, which are fields again.

A base and a field may refer to another node.  Such a reference is spelled as a name, and may be
**linked**: then it holds the number of the node it refers to.

## Main definitions

* `Access`, `Policy`, `Scalar`, `Kind` — the words of a description.
* `Field`, `Base`, `Node` — descriptions of types.
* `Field.descendants` — a field and all that is inside it.
* `Node.normalize` — fill in the serialized names.
-/

namespace Marshal
namespace Schema

/-- The number of a node in a graph. -/
abbrev NodeId := Nat

/-! ### Words of a description -/

/-- Who may name a field. -/
inductive Access where
  /-- Anyone. -/
  | anyone
  /-- The type and those that inherit from it. -/
  | heirs
  /-- Only the type itself. -/
  | owner
  deriving DecidableEq, Repr, Inhabited

/-- All kinds of access, in order. -/
def Access.all : List Access := [.anyone, .heirs, .owner]

/-- The name of a kind of access. -/
def Access.name : Access → String
  | .anyone => "public"
  | .heirs => "protected"
  | .owner => "private"

/-- Which fields of a type take part if they are not marked. -/
inductive Policy where
  /-- All of them, and the type is written as part of those that refer to it. -/
  | pod
  /-- All of them. -/
  | all
  /-- Those with one kind of access. -/
  | only (access : Access)
  /-- None. -/
  | custom
  deriving DecidableEq, Repr, Inhabited

/-- All policies, in order. -/
def Policy.every : List Policy :=
  [.pod, .all, .only .anyone, .only .heirs, .only .owner, .custom]

/-- The name of a policy. -/
def Policy.name : Policy → String
  | .pod => "pod"
  | .all => "all"
  | .only access => access.name
  | .custom => "custom"

/-- Whether a policy takes a field that is not marked. -/
def Policy.takes : Policy → Access → Bool
  | .pod, _ | .all, _ => true
  | .only access, a => a = access
  | .custom, _ => false

/-- A field that is not marked takes part if the policy is for all fields, or for those with its
access. -/
theorem Policy.takes_iff {p : Policy} {a : Access} :
    p.takes a = true ↔ p = .pod ∨ p = .all ∨ p = .only a := by
  cases p with
  | pod => simp [takes]
  | all => simp [takes]
  | only access => simp [takes, eq_comm]
  | custom => simp [takes]

/-- A value without parts. -/
inductive Scalar where
  /-- A whole number. -/
  | int
  /-- A number of single precision. -/
  | float
  /-- A number of double precision. -/
  | double
  /-- A truth value. -/
  | bool
  /-- A text. -/
  | string
  deriving DecidableEq, Repr, Inhabited

/-- All scalars, in order. -/
def Scalar.all : List Scalar := [.int, .float, .double, .bool, .string]

/-- The name of a scalar. -/
def Scalar.name : Scalar → String
  | .int => "int"
  | .float => "float"
  | .double => "double"
  | .bool => "bool"
  | .string => "string"

/-- How a field is written; `α` describes what is in a container. -/
inductive Kind (α : Type) where
  /-- A value without parts. -/
  | scalar (s : Scalar)
  /-- A record that is left to its own routines. -/
  | object
  /-- A record whose fields become part of the holder. -/
  | pod
  /-- An array of fixed size. -/
  | staticArray (element : α)
  /-- An array on the heap, whose length is in another field of the same record. -/
  | dynamicArray (element : α) (lengthVar : String)
  /-- A list that can grow. -/
  | vector (element : α)
  /-- A set, sorted or hashed. -/
  | set (sorted : Bool) (element : α)
  /-- A map, sorted or hashed. -/
  | map (sorted : Bool) (key value : α)
  deriving Repr, Inhabited

namespace Kind

variable {α : Type}

/-- The name of a kind. -/
def name : Kind α → String
  | .scalar s => s.name
  | .object => "object"
  | .pod => "pod"
  | .staticArray _ => "static_array"
  | .dynamicArray _ _ => "dynamic_array"
  | .vector _ => "vector"
  | .set true _ => "set"
  | .set false _ => "unordered_set"
  | .map true _ _ => "map"
  | .map false _ _ => "unordered_map"

/-- Whether a kind has no parts. -/
def isScalar : Kind α → Bool
  | .scalar _ => true
  | _ => false

/-- Whether a kind refers to another node. -/
def isRecord : Kind α → Bool
  | .object | .pod => true
  | _ => false

/-- What is in a container; the key of a map comes before its value. -/
def children : Kind α → List α
  | .staticArray e | .dynamicArray e _ | .vector e | .set _ e => [e]
  | .map _ k v => [k, v]
  | _ => []

end Kind

/-! ### Fields, bases and nodes -/

/-- A field of a type, or the description of what is in a container. -/
structure Field where
  /-- The name of the member; empty inside a container. -/
  name : String
  /-- The name it is written under; if empty, the name of the member. -/
  formattedName : String
  /-- How it is written. -/
  kind : Kind Field
  /-- Its type as it is spelled, which names the node a record refers to. -/
  typeName : String
  /-- Who may name it. -/
  access : Access
  /-- The node it refers to. -/
  link : Option NodeId
  deriving Repr, Inhabited

/-- A type another one inherits from. -/
structure Base where
  /-- Its name as it is spelled. -/
  name : String
  /-- The node it refers to. -/
  link : Option NodeId
  deriving DecidableEq, Repr, Inhabited

/-- A type marked for serialization. -/
structure Node where
  /-- The qualified name of the type. -/
  name : String
  /-- Which unmarked fields take part. -/
  policy : Policy
  /-- The formats asked for, in this order. -/
  formats : List String
  /-- The fields that take part, in this order. -/
  fields : List Field
  /-- The types it inherits from, in this order. -/
  bases : List Base
  deriving Repr, Inhabited

/-- Point a link at a node; a link that is set stays as it is. -/
def linkTo (link : Option NodeId) (target : NodeId) : Option NodeId := link <|> some target

namespace Field

/-- A field with a name of its own. -/
def named (name : String) (kind : Kind Field) : Field := ⟨name, name, kind, "", .anyone, none⟩

/-- The description of what is in a container. -/
def element (kind : Kind Field) (typeName : String) : Field :=
  { named "" kind with typeName := typeName }

/-- The name a field is written under. -/
def serializedName (f : Field) : String := if f.formattedName = "" then f.name else f.formattedName

mutual

/-- A field and all that is inside it, outermost first. -/
def descendants : Field → List Field
  | ⟨n, m, k, t, a, l⟩ => ⟨n, m, k, t, a, l⟩ :: inside k

/-- All that is inside a kind. -/
def inside : Kind Field → List Field
  | .scalar _ | .object | .pod => []
  | .staticArray e | .dynamicArray e _ | .vector e | .set _ e => descendants e
  | .map _ k v => descendants k ++ descendants v

end

mutual

/-- Change a field and all that is inside it. -/
def mapAll (change : Field → Field) : Field → Field
  | ⟨n, m, k, t, a, l⟩ => { change ⟨n, m, k, t, a, l⟩ with kind := mapInside change k }

/-- Change all that is inside a kind. -/
def mapInside (change : Field → Field) : Kind Field → Kind Field
  | .scalar s => .scalar s
  | .object => .object
  | .pod => .pod
  | .staticArray e => .staticArray (mapAll change e)
  | .dynamicArray e v => .dynamicArray (mapAll change e) v
  | .vector e => .vector (mapAll change e)
  | .set s e => .set s (mapAll change e)
  | .map s k v => .map s (mapAll change k) (mapAll change v)

end

/-- Write out the serialized name of a field and of all that is inside it. -/
def normalize (f : Field) : Field :=
  f.mapAll fun g => { g with formattedName := g.serializedName }

end Field

namespace Node

/-- A type of which nothing but the name is known. -/
def bare (name : String) : Node := ⟨name, .custom, [], [], []⟩

/-- Whether a type is only written as part of others. -/
def isPod (n : Node) : Bool := n.policy = .pod

/-- All field descriptions of a type, outermost first. -/
def descendants (n : Node) : List Field := n.fields.flatMap Field.descendants

/-- Write out the serialized names of all fields. -/
def normalize (n : Node) : Node := { n with fields := n.fields.map Field.normalize }

end Node

end Schema
end Marshal
