import Marshal.Emit.Literal
import Marshal.Emit.Writer
import Marshal.Schema.Node

/-!
# Statements of the generated code

The code of a routine is a tree of statements, blocks and loops.  It says which places it reads
and writes, and which temporaries it declares, before it is spelled.  A temporary is named for
its role and for how deep it is nested, so that those of an inner loop never hide those of an
outer one.

## Main definitions

* `Temp`, `Place` — what statements speak about.
* `Statement`, `LoopHead`, `Code` — the trees.
* `Statement.spell`, `LoopHead.spell`, `Code.steps` — their spelling.
-/

namespace Marshal
namespace Emit

open Schema

/-! ### Temporaries and places -/

/-- The name of a temporary. -/
def tempName (role : String) (depth : Nat) : String := role ++ "_" ++ toString depth

/-- What a temporary is for. -/
inductive Role where
  /-- An object that is written or read. -/
  | obj
  /-- A list that is written or read. -/
  | arr
  /-- The position in a list. -/
  | i
  /-- What is at a position of a list. -/
  | item
  /-- A new element of a container. -/
  | elem
  /-- An object whose members are the entries of a map. -/
  | map
  /-- The key of an entry. -/
  | key
  /-- The value of an entry. -/
  | value
  deriving DecidableEq, Repr, Inhabited

/-- How a role is spelled. -/
def Role.spell : Role → String
  | .obj => "obj"
  | .arr => "arr"
  | .i => "i"
  | .item => "item"
  | .elem => "elem"
  | .map => "map"
  | .key => "key"
  | .value => "value"

/-- A temporary. -/
structure Temp where
  /-- What it is for. -/
  role : Role
  /-- How deep it is nested. -/
  depth : Nat
  deriving DecidableEq, Repr, Inhabited

/-- The name of a temporary. -/
def Temp.spell (t : Temp) : String := tempName t.role.spell t.depth

/-- A place in the generated code that is read or written. -/
inductive Place where
  /-- A parameter or variable of the routine. -/
  | root (name : String)
  /-- A temporary. -/
  | temp (t : Temp)
  /-- A member of a record. -/
  | member (p : Place) (name : String)
  /-- An element of an array. -/
  | index (p : Place) (i : Temp)
  /-- The member of a JSON object with a key. -/
  | entry (p : Place) (key : String)
  /-- The item of a JSON list at a position. -/
  | item (arr i : Temp)
  deriving DecidableEq, Repr, Inhabited

/-- How a place is spelled. -/
def Place.spell : Place → String
  | .root name => name
  | .temp t => t.spell
  | .member p name => p.spell ++ "." ++ name
  | .index p i => p.spell ++ "[" ++ i.spell ++ "]"
  | .entry p key => p.spell ++ ".GetMember(" ++ literal key ++ ")"
  | .item arr i => arr.spell ++ ".GetItems()[" ++ i.spell ++ "]"

/-- The record that names lead to. -/
def Place.follow (p : Place) (names : List String) : Place := names.foldl .member p

/-! ### Statements -/

/-- The text of a key. -/
inductive KeyText where
  /-- A key that is known. -/
  | literal (key : String)
  /-- The text of a key without parts. -/
  | ofTemp (s : Scalar) (t : Temp)
  deriving DecidableEq, Repr, Inhabited

/-- How the text of a key is spelled. -/
def KeyText.spell : KeyText → String
  | .literal key => Emit.literal key
  | .ofTemp .int t => "std::to_string(" ++ t.spell ++ ")"
  | .ofTemp .float t | .ofTemp .double t => "std::format(\"\x7b\x7d\", " ++ t.spell ++ ")"
  | .ofTemp .bool t => "std::string(" ++ t.spell ++ " ? \"true\" : \"false\")"
  | .ofTemp .string t => t.spell

/-- Where a value is written to. -/
inductive Sink where
  /-- A member of a JSON object. -/
  | member (object : Place) (key : KeyText)
  /-- The end of a JSON list. -/
  | item (arr : Temp)
  deriving DecidableEq, Repr, Inhabited

/-- A JSON value made from a place. -/
inductive Made where
  /-- A number. -/
  | number (p : Place)
  /-- A truth value. -/
  | bool (p : Place)
  /-- A text. -/
  | text (p : Place)
  /-- A value that has been put together before. -/
  | whole (t : Temp)
  deriving DecidableEq, Repr, Inhabited

/-- How a JSON value is spelled. -/
def Made.spell : Made → String
  | .number p => "JSONNumber(static_cast<double>(" ++ p.spell ++ "))"
  | .bool p => "JSONBool(" ++ p.spell ++ ")"
  | .text p => "JSONString(" ++ p.spell ++ ")"
  | .whole t => t.spell

/-- A statement. -/
inductive Statement where
  /-- Write a value. -/
  | store (sink : Sink) (value : Made)
  /-- Declare a JSON object. -/
  | newObject (t : Temp)
  /-- Declare a JSON list. -/
  | newArray (t : Temp)
  /-- Leave an object to the routine that writes its type. -/
  | delegateWrite (t : Temp) (p : Place)
  /-- Read a number. -/
  | readNumber (target : Place) (typeName : String) (value : Place)
  /-- Read a truth value. -/
  | readBool (target value : Place)
  /-- Read a text. -/
  | readText (target value : Place)
  /-- Leave an object to the routine that reads its type. -/
  | delegateRead (target value : Place)
  /-- Declare a name for a JSON object. -/
  | viewObject (t : Temp) (value : Place)
  /-- Declare a name for a JSON list. -/
  | viewArray (t : Temp) (value : Place)
  /-- Empty a container. -/
  | clear (target : Place)
  /-- Give up an array on the heap. -/
  | release (target : Place)
  /-- Set a length to that of a JSON list. -/
  | setLength (length : Place) (arr : Temp)
  /-- Make an array on the heap as long as a JSON list. -/
  | allocate (target : Place) (arr : Temp)
  /-- Declare a name for a new last element. -/
  | appendElement (elem : Temp) (target : Place)
  /-- Declare an element of a set. -/
  | newElement (elem : Temp) (target : Place)
  /-- Declare a value of a map. -/
  | newMapped (elem : Temp) (target : Place)
  /-- Put an element into a set. -/
  | insert (target : Place) (elem : Temp)
  /-- Put an entry into a map. -/
  | emplace (target : Place) (s : Scalar) (key elem : Temp)
  /-- Declare an empty document. -/
  | newDocument (name : String)
  /-- Declare a document and read it from a stream. -/
  | parseDocument (name stream : String)
  /-- Write a document to a stream. -/
  | printDocument (name stream : String)
  deriving DecidableEq, Repr, Inhabited

/-- The type of a place. -/
def typeOf (p : Place) : String := "std::decay_t<decltype(" ++ p.spell ++ ")>"

/-- The number of items of a JSON list. -/
def itemCount (arr : Temp) : String := arr.spell ++ ".GetItems().size()"

/-- The key of a map, made from the text of a key. -/
def keyOfText (target : Place) (s : Scalar) (key : Temp) : String :=
  match s with
  | .int => "static_cast<" ++ typeOf target ++ "::key_type>(std::stoll(" ++ key.spell ++ "))"
  | .float => "std::stof(" ++ key.spell ++ ")"
  | .double => "std::stod(" ++ key.spell ++ ")"
  | .bool => key.spell ++ " == \"true\""
  | .string => key.spell

/-- How a statement is spelled. -/
def Statement.spell : Statement → String
  | .store (.member object key) value =>
      object.spell ++ ".AddMember(" ++ key.spell ++ ", " ++ value.spell ++ ");"
  | .store (.item arr) value => arr.spell ++ ".AddItem(" ++ value.spell ++ ");"
  | .newObject t => "JSONObject " ++ t.spell ++ ";"
  | .newArray t => "JSONArray " ++ t.spell ++ ";"
  | .delegateWrite t p => "JSONSerialize(" ++ t.spell ++ ", " ++ p.spell ++ ");"
  | .readNumber target typeName value =>
      target.spell ++ " = static_cast<" ++ (if typeName = "" then typeOf target else typeName) ++
        ">(" ++ value.spell ++ ".as<JSONNumber>().value);"
  | .readBool target value => target.spell ++ " = " ++ value.spell ++ ".as<JSONBool>().value;"
  | .readText target value => target.spell ++ " = " ++ value.spell ++ ".as<JSONString>().value;"
  | .delegateRead target value =>
      "JSONDeserialize(" ++ target.spell ++ ", " ++ value.spell ++ ".as<JSONObject>());"
  | .viewObject t value =>
      "const JSONObject& " ++ t.spell ++ " = " ++ value.spell ++ ".as<JSONObject>();"
  | .viewArray t value =>
      "const JSONArray& " ++ t.spell ++ " = " ++ value.spell ++ ".as<JSONArray>();"
  | .clear target => target.spell ++ ".clear();"
  | .release target => "delete[] " ++ target.spell ++ ";"
  | .setLength length arr =>
      length.spell ++ " = static_cast<" ++ typeOf length ++ ">(" ++ itemCount arr ++ ");"
  | .allocate target arr =>
      target.spell ++ " = new std::remove_pointer_t<" ++ typeOf target ++ ">[" ++ itemCount arr ++
        "];"
  | .appendElement elem target =>
      "auto&& " ++ elem.spell ++ " = " ++ target.spell ++ ".emplace_back();"
  | .newElement elem target => typeOf target ++ "::value_type " ++ elem.spell ++ "\x7b\x7d;"
  | .newMapped elem target => typeOf target ++ "::mapped_type " ++ elem.spell ++ "\x7b\x7d;"
  | .insert target elem => target.spell ++ ".insert(std::move(" ++ elem.spell ++ "));"
  | .emplace target s key elem =>
      target.spell ++ ".emplace(" ++ keyOfText target s key ++ ", std::move(" ++ elem.spell ++ "));"
  | .newDocument name => "JSONStructure " ++ name ++ ";"
  | .parseDocument name stream =>
      "JSONStructure " ++ name ++ " = JSONStructure::Parse(" ++ stream ++ ");"
  | .printDocument name stream => stream ++ " << " ++ name ++ ".Stringify();"

/-! ### Loops -/

/-- How far a position goes. -/
inductive Bound where
  /-- To the size of an array. -/
  | size (p : Place)
  /-- To a length that is kept somewhere. -/
  | length (p : Place)
  /-- To the number of items of a list. -/
  | items (arr : Temp)
  /-- To the size of an array, and no further than a list has items. -/
  | sizeAndItems (p : Place) (arr : Temp)
  deriving DecidableEq, Repr, Inhabited

/-- How the condition on a position is spelled. -/
def Bound.spell (i : Temp) : Bound → String
  | .size p => i.spell ++ " < sizeof(" ++ p.spell ++ ") / sizeof(" ++ p.spell ++ "[0])"
  | .length p => i.spell ++ " < static_cast<std::size_t>(" ++ p.spell ++ ")"
  | .items arr => i.spell ++ " < " ++ itemCount arr
  | .sizeAndItems p arr =>
      i.spell ++ " < sizeof(" ++ p.spell ++ ") / sizeof(" ++ p.spell ++ "[0]) && " ++ i.spell ++
        " < " ++ itemCount arr

/-- What a loop goes through. -/
inductive Range where
  /-- A container. -/
  | place (p : Place)
  /-- The items of a list. -/
  | items (arr : Temp)
  /-- The members of an object. -/
  | members (map : Temp)
  deriving DecidableEq, Repr, Inhabited

/-- How a range is spelled. -/
def Range.spell : Range → String
  | .place p => p.spell
  | .items arr => arr.spell ++ ".GetItems()"
  | .members map => map.spell ++ ".GetMembers()"

/-- The start of a loop, which declares temporaries. -/
inductive LoopHead where
  /-- Count positions. -/
  | count (i : Temp) (bound : Bound)
  /-- Go through items. -/
  | each (item : Temp) (range : Range)
  /-- Go through entries. -/
  | pairs (key value : Temp) (range : Range)
  deriving DecidableEq, Repr, Inhabited

/-- How the start of a loop is spelled. -/
def LoopHead.spell : LoopHead → String
  | .count i bound =>
      "for (std::size_t " ++ i.spell ++ " = 0; " ++ bound.spell i ++ "; ++" ++ i.spell ++ ")"
  | .each item range => "for (const auto& " ++ item.spell ++ " : " ++ range.spell ++ ")"
  | .pairs key value range =>
      "for (const auto& [" ++ key.spell ++ ", " ++ value.spell ++ "] : " ++ range.spell ++ ")"

/-! ### Trees -/

/-- A piece of code. -/
inductive Code where
  /-- A statement. -/
  | line (s : Statement)
  /-- A block. -/
  | block (body : List Code)
  /-- A loop. -/
  | loop (head : LoopHead) (body : List Code)
  deriving Repr, Inhabited

namespace Code

mutual

/-- How a piece of code is written. -/
def steps : Code → List Step
  | .line s => [.line s.spell]
  | .block body => .enter :: stepsAll body ++ [.leave]
  | .loop head body => .line head.spell :: .enter :: stepsAll body ++ [.leave]

/-- How pieces of code are written one after the other. -/
def stepsAll : List Code → List Step
  | [] => []
  | c :: cs => steps c ++ stepsAll cs

end

end Code

/-- A routine. -/
structure Routine where
  /-- Its signature. -/
  signature : String
  /-- Its body. -/
  body : List Code
  deriving Repr, Inhabited

/-- How a routine is written. -/
def Routine.steps (r : Routine) : List Step :=
  .line r.signature :: .enter :: Code.stepsAll r.body ++ [.leave]

end Emit
end Marshal
