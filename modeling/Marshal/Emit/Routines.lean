import Marshal.Emit.Code
import Marshal.Emit.Plan

/-!
# The routines of a type

Four routines are written for a type: two that write it to a JSON object and read it from one,
and two that do the same with a whole document on a stream.  All four follow one plan.

## Main definitions

* `writeMembers`, `readMembers` — the code for the members of an object.
* `routines` — the four routines.
* `generate` — their text, for a node of a graph.

## Main results

* `generate_eq_ok` — when there is code for a node.
-/

namespace Marshal
namespace Emit

open Schema

/-! ### Writing -/

mutual

/-- Write a value that is found at `access` to `sink`; `owner` is the record it is a member of. -/
def writeShape (owner access : Place) (sink : Sink) (depth : Nat) : Shape → List Code
  | .number _ => [.line (.store sink (.number access))]
  | .bool => [.line (.store sink (.bool access))]
  | .text => [.line (.store sink (.text access))]
  | .object =>
      let obj : Temp := ⟨.obj, depth⟩
      [.block [.line (.newObject obj), .line (.delegateWrite obj access),
        .line (.store sink (.whole obj))]]
  | .record members =>
      let obj : Temp := ⟨.obj, depth⟩
      [.block (.line (.newObject obj) :: writeMembers access (.temp obj) (depth + 1) members ++
        [.line (.store sink (.whole obj))])]
  | .staticArray e =>
      let arr : Temp := ⟨.arr, depth⟩
      let i : Temp := ⟨.i, depth⟩
      [.block [.line (.newArray arr),
        .loop (.count i (.size access))
          (writeShape owner (.index access i) (.item arr) (depth + 1) e),
        .line (.store sink (.whole arr))]]
  | .dynamicArray lengthVar e =>
      let arr : Temp := ⟨.arr, depth⟩
      let i : Temp := ⟨.i, depth⟩
      [.block [.line (.newArray arr),
        .loop (.count i (.length (.member owner lengthVar)))
          (writeShape owner (.index access i) (.item arr) (depth + 1) e),
        .line (.store sink (.whole arr))]]
  | .vector e | .set e =>
      let arr : Temp := ⟨.arr, depth⟩
      let item : Temp := ⟨.item, depth⟩
      [.block [.line (.newArray arr),
        .loop (.each item (.place access))
          (writeShape owner (.temp item) (.item arr) (depth + 1) e),
        .line (.store sink (.whole arr))]]
  | .map s v =>
      let map : Temp := ⟨.map, depth⟩
      let key : Temp := ⟨.key, depth⟩
      let value : Temp := ⟨.value, depth⟩
      [.block [.line (.newObject map),
        .loop (.pairs key value (.place access))
          (writeShape owner (.temp value) (.member (.temp map) (.ofTemp s key)) (depth + 1) v),
        .line (.store sink (.whole map))]]

/-- Write the members of `object` to the JSON object `receiver`. -/
def writeMembers (object receiver : Place) (depth : Nat) : List (Member Shape) → List Code
  | [] => []
  | ⟨owner, name, key, shape⟩ :: ms =>
      writeShape (object.follow owner) (.member (object.follow owner) name)
        (.member receiver (.literal key)) depth shape ++
      writeMembers object receiver depth ms

end

/-! ### Reading -/

mutual

/-- Read the JSON value found at `value` to `target`; `owner` is the record it is a member of. -/
def readShape (owner target value : Place) (depth : Nat) : Shape → List Code
  | .number typeName => [.line (.readNumber target typeName value)]
  | .bool => [.line (.readBool target value)]
  | .text => [.line (.readText target value)]
  | .object => [.line (.delegateRead target value)]
  | .record members =>
      let obj : Temp := ⟨.obj, depth⟩
      [.block (.line (.viewObject obj value) ::
        readMembers target (.temp obj) (depth + 1) members)]
  | .staticArray e =>
      let arr : Temp := ⟨.arr, depth⟩
      let i : Temp := ⟨.i, depth⟩
      [.block [.line (.viewArray arr value),
        .loop (.count i (.sizeAndItems target arr))
          (readShape owner (.index target i) (.item arr i) (depth + 1) e)]]
  | .dynamicArray lengthVar e =>
      let arr : Temp := ⟨.arr, depth⟩
      let i : Temp := ⟨.i, depth⟩
      [.block [.line (.viewArray arr value), .line (.release target),
        .line (.setLength (.member owner lengthVar) arr), .line (.allocate target arr),
        .loop (.count i (.items arr))
          (readShape owner (.index target i) (.item arr i) (depth + 1) e)]]
  | .vector e =>
      let arr : Temp := ⟨.arr, depth⟩
      let item : Temp := ⟨.item, depth⟩
      let elem : Temp := ⟨.elem, depth⟩
      [.block [.line (.viewArray arr value), .line (.clear target),
        .loop (.each item (.items arr))
          (.line (.appendElement elem target) ::
            readShape owner (.temp elem) (.temp item) (depth + 1) e)]]
  | .set e =>
      let arr : Temp := ⟨.arr, depth⟩
      let item : Temp := ⟨.item, depth⟩
      let elem : Temp := ⟨.elem, depth⟩
      [.block [.line (.viewArray arr value), .line (.clear target),
        .loop (.each item (.items arr))
          (.line (.newElement elem target) ::
            readShape owner (.temp elem) (.temp item) (depth + 1) e ++
            [.line (.insert target elem)])]]
  | .map s v =>
      let map : Temp := ⟨.map, depth⟩
      let key : Temp := ⟨.key, depth⟩
      let mapped : Temp := ⟨.value, depth⟩
      let elem : Temp := ⟨.elem, depth⟩
      [.block [.line (.viewObject map value), .line (.clear target),
        .loop (.pairs key mapped (.members map))
          (.line (.newMapped elem target) ::
            readShape owner (.temp elem) (.temp mapped) (depth + 1) v ++
            [.line (.emplace target s key elem)])]]

/-- Read the members of `object` from the JSON object `source`. -/
def readMembers (object source : Place) (depth : Nat) : List (Member Shape) → List Code
  | [] => []
  | ⟨owner, name, key, shape⟩ :: ms =>
      readShape (object.follow owner) (.member (object.follow owner) name) (.entry source key)
        depth shape ++
      readMembers object source depth ms

end

/-! ### Routines -/

/-- The routine that writes a type to a JSON object. -/
def objectWriter (type : String) (members : List (Member Shape)) : Routine :=
  ⟨"static void JSONSerialize(JSONObject& jsonReceiver, const " ++ type ++ "& objSource)",
    writeMembers (.root "objSource") (.root "jsonReceiver") 0 members⟩

/-- The routine that reads a type from a JSON object. -/
def objectReader (type : String) (members : List (Member Shape)) : Routine :=
  ⟨"static void JSONDeserialize(" ++ type ++ "& objReceiver, const JSONObject& jsonSource)",
    readMembers (.root "objReceiver") (.root "jsonSource") 0 members⟩

/-- The routine that writes a type to a stream. -/
def streamWriter (type : String) (members : List (Member Shape)) : Routine :=
  ⟨"static void JSONSerialize(std::ostream& osReceiver, const " ++ type ++ "& objSource)",
    .line (.newDocument "jsonRep") ::
      writeMembers (.root "objSource") (.root "jsonRep") 0 members ++
      [.line (.printDocument "jsonRep" "osReceiver")]⟩

/-- The routine that reads a type from a stream. -/
def streamReader (type : String) (members : List (Member Shape)) : Routine :=
  ⟨"static void JSONDeserialize(" ++ type ++ "& objReceiver, std::istream& isSource)",
    .line (.parseDocument "jsonRep" "isSource") ::
      readMembers (.root "objReceiver") (.root "jsonRep") 0 members⟩

/-- The four routines of a type. -/
def routines (type : String) (members : List (Member Shape)) : List Routine :=
  [objectWriter type members, objectReader type members, streamWriter type members,
    streamReader type members]

/-- The body of a routine writes or reads the members, and does nothing else but to declare and to
print a document. -/
theorem body_of_mem_routines {type : String} {ms : List (Member Shape)} {r : Routine}
    (hr : r ∈ routines type ms) :
    r.body = writeMembers (.root "objSource") (.root "jsonReceiver") 0 ms ∨
    r.body = readMembers (.root "objReceiver") (.root "jsonSource") 0 ms ∨
    r.body = .line (.newDocument "jsonRep") ::
      writeMembers (.root "objSource") (.root "jsonRep") 0 ms ++
      [.line (.printDocument "jsonRep" "osReceiver")] ∨
    r.body = .line (.parseDocument "jsonRep" "isSource") ::
      readMembers (.root "objReceiver") (.root "jsonRep") 0 ms := by
  rw [routines] at hr
  rcases List.mem_cons.1 hr with rfl | hr
  · exact .inl rfl
  rcases List.mem_cons.1 hr with rfl | hr
  · exact .inr (.inl rfl)
  rcases List.mem_cons.1 hr with rfl | hr
  · exact .inr (.inr (.inl rfl))
  obtain rfl := List.mem_singleton.1 hr
  exact .inr (.inr (.inr rfl))

/-- How routines are written, with blank lines between them. -/
def routineSteps (rs : List Routine) : List Step :=
  ((rs.map Routine.steps).intersperse [.blank]).flatten

/-- The text of the routines of a type with the given plan. -/
def routinesText (type : String) (members : List (Member Shape)) : String :=
  Writer.text (routineSteps (routines type members))

/-- Why there is no code for a node. -/
inductive NoCode where
  /-- The type is only written as part of others. -/
  | podNode (name : String)
  /-- Its fields cannot be laid out. -/
  | obstacle (cause : Obstacle)
  deriving DecidableEq, Repr, Inhabited

/-- The wording of why there is no code. -/
def NoCode.message : NoCode → String
  | .podNode name => s!"type `{name}` uses the POD policy and is only emitted inline"
  | .obstacle cause => cause.message

/-- The text of the routines of a node. -/
def generate (g : Graph) (n : Node) : Except NoCode String :=
  if n.isPod then .error (.podNode n.name)
  else
    match plan g (flatten g n) with
    | .error cause => .error (.obstacle cause)
    | .ok members => .ok (routinesText n.name members)

/-- There is code for a node if it is not only written as part of others and its fields can be laid
out. -/
theorem generate_eq_ok {g : Graph} {n : Node} {text : String} :
    generate g n = .ok text ↔
      n.isPod = false ∧ ∃ ms, plan g (flatten g n) = .ok ms ∧ text = routinesText n.name ms := by
  rw [generate]
  constructor
  · intro h
    split at h
    · cases h
    · next hpod =>
      split at h
      · cases h
      · next ms hms =>
        cases h
        exact ⟨Bool.eq_false_iff.2 hpod, ms, hms, rfl⟩
  · rintro ⟨hpod, ms, hms, rfl⟩
    rw [hpod, hms]
    rfl

end Emit
end Marshal
