import Marshal.Emit.Routines

/-!
# Another receiver

Code speaks of places, and each place starts at a temporary or at a parameter or variable of the
routine.  Where one of these is given another name, only the places that start at it are spelled
differently.  Code for members depends in no other way on what they are written to or read from, so
that code for one receiver is that for another, with the places redirected.

## Main definitions

* `Place.redirect` — a place that starts at another parameter or variable.
* `Code.redirect`, `Code.redirectAll` — code with all its places redirected.

## Main results

* `redirectAll_writeMembers`, `redirectAll_readMembers` — code for members, with another receiver.
-/

namespace Marshal
namespace Emit

open Schema

/-! ### Places -/

/-- The place with another parameter or variable, if it starts at one that is named `old`. -/
def Place.redirect (old new : String) : Place → Place
  | .root name => .root (if name = old then new else name)
  | .temp t => .temp t
  | .member p name => .member (p.redirect old new) name
  | .index p i => .index (p.redirect old new) i
  | .entry p key => .entry (p.redirect old new) key
  | .item arr i => .item arr i

theorem Place.redirect_root (old new : String) :
    (Place.root old).redirect old new = .root new := by
  rw [redirect, if_pos rfl]

theorem Place.redirect_root_of_ne {old name : String} (h : name ≠ old) (new : String) :
    (Place.root name).redirect old new = .root name := by
  rw [redirect, if_neg h]

theorem Place.redirect_follow (p : Place) (old new : String) (names : List String) :
    (p.follow names).redirect old new = (p.redirect old new).follow names := by
  induction names generalizing p with
  | nil => rfl
  | cons name names ih => exact ih (.member p name)

/-! ### Statements and loops -/

section

variable (f : Place → Place)

/-- Where a value is written to, with another place. -/
def Sink.mapPlace : Sink → Sink
  | .member object key => .member (f object) key
  | .item arr => .item arr

/-- A JSON value made from another place. -/
def Made.mapPlace : Made → Made
  | .number p => .number (f p)
  | .bool p => .bool (f p)
  | .text p => .text (f p)
  | .whole t => .whole t

/-- A statement about other places. -/
def Statement.mapPlaces : Statement → Statement
  | .store sink value => .store (sink.mapPlace f) (value.mapPlace f)
  | .newObject t => .newObject t
  | .newArray t => .newArray t
  | .delegateWrite t p => .delegateWrite t (f p)
  | .readNumber target typeName value => .readNumber (f target) typeName (f value)
  | .readBool target value => .readBool (f target) (f value)
  | .readText target value => .readText (f target) (f value)
  | .delegateRead target value => .delegateRead (f target) (f value)
  | .viewObject t value => .viewObject t (f value)
  | .viewArray t value => .viewArray t (f value)
  | .clear target => .clear (f target)
  | .release target => .release (f target)
  | .setLength length arr => .setLength (f length) arr
  | .allocate target arr => .allocate (f target) arr
  | .appendElement elem target => .appendElement elem (f target)
  | .newElement elem target => .newElement elem (f target)
  | .newMapped elem target => .newMapped elem (f target)
  | .insert target elem => .insert (f target) elem
  | .emplace target s key elem => .emplace (f target) s key elem
  | .newDocument name => .newDocument name
  | .parseDocument name stream => .parseDocument name stream
  | .printDocument name stream => .printDocument name stream

/-- A bound at other places. -/
def Bound.mapPlace : Bound → Bound
  | .size p => .size (f p)
  | .length p => .length (f p)
  | .items arr => .items arr
  | .sizeAndItems p arr => .sizeAndItems (f p) arr

/-- A range at another place. -/
def Range.mapPlace : Range → Range
  | .place p => .place (f p)
  | .items arr => .items arr
  | .members map => .members map

/-- The start of a loop over other places. -/
def LoopHead.mapPlace : LoopHead → LoopHead
  | .count i bound => .count i (bound.mapPlace f)
  | .each item range => .each item (range.mapPlace f)
  | .pairs key value range => .pairs key value (range.mapPlace f)

end

/-! ### Trees -/

namespace Code

variable (old new : String)

mutual

/-- A piece of code where what starts at `old` starts at `new`. -/
def redirect : Code → Code
  | .line s => .line (s.mapPlaces (Place.redirect old new))
  | .block body => .block (redirectAll body)
  | .loop head body => .loop (head.mapPlace (Place.redirect old new)) (redirectAll body)

/-- Pieces of code where what starts at `old` starts at `new`. -/
def redirectAll : List Code → List Code
  | [] => []
  | c :: cs => redirect c :: redirectAll cs

end

@[simp] theorem redirectAll_append (cs cs' : List Code) :
    redirectAll old new (cs ++ cs') = redirectAll old new cs ++ redirectAll old new cs' := by
  induction cs with
  | nil => rfl
  | cons c cs ih => rw [List.cons_append, redirectAll, redirectAll, ih, List.cons_append]

end Code

/-! ### Code for shapes -/

section

variable (old new : String)

mutual

/-- **Code that writes a value, redirected**, is that for the redirected places. -/
theorem redirectAll_writeShape (owner access : Place) (sink : Sink) (d : Nat) (shape : Shape) :
    Code.redirectAll old new (writeShape owner access sink d shape) =
      writeShape (owner.redirect old new) (access.redirect old new)
        (sink.mapPlace (Place.redirect old new)) d shape := by
  match shape with
  | .number _ | .bool | .text | .object =>
    simp [writeShape, Code.redirectAll, Code.redirect, Statement.mapPlaces, Made.mapPlace]
  | .record members =>
    simp [writeShape, Code.redirectAll, Code.redirect, Statement.mapPlaces, Made.mapPlace,
      Place.redirect, redirectAll_writeMembers access _ (d + 1) members]
  | .staticArray e | .dynamicArray lengthVar e | .vector e | .set e | .map s e =>
    simp [writeShape, Code.redirectAll, Code.redirect, Statement.mapPlaces, LoopHead.mapPlace,
      Bound.mapPlace, Range.mapPlace, Made.mapPlace, Sink.mapPlace, Place.redirect,
      redirectAll_writeShape _ _ _ (d + 1) e]

/-- **Code that writes members, redirected.** -/
theorem redirectAll_writeMembers (object receiver : Place) (d : Nat) (ms : List (Member Shape)) :
    Code.redirectAll old new (writeMembers object receiver d ms) =
      writeMembers (object.redirect old new) (receiver.redirect old new) d ms := by
  match ms with
  | [] => rfl
  | ⟨owner, name, key, shape⟩ :: ms =>
    rw [writeMembers, writeMembers, Code.redirectAll_append,
      redirectAll_writeShape _ _ _ d shape, redirectAll_writeMembers object receiver d ms,
      Place.redirect, Place.redirect_follow, Sink.mapPlace]

end

mutual

/-- **Code that reads a value, redirected**, is that for the redirected places. -/
theorem redirectAll_readShape (owner target value : Place) (d : Nat) (shape : Shape) :
    Code.redirectAll old new (readShape owner target value d shape) =
      readShape (owner.redirect old new) (target.redirect old new) (value.redirect old new) d
        shape := by
  match shape with
  | .number _ | .bool | .text | .object =>
    simp [readShape, Code.redirectAll, Code.redirect, Statement.mapPlaces]
  | .record members =>
    simp [readShape, Code.redirectAll, Code.redirect, Statement.mapPlaces, Place.redirect,
      redirectAll_readMembers target _ (d + 1) members]
  | .staticArray e | .dynamicArray lengthVar e | .vector e | .set e | .map s e =>
    simp [readShape, Code.redirectAll, Code.redirect, Statement.mapPlaces, LoopHead.mapPlace,
      Bound.mapPlace, Range.mapPlace, Place.redirect, redirectAll_readShape _ _ _ (d + 1) e]

/-- **Code that reads members, redirected.** -/
theorem redirectAll_readMembers (object source : Place) (d : Nat) (ms : List (Member Shape)) :
    Code.redirectAll old new (readMembers object source d ms) =
      readMembers (object.redirect old new) (source.redirect old new) d ms := by
  match ms with
  | [] => rfl
  | ⟨owner, name, key, shape⟩ :: ms =>
    rw [readMembers, readMembers, Code.redirectAll_append,
      redirectAll_readShape _ _ _ d shape, redirectAll_readMembers object source d ms,
      Place.redirect, Place.redirect, Place.redirect_follow]

end

end

end Emit
end Marshal
