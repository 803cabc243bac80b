import Marshal.Data.Source
import Marshal.Json.Draft

/-!
# JSON text as a source

A record is read from the draft of its text.  Reading goes down at most `deepest` lists and
tables; passing over a value has no such limit, and does not mind numbers and texts that could
not be read.

## Main definitions

* `At` — a draft, and how many more levels may be entered.
* `Source At` — the instance.
* `read` — read a whole text: one value, and nothing after it.
-/

namespace Marshal
namespace Json

open Data

/-- How many lists and tables may be nested in what is read. -/
def deepest : Nat := 127

/-- The fault of a cut. -/
def Cut.fault : Cut → Fault
  | .malformed => .malformed
  | .ended => .ended

/-- The fault a container that is not closed ends in. -/
def stopFault (stop : Option Cut) : Option Fault := stop.map Cut.fault

/-- A key that is read has to be a text. -/
def Key.read : Key → Except Fault String
  | .text s => .ok s
  | .unreadable => .error .malformed
  | .cut read _ => .error read.fault

/-- A key that is passed over has to be spelled like a text. -/
def Key.skip : Key → Except Fault Unit
  | .text _ | .unreadable => .ok ()
  | .cut _ skip => .error skip.fault

namespace Draft

mutual

/-- Pass over a draft. -/
def skip : Draft → Except Fault Unit
  | .absent => .error .ended
  | .cut _ _ cause => .error cause.fault
  | .seq items stop => do
      skipItems items
      (stopFault stop).elim (.ok ()) .error
  | .map entries stop => do
      skipEntries entries
      (stopFault stop).elim (.ok ()) .error
  | _ => .ok ()

/-- Pass over the items of a list. -/
def skipItems : List Draft → Except Fault Unit
  | [] => .ok ()
  | d :: ds => do d.skip; skipItems ds

/-- Pass over the entries of a table. -/
def skipEntries : List (Key × Draft) → Except Fault Unit
  | [] => .ok ()
  | (k, d) :: es => do k.skip; d.skip; skipEntries es

end

mutual

/-- Put a draft aside, entering at most `room` levels. -/
def keep (room : Nat) : Draft → Except Fault Value
  | .null => .ok .null
  | .bool b => .ok (.bool b)
  | .natural n => .ok (.natural n)
  | .signed i => .ok (.signed i)
  | .float spelling => .ok (.float spelling)
  | .text s => .ok (.text s)
  | .unreadable => .error .malformed
  | .absent => .error .ended
  | .cut _ cause _ => .error cause.fault
  | .seq items stop =>
      if room = 0 then .error .malformed
      else do
        let vs ← keepItems (room - 1) items
        (stopFault stop).elim (.ok (.seq vs)) .error
  | .map entries stop =>
      if room = 0 then .error .malformed
      else do
        let es ← keepEntries (room - 1) entries
        (stopFault stop).elim (.ok (.map es)) .error

/-- Put the items of a list aside. -/
def keepItems (room : Nat) : List Draft → Except Fault (List Value)
  | [] => .ok []
  | d :: ds => do return (← d.keep room) :: (← keepItems room ds)

/-- Put the entries of a table aside. -/
def keepEntries (room : Nat) : List (Key × Draft) → Except Fault (List (String × Value))
  | [] => .ok []
  | (k, d) :: es => do return (← k.read, ← d.keep room) :: (← keepEntries room es)

end

end Draft

/-- A draft, and how many more levels of it may be entered. -/
structure At where
  /-- The number of levels. -/
  room : Nat
  /-- The draft. -/
  draft : Draft
  deriving Repr, Inhabited

namespace At

/-- Enter a container, if there is room for it. -/
def enter {α : Type} (a : At) (elements : List α) (stop : Option Cut) : Except Fault (Stream α) :=
  if a.room = 0 then .error .malformed else .ok ⟨elements, stopFault stop⟩

/-- A part of a draft. -/
def inner (a : At) (d : Draft) : At := ⟨a.room - 1, d⟩

/-- Look at a draft. -/
def look (a : At) : Except Fault (Look At) :=
  match a.draft with
  | .null => .ok (.scalar .null)
  | .bool b => .ok (.scalar (.bool b))
  | .natural n => .ok (.natural n)
  | .signed i => .ok (.signed i)
  | .float spelling => .ok (.scalar (.float spelling))
  | .text s => .ok (.text s)
  | .unreadable => .error .malformed
  | .absent => .error .ended
  | .cut _ cause _ => .error cause.fault
  | .seq items stop => .ok (.seq (a.enter (items.map a.inner) stop))
  | .map entries stop =>
      .ok (.map (a.enter (entries.map fun (k, d) => (k.read, a.inner d)) stop))

/-- Whether a draft is the empty value, by its first letter. -/
def isNull (a : At) : Except Fault Bool :=
  match a.draft with
  | .null => .ok true
  | .cut .null cause _ => .error cause.fault
  | _ => .ok false

/-- Read the name of an alternative. -/
def identify (names : List String) (a : At) : Except Fault Nat := do
  match ← a.look with
  | .text s => variantOf names s
  | other => wrongType other.found "variant identifier"

/-- Read the empty value. -/
def readNothing (a : At) : Except Fault Unit := do
  match ← a.look with
  | .scalar .null => .ok ()
  | other => wrongType other.found "unit"

/-- Read an alternative without payload: its name, or a table that gives it the empty value. -/
def choose (names : List String) (a : At) : Except Fault Nat :=
  match a.draft with
  | .text s => variantOf names s
  | .cut .text cause _ => .error cause.fault
  | .absent => .error .ended
  | .map entries stop =>
      if a.room = 0 then .error .malformed
      else
        match entries with
        | [] => .error ((stopFault stop).getD .malformed)
        | (key, d) :: more => do
            let i ← variantOf names (← key.read)
            readNothing (a.inner d)
            if more.isEmpty then (stopFault stop).elim (.ok i) .error else .error .malformed
  | _ => .error .malformed

/-- A list that stands for a record ends where the record does. -/
def settle (_taken : Nat) (rest : Stream At) : Except Fault Unit :=
  if rest.elements.isEmpty then rest.fault.elim (.ok ()) .error else .error .malformed

end At

instance : Source At where
  look := At.look
  isNull := At.isNull
  skip a := a.draft.skip
  keep a := a.draft.keep a.room
  choose := At.choose
  identify := At.identify
  settle := At.settle

/-- Read a text that consists of one value. -/
def read {α : Type} (decode : At → Except Fault α) (raw : Raw) : Except Fault α := do
  let reading := Reading.ofRaw raw
  let a ← decode ⟨deepest, reading.draft⟩
  if reading.trailing then throw .malformed
  return a

end Json
end Marshal
