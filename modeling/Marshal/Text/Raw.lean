/-!
# Text as it arrives from outside

Bytes that should be UTF-8 need not be.  A **raw text** is what is left of them after decoding:
the characters, and between them the broken spots, each a longest run of bytes that starts like
a character and does not go on like one (or a single byte that starts none).  A raw text is a
text if it has no broken spot; shown to a reader, each broken spot becomes one U+FFFD.

## Main definitions

* `Glyph`, `Raw` — characters and broken spots.
* `Raw.ofBytes` — decoding, one state step per byte.
* `Raw.toText?`, `Raw.lossy` — the strict and the forgiving view.

## Main results

* `Raw.toText?_ofText`, `Raw.lossy_ofText` — both views give a text back.
-/

namespace Marshal

/-- One piece of a raw text. -/
inductive Glyph where
  /-- A character that was decoded. -/
  | char (c : Char)
  /-- A run of `size` bytes that is no character. -/
  | broken (size : Nat)
  deriving DecidableEq, Repr, Inhabited

/-- The number of bytes a glyph was decoded from. -/
def Glyph.size : Glyph → Nat
  | .char c => c.utf8Size
  | .broken n => n

/-- A text as it arrives from outside: characters, and spots that could not be decoded. -/
abbrev Raw := List Glyph

namespace Raw

/-- The number of bytes a raw text was decoded from. -/
def size : Raw → Nat
  | [] => 0
  | g :: gs => g.size + size gs

/-! ### Decoding bytes -/

/-- A character of which some bytes have been read. -/
structure Partial where
  /-- How many bytes are still owed. -/
  owed : Nat
  /-- The least byte that may come next. -/
  least : UInt8
  /-- The greatest byte that may come next. -/
  greatest : UInt8
  /-- The bits read so far. -/
  bits : Nat
  /-- The number of bytes read so far. -/
  size : Nat
  deriving Repr, Inhabited

/-- What a byte is when no character is under way: a character, the start of one, or neither. -/
def start (b : UInt8) : List Glyph × Option Partial :=
  let opening (owed : Nat) (least greatest : UInt8) (mask : Nat) : List Glyph × Option Partial :=
    ([], some ⟨owed, least, greatest, b.toNat % mask, 1⟩)
  if b < 0x80 then ([.char (Char.ofNat b.toNat)], none)
  else if b < 0xC2 then ([.broken 1], none)
  else if b ≤ 0xDF then opening 1 0x80 0xBF 32
  else if b = 0xE0 then opening 2 0xA0 0xBF 16
  else if b = 0xED then opening 2 0x80 0x9F 16
  else if b ≤ 0xEF then opening 2 0x80 0xBF 16
  else if b = 0xF0 then opening 3 0x90 0xBF 8
  else if b ≤ 0xF3 then opening 3 0x80 0xBF 8
  else if b = 0xF4 then opening 3 0x80 0x8F 8
  else ([.broken 1], none)

/-- Read one byte.  A byte that does not continue the character under way breaks it and is
looked at afresh. -/
def step : Option Partial → UInt8 → List Glyph × Option Partial
  | none, b => start b
  | some p, b =>
      if p.least ≤ b && b ≤ p.greatest then
        let bits := p.bits * 64 + b.toNat % 64
        if p.owed ≤ 1 then ([.char (Char.ofNat bits)], none)
        else ([], some ⟨p.owed - 1, 0x80, 0xBF, bits, p.size + 1⟩)
      else
        let (gs, q) := start b
        (.broken p.size :: gs, q)

/-- Decode the bytes that follow what has been read of a character. -/
def decode : Option Partial → List UInt8 → Raw
  | none, [] => []
  | some p, [] => [.broken p.size]
  | p, b :: bs =>
      let (gs, q) := step p b
      gs ++ decode q bs

/-- The raw text that bytes decode to. -/
def ofBytes (bytes : List UInt8) : Raw := decode none bytes

/-! ### Texts as raw texts -/

/-- A text has no broken spots. -/
def ofText (text : String) : Raw := text.toList.map .char

/-- The characters of a raw text, if it has no broken spot. -/
def chars? : Raw → Option (List Char)
  | [] => some []
  | .char c :: gs => (chars? gs).map (c :: ·)
  | .broken _ :: _ => none

/-- The text a raw text is, if it has no broken spot. -/
def toText? (raw : Raw) : Option String := (chars? raw).map String.ofList

/-- The text shown for a raw text: each broken spot becomes one replacement character. -/
def lossy (raw : Raw) : String :=
  String.ofList (raw.map fun
    | .char c => c
    | .broken _ => '\ufffd')

@[simp] theorem chars?_map_char (cs : List Char) : chars? (cs.map .char) = some cs := by
  induction cs with
  | nil => rfl
  | cons c cs ih => simp [chars?, ih]

@[simp] theorem toText?_ofText (text : String) : toText? (ofText text) = some text := by
  simp [toText?, ofText]

@[simp] theorem lossy_ofText (text : String) : lossy (ofText text) = text := by
  simp [lossy, ofText, Function.comp_def]

end Raw
end Marshal
