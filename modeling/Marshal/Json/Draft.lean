import Marshal.Json.Token

/-!
# Drafts of a JSON text

A JSON text that goes wrong somewhere still says something up to that place, and whoever reads
it from left to right may be done with it, or refuse it, before getting there.  A **draft** is
all that the text says: a tree in which the place where the text stops is part of the tree.

A draft is built by taking in one token after the other; the containers that are open are kept
as **frames**, the innermost first.

## Main definitions

* `Key`, `Draft` — the trees.
* `Frame`, `Due`, `Building` — a tree under way.
* `Building.step`, `Building.finish` — taking in a token, and the end of the text.
* `Reading`, `Reading.ofRaw` — the draft of a raw text, and whether more follows it.
-/

namespace Marshal
namespace Json

/-! ### Drafts -/

/-- What stands where the key of an entry is due. -/
inductive Key where
  /-- A text. -/
  | text (s : String)
  /-- A text that can only be passed over. -/
  | unreadable
  /-- There is no text, or it stops. -/
  | cut (read skip : Cut)
  deriving DecidableEq, Repr, Inhabited

/-- What a JSON text says up to where it stops. -/
inductive Draft where
  /-- The empty value. -/
  | null
  /-- A truth value. -/
  | bool (b : Bool)
  /-- A whole number without sign. -/
  | natural (n : Nat)
  /-- A whole number below zero. -/
  | signed (i : Int)
  /-- Any other number, as written in messages. -/
  | float (spelling : String)
  /-- A text. -/
  | text (s : String)
  /-- A number or text that can only be passed over. -/
  | unreadable
  /-- The text is over where a value is due. -/
  | absent
  /-- The text stops within a value, or has none where one is due. -/
  | cut (opening : Opening) (read skip : Cut)
  /-- A list, and how the text stops in it, if it is not closed. -/
  | seq (items : List Draft) (stop : Option Cut)
  /-- A table, and how the text stops in it, if it is not closed. -/
  | map (entries : List (Key × Draft)) (stop : Option Cut)
  deriving Repr, Inhabited

/-- The draft of what cannot start a value. -/
def Draft.misplaced : Draft := .cut .other .malformed .malformed

/-- The draft a token starts or is, where a value is due.  Brackets are taken care of before. -/
def Draft.ofToken : Token → Draft
  | .null => .null
  | .bool b => .bool b
  | .natural n => .natural n
  | .signed i => .signed i
  | .float spelling => .float spelling
  | .text s => .text s
  | .hugeNumber | .brokenText => .unreadable
  | .cut opening read skip => .cut opening read skip
  | _ => .misplaced

/-- What a token is, where a key is due. -/
def Key.ofToken : Token → Key
  | .text s => .text s
  | .brokenText => .unreadable
  | .cut .text read skip => .cut read skip
  | _ => .cut .malformed .malformed

/-- Whether a value may follow a key. -/
def Key.goesOn : Key → Bool
  | .text _ | .unreadable => true
  | _ => false

/-! ### Drafts under way -/

/-- A container that is open; what it holds so far is listed from the last on. -/
inductive Frame where
  /-- A list. -/
  | seq (done : List Draft)
  /-- A table between two entries. -/
  | map (done : List (Key × Draft))
  /-- A table in the middle of an entry. -/
  | entry (done : List (Key × Draft)) (key : Key)
  deriving Repr, Inhabited

/-- What is due next. -/
inductive Due where
  /-- A value. -/
  | value
  /-- The first item of a list, or its end. -/
  | item
  /-- The first key of a table, or its end. -/
  | first
  /-- A key. -/
  | key
  /-- A colon. -/
  | colon
  /-- A comma, or the end of the innermost container. -/
  | more
  deriving DecidableEq, Repr, Inhabited

/-- A draft under way. -/
inductive Building where
  /-- Some containers are open, and something is due. -/
  | going (frames : List Frame) (due : Due)
  /-- The draft is complete; `trailing` says whether something follows it. -/
  | complete (draft : Draft) (trailing : Bool)
  deriving Repr, Inhabited

namespace Building

/-- Put a complete value in its place; there is none between the entries of a table. -/
def place : List Frame → Draft → Building
  | [], d => .complete d false
  | .seq done :: fs, d => .going (.seq (d :: done) :: fs) .more
  | .entry done key :: fs, d => .going (.map ((key, d) :: done) :: fs) .more
  | .map done :: fs, _ => .going (.map done :: fs) .more

/-- A frame that goes no further than the value `d`. -/
def shut (d : Draft) : Frame → Draft
  | .seq done => .seq (done.reverse ++ [d]) (some .malformed)
  | .map done => .map done.reverse (some .malformed)
  | .entry done key => .map (done.reverse ++ [(key, d)]) (some .malformed)

/-- The text stops in the value `d`. -/
def stopAt (frames : List Frame) (d : Draft) : Building := .complete (frames.foldl shut d) false

/-- The text stops in the innermost container. -/
def stop (cause : Cut) : List Frame → Building
  | [] => .complete .absent false
  | .seq done :: fs => stopAt fs (.seq done.reverse (some cause))
  | .map done :: fs => stopAt fs (.map done.reverse (some cause))
  | .entry done key :: fs => stopAt fs (.map ((key, .absent) :: done).reverse (some cause))

/-- Take in a token where a value is due. -/
def stepValue (frames : List Frame) (t : Token) : Building :=
  match t with
  | .openSeq => .going (.seq [] :: frames) .item
  | .openMap => .going (.map [] :: frames) .first
  | t =>
      match Draft.ofToken t with
      | .cut opening read skip => stopAt frames (.cut opening read skip)
      | d => place frames d

/-- Take in a token where a key is due. -/
def stepKey (done : List (Key × Draft)) (frames : List Frame) (t : Token) : Building :=
  let key := Key.ofToken t
  if key.goesOn then .going (.entry done key :: frames) .colon
  else stopAt (.entry done key :: frames) .absent

/-- Take in a token. -/
def step : Building → Token → Building
  | .complete d _, _ => .complete d true
  | .going frames .value, t => stepValue frames t
  | .going (.seq done :: fs) .item, .closeSeq => place fs (.seq done.reverse none)
  | .going frames .item, t => stepValue frames t
  | .going (.map done :: fs) .first, .closeMap => place fs (.map done.reverse none)
  | .going (.map done :: fs) .first, t => stepKey done fs t
  | .going (.map done :: fs) .key, t => stepKey done fs t
  | .going frames .colon, .colon => .going frames .value
  | .going frames .colon, _ => stopAt frames .misplaced
  | .going (.seq done :: fs) .more, .comma => .going (.seq done :: fs) .value
  | .going (.seq done :: fs) .more, .closeSeq => place fs (.seq done.reverse none)
  | .going (.map done :: fs) .more, .comma => .going (.map done :: fs) .key
  | .going (.map done :: fs) .more, .closeMap => place fs (.map done.reverse none)
  | .going frames _, _ => stop .malformed frames

/-- The text is over. -/
def finish : Building → Building
  | .going frames .value => stopAt frames .absent
  | .going frames .colon => stopAt frames .absent
  | .going (.map done :: fs) .key => stopAt (.entry done (.cut .ended .ended) :: fs) .absent
  | .going frames _ => stop .ended frames
  | b => b

end Building

/-! ### The draft of a text -/

/-- The draft of a text, and whether more follows it. -/
structure Reading where
  /-- The draft. -/
  draft : Draft
  /-- Whether something other than blanks follows it. -/
  trailing : Bool
  deriving Repr, Inhabited

/-- The reading of a list of tokens. -/
def Reading.ofTokens (ts : List Token) : Reading :=
  match (ts.foldl Building.step (.going [] .value)).finish with
  | .complete d trailing => ⟨d, trailing⟩
  | .going _ _ => ⟨.absent, false⟩

/-- The reading of a raw text. -/
def Reading.ofRaw (raw : Raw) : Reading := .ofTokens (tokens raw)

end Json
end Marshal
