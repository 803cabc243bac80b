import Marshal.Json.Number
import Marshal.Text.Raw

/-!
# Tokens of a JSON text

A raw text is taken apart into tokens from left to right.  Where it stops being JSON, the last
token is a **cut**.  A cut, like a text or number that is spelled right but has no value, is met
in two ways: by a reader who wants the value, and by one who only passes over it and asks for
less.  The two may even disagree on whether the text ended or went wrong.

## Main definitions

* `Cut`, `Token` — what the text is made of.
* `scanText`, `scanNumber`, `scanLiteral` — the tokens of more than one glyph.
* `tokens` — the tokens of a raw text.

## Main results

* `length_scanText`, `length_scanNumber`, `length_scanLiteral` — each token leaves no more of the
  text than there was, so that taking tokens comes to an end.
-/

namespace Marshal
namespace Json

/-! ### Tokens -/

/-- How a text stops. -/
inductive Cut where
  /-- Something stands where it must not. -/
  | malformed
  /-- The text is over too early. -/
  | ended
  deriving DecidableEq, Repr, Inhabited

/-- What a value that is cut began as. -/
inductive Opening where
  /-- The literal `null`. -/
  | null
  /-- A text. -/
  | text
  /-- Anything else. -/
  | other
  deriving DecidableEq, Repr, Inhabited

/-- A token of a JSON text. -/
inductive Token where
  /-- The opening bracket of a list. -/
  | openSeq
  /-- The closing bracket of a list. -/
  | closeSeq
  /-- The opening brace of a table. -/
  | openMap
  /-- The closing brace of a table. -/
  | closeMap
  /-- A comma. -/
  | comma
  /-- A colon. -/
  | colon
  /-- The empty value. -/
  | null
  /-- A truth value. -/
  | bool (b : Bool)
  /-- A whole number without sign. -/
  | natural (n : Nat)
  /-- A whole number below zero. -/
  | signed (i : Int)
  /-- Any other number, as written in messages. -/
  | float (text : String)
  /-- A number that is too large to be read, only to be passed over. -/
  | hugeNumber
  /-- A text. -/
  | text (s : String)
  /-- A text that is complete but cannot be read, only passed over. -/
  | brokenText
  /-- The text stops being JSON: as a reader and as one who passes over it see it. -/
  | cut (opening : Opening) (read skip : Cut)
  deriving DecidableEq, Repr, Inhabited

/-- Whether the text stops at a token. -/
def Token.isCut : Token → Bool
  | .cut .. => true
  | _ => false

/-- What may stand between tokens. -/
def isSpace (g : Glyph) : Bool :=
  g = .char ' ' || g = .char '\n' || g = .char '\t' || g = .char '\r'

/-! ### Texts -/

/-- The value of a hexadecimal digit. -/
def hexDigit? (c : Char) : Option Nat :=
  if c.isDigit then some (c.toNat - '0'.toNat)
  else if 'a' ≤ c && c ≤ 'f' then some (c.toNat - 'a'.toNat + 10)
  else if 'A' ≤ c && c ≤ 'F' then some (c.toNat - 'A'.toNat + 10)
  else none

/-- The number four glyphs spell, if all are hexadecimal digits. -/
def hexNumber? : Glyph → Glyph → Glyph → Glyph → Option Nat
  | .char a, .char b, .char c, .char d => do
      return (((← hexDigit? a) * 16 + (← hexDigit? b)) * 16 + (← hexDigit? c)) * 16
        + (← hexDigit? d)
  | _, _, _, _ => none

/-- The character a backslash and a second character stand for. -/
def escape? : Char → Option Char
  | '"' => some '"'
  | '\\' => some '\\'
  | '/' => some '/'
  | 'b' => some '\x08'
  | 'f' => some '\x0c'
  | 'n' => some '\n'
  | 'r' => some '\r'
  | 't' => some '\t'
  | _ => none

/-- What is known of a text of which some has been read. -/
structure TextSoFar where
  /-- Its characters, the last one first. -/
  chars : List Char
  /-- The first half of a character given in two halves, if the second is due. -/
  half : Option Nat
  /-- Whether half a character stands alone in it. -/
  lone : Bool
  /-- Whether there is a spot that could not be decoded. -/
  spoiled : Bool
  deriving Repr, Inhabited

namespace TextSoFar

/-- Add a character; if the second half of one is due, the first stays alone. -/
def push (t : TextSoFar) (c : Char) : TextSoFar :=
  { t with chars := c :: t.chars, half := none, lone := t.lone || t.half.isSome }

/-- Add a character given by its number, or half of one. -/
def pushUnit (t : TextSoFar) (n : Nat) : TextSoFar :=
  if 0xDC00 ≤ n && n ≤ 0xDFFF then
    match t.half with
    | some high =>
        { t with
          chars := Char.ofNat ((high - 0xD800) * 0x400 + (n - 0xDC00) + 0x10000) :: t.chars
          half := none }
    | none => { t with lone := true }
  else if 0xD800 ≤ n && n ≤ 0xDBFF then
    { t with half := some n, lone := t.lone || t.half.isSome }
  else t.push (Char.ofNat n)

/-- Note a spot that could not be decoded. -/
def spoil (t : TextSoFar) : TextSoFar :=
  { t with half := none, lone := t.lone || t.half.isSome, spoiled := true }

/-- The token of a text that ends here. -/
def close (t : TextSoFar) : Token :=
  if t.lone || t.half.isSome || t.spoiled then .brokenText
  else .text (String.ofList t.chars.reverse)

/-- The token of a text in which the whole text ends. -/
def ended (t : TextSoFar) : Token :=
  .cut .text (if t.lone then .malformed else .ended) .ended

end TextSoFar

/-- The token of a text in which something stands where it must not. -/
def malformedText : Token := .cut .text .malformed .malformed

/-- Scan a text after its opening quote; the token and what follows it. -/
def scanText (t : TextSoFar) : Raw → Token × Raw
  | [] => (t.ended, [])
  | .broken _ :: gs => scanText t.spoil gs
  | .char '"' :: gs => (t.close, gs)
  | [.char '\\'] => (t.ended, [])
  | .char '\\' :: .char 'u' :: a :: b :: c :: d :: gs =>
      match hexNumber? a b c d with
      | some n => scanText (t.pushUnit n) gs
      | none => (malformedText, [])
  | .char '\\' :: .char 'u' :: gs =>
      if Raw.size gs < 4 then (t.ended, []) else (malformedText, [])
  | .char '\\' :: .char c :: gs =>
      match escape? c with
      | some e => scanText (t.push e) gs
      | none => (malformedText, [])
  | .char '\\' :: .broken _ :: _ => (malformedText, [])
  | .char c :: gs => if c.toNat < 0x20 then (malformedText, []) else scanText (t.push c) gs

theorem length_scanText (t : TextSoFar) (gs : Raw) : (scanText t gs).2.length ≤ gs.length := by
  fun_induction scanText t gs with
  | case1 | case4 | case6 | case7 | case8 | case10 | case11 | case12 =>
    -- the whole text ends here or stops being JSON, and nothing is left of it
    exact Nat.zero_le _
  | case2 t size gs ih => exact Nat.le_succ_of_le ih
  | case3 t gs => exact Nat.le_succ gs.length
  | case5 t a b c d gs n hn ih => exact Nat.le_trans ih (Nat.le_add_right gs.length 6)
  | case9 t c gs _ _ e he ih => exact Nat.le_trans ih (Nat.le_add_right gs.length 2)
  | case13 t c gs _ _ _ _ _ _ _ ih => exact Nat.le_succ_of_le ih

/-! ### Numbers -/

/-- The values of the digits a raw text starts with, and what follows them. -/
def spanDigits : Raw → List Nat × Raw
  | .char c :: gs =>
      if c.isDigit then
        let (ds, rest) := spanDigits gs
        ((c.toNat - '0'.toNat) :: ds, rest)
      else ([], .char c :: gs)
  | gs => ([], gs)

theorem length_spanDigits (gs : Raw) : (spanDigits gs).2.length ≤ gs.length := by
  fun_induction spanDigits gs with
  | case1 c gs hc ds rest hspan ih =>
    rw [hspan] at ih
    exact Nat.le_succ_of_le ih
  | case2 c gs hc => exact Nat.le_refl _
  | case3 gs _ => exact Nat.le_refl _

/-- The token of a number that lacks a digit before `gs`.  Who passes over it takes the end of
the text for any other glyph that is no digit. -/
def lacksDigit (gs : Raw) : Token :=
  .cut .other (if gs = [] then .ended else .malformed) .malformed

/-- Scan the digits of an exponent. -/
def scanPower (negative : Bool) (gs : Raw) : Except Token (Option (Bool × List Nat)) × Raw :=
  match spanDigits gs with
  | ([], _) => (.error (lacksDigit gs), [])
  | (ds, rest) => (.ok (some (negative, ds)), rest)

theorem length_scanPower (negative : Bool) (gs : Raw) :
    (scanPower negative gs).2.length ≤ gs.length := by
  fun_cases scanPower negative gs with
  | case1 => exact Nat.zero_le _
  | case2 ds rest hds hspan =>
    have h := length_spanDigits gs
    rw [hspan] at h
    exact h

/-- Scan the exponent of a number after its letter. -/
def scanExponent : Raw → Except Token (Option (Bool × List Nat)) × Raw
  | .char '+' :: gs => scanPower false gs
  | .char '-' :: gs => scanPower true gs
  | gs => scanPower false gs

theorem length_scanExponent (gs : Raw) : (scanExponent gs).2.length ≤ gs.length := by
  fun_cases scanExponent gs with
  | case1 gs | case2 gs => exact Nat.le_succ_of_le (length_scanPower ..)
  | case3 gs _ _ => exact length_scanPower ..

/-- Scan the part of a number after its fraction. -/
def scanScale : Raw → Except Token (Option (Bool × List Nat)) × Raw
  | .char 'e' :: gs => scanExponent gs
  | .char 'E' :: gs => scanExponent gs
  | gs => (.ok none, gs)

theorem length_scanScale (gs : Raw) : (scanScale gs).2.length ≤ gs.length := by
  fun_cases scanScale gs with
  | case1 gs | case2 gs => exact Nat.le_succ_of_le (length_scanExponent gs)
  | case3 gs _ _ => exact Nat.le_refl _

/-- Scan the part of a number after its whole digits, if there is one. -/
def scanFraction : Raw → Except Token (Option (List Nat)) × Raw
  | .char '.' :: gs =>
      match spanDigits gs with
      | ([], _) => (.error (lacksDigit gs), [])
      | (ds, rest) => (.ok (some ds), rest)
  | gs => (.ok none, gs)

theorem length_scanFraction (gs : Raw) : (scanFraction gs).2.length ≤ gs.length := by
  fun_cases scanFraction gs with
  | case1 => exact Nat.zero_le _
  | case2 gs ds rest hds hspan =>
    have h := length_spanDigits gs
    rw [hspan] at h
    exact Nat.le_succ_of_le h
  | case3 gs _ => exact Nat.le_refl _

/-- The token of a number. -/
def Numeral.token (s : Numeral) : Token :=
  match s.number with
  | .natural n => .natural n
  | .signed i => .signed i
  | .float text => .float text
  | .tooLarge => .hugeNumber

/-- Scan what follows the whole digits of a number. -/
def scanRest (minus : Bool) (whole : List Nat) (gs : Raw) : Token × Raw :=
  match scanFraction gs with
  | (.error t, _) => (t, [])
  | (.ok fraction, gs) =>
      match scanScale gs with
      | (.error t, _) => (t, [])
      | (.ok exponent, gs) => (Numeral.token ⟨minus, whole, fraction, exponent⟩, gs)

theorem length_scanRest (minus : Bool) (whole : List Nat) (gs : Raw) :
    (scanRest minus whole gs).2.length ≤ gs.length := by
  fun_cases scanRest minus whole gs with
  | case1 | case2 => exact Nat.zero_le _
  | case3 fraction rest hfraction exponent rest' hscale =>
    have hf := length_scanFraction gs
    have hs := length_scanScale rest
    rw [hfraction] at hf
    rw [hscale] at hs
    exact Nat.le_trans hs hf

/-- Scan a number after its sign.  A zero stands alone before the point. -/
def scanNumber (minus : Bool) (gs : Raw) : Token × Raw :=
  match spanDigits gs with
  | ([], _) => (lacksDigit gs, [])
  | (0 :: _ :: _, _) => (.cut .other .malformed .malformed, [])
  | (whole, rest) => scanRest minus whole rest

theorem length_scanNumber (minus : Bool) (gs : Raw) :
    (scanNumber minus gs).2.length ≤ (spanDigits gs).2.length := by
  fun_cases scanNumber minus gs with
  | case1 | case2 => exact Nat.zero_le _
  | case3 whole rest _ _ hspan =>
    rw [hspan]
    exact length_scanRest ..

/-! ### Literals -/

/-- Scan the letters that are left of a literal. -/
def scanLiteral (opening : Opening) (token : Token) : List Char → Raw → Token × Raw
  | [], gs => (token, gs)
  | _ :: _, [] => (.cut opening .ended .ended, [])
  | c :: cs, g :: gs =>
      if g = .char c then scanLiteral opening token cs gs
      else (.cut opening .malformed .malformed, [])

theorem length_scanLiteral (opening : Opening) (token : Token) (cs : List Char) (gs : Raw) :
    (scanLiteral opening token cs gs).2.length ≤ gs.length := by
  fun_induction scanLiteral opening token cs gs with
  | case1 gs => exact Nat.le_refl _
  | case2 | case4 => exact Nat.zero_le _
  | case3 c cs gs ih => exact Nat.le_succ_of_le ih

/-! ### All tokens -/

/-- The token that starts with a glyph, and what follows it. -/
def scanToken (g : Glyph) (gs : Raw) : Token × Raw :=
  match g with
  | .char '[' => (.openSeq, gs)
  | .char ']' => (.closeSeq, gs)
  | .char '\x7b' => (.openMap, gs)
  | .char '\x7d' => (.closeMap, gs)
  | .char ',' => (.comma, gs)
  | .char ':' => (.colon, gs)
  | .char '"' => scanText ⟨[], none, false, false⟩ gs
  | .char '-' => scanNumber true gs
  | .char 'n' => scanLiteral .null .null ['u', 'l', 'l'] gs
  | .char 't' => scanLiteral .other (.bool true) ['r', 'u', 'e'] gs
  | .char 'f' => scanLiteral .other (.bool false) ['a', 'l', 's', 'e'] gs
  | .char c => if c.isDigit then scanNumber false (.char c :: gs)
      else (.cut .other .malformed .malformed, [])
  | .broken _ => (.cut .other .malformed .malformed, [])

theorem length_scanToken (g : Glyph) (gs : Raw) : (scanToken g gs).2.length ≤ gs.length := by
  fun_cases scanToken g gs with
  | case1 | case2 | case3 | case4 | case5 | case6 => exact Nat.le_refl _
  | case7 => exact length_scanText ..
  | case8 => exact Nat.le_trans (length_scanNumber ..) (length_spanDigits gs)
  | case9 | case10 | case11 => exact length_scanLiteral ..
  | case12 c _ _ _ _ _ _ _ _ _ _ _ hc =>
    refine Nat.le_trans (length_scanNumber ..) ?_
    simpa [spanDigits, hc] using length_spanDigits gs
  | case13 | case14 => exact Nat.zero_le _

/-- The tokens of a raw text, up to the first cut. -/
def tokens : Raw → List Token
  | [] => []
  | g :: gs =>
      if isSpace g then tokens gs
      else
        let t := scanToken g gs
        if t.1.isCut then [t.1] else t.1 :: tokens t.2
termination_by gs => gs.length
decreasing_by
  · exact Nat.lt_succ_self _
  · exact Nat.lt_succ_of_le (length_scanToken g gs)

end Json
end Marshal
