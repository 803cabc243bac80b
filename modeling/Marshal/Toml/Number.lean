import Marshal.Decimal.Written
import Marshal.Toml.Text
import Marshal.Toml.Value

/-!
# Numbers, dates and times of a TOML document

Digits may be grouped by single underscores.  A whole number fits 64 bits with a sign; any other
number is rounded to the nearest float, and must not be too large for one unless it is negative.
Of dates and times only the form is checked.

## Main definitions

* `dateTime` — a date, a time, or both.
* `number` — a number.
-/

namespace Marshal
namespace Toml

/-! ### Dates and times -/

/-- The number that decimal digits spell. -/
def decimal (cs : List Char) : Nat := cs.foldl (fun n c => n * 10 + (c.toNat - '0'.toNat)) 0

/-- A number of two digits within bounds. -/
def two (least greatest : Nat) : List Char → Option (Nat × List Char)
  | a :: b :: cs =>
      let n := decimal [a, b]
      if a.isDigit && b.isDigit && least ≤ n && n ≤ greatest then some (n, cs) else none
  | _ => none

/-- What follows a character. -/
def after (c : Char) : List Char → Option (List Char)
  | d :: cs => if c = d then some cs else none
  | [] => none

/-- The number of days of a month. -/
def daysOf (year month : Nat) : Nat :=
  if month = 2 then
    if year % 4 = 0 && (year % 100 ≠ 0 || year % 400 = 0) then 29 else 28
  else if month ∈ [4, 6, 9, 11] then 30
  else 31

/-- What follows a date. -/
def dropDate? : List Char → Option (List Char)
  | a :: b :: c :: d :: '-' :: cs => do
      if !([a, b, c, d].all Char.isDigit) then none
      let (month, cs) ← two 1 12 cs
      let (day, cs) ← two 1 31 (← after '-' cs)
      if day ≤ daysOf (decimal [a, b, c, d]) month then return cs else none
  | _ => none

/-- What follows parts of a second. -/
def dropFraction : List Char → List Char
  | '.' :: c :: cs => if c.isDigit then cs.dropWhile Char.isDigit else '.' :: c :: cs
  | cs => cs

/-- What follows a time. -/
def dropTime? (cs : List Char) : Option (List Char) := do
  let (_, cs) ← two 0 23 cs
  let (_, cs) ← two 0 59 (← after ':' cs)
  let (_, cs) ← two 0 60 (← after ':' cs)
  return dropFraction cs

/-- What follows the distance from universal time. -/
def dropOffset? : List Char → Option (List Char)
  | 'Z' :: cs | 'z' :: cs => some cs
  | '+' :: cs | '-' :: cs => do
      let (_, cs) ← two 0 23 cs
      let (_, cs) ← two 0 59 (← after ':' cs)
      return cs
  | cs => some cs

/-- What follows the time of a date, if there is one. -/
def dropTimeOfDate? (cs : List Char) : Option (List Char) :=
  match cs with
  | 'T' :: cs' | 't' :: cs' | ' ' :: cs' =>
      match dropTime? cs' with
      | some cs' => dropOffset? cs'
      | none => some cs
  | _ => some cs

/-- A date, a time, or both. -/
def dateTime (cs : List Char) : Option (Value × List Char) :=
  match dropDate? cs with
  | some cs => (dropTimeOfDate? cs).map (Value.date, ·)
  | none => (dropTime? cs).map (Value.date, ·)

/-! ### Digits -/

/-- Digits after a first one, with single underscores between them. -/
def moreDigits (isDigit : Char → Bool) : List Char → Option (List Char × List Char)
  | '_' :: c :: cs => if isDigit c then put (some c) (moreDigits isDigit cs) else none
  | ['_'] => none
  | c :: cs => if isDigit c then put (some c) (moreDigits isDigit cs) else some ([], c :: cs)
  | [] => some ([], [])

/-- Digits, at least one. -/
def digits (isDigit : Char → Bool) : List Char → Option (List Char × List Char)
  | c :: cs => if isDigit c then put (some c) (moreDigits isDigit cs) else none
  | [] => none

/-- The digits of a whole number, which do not start with a zero unless it is the only one. -/
def wholeDigits : List Char → Option (List Char × List Char)
  | '0' :: cs => some (['0'], cs)
  | cs => digits Char.isDigit cs

/-! ### Numbers -/

/-- A whole number that fits 64 bits. -/
def integer (i : Int) (cs : List Char) : Option (Value × List Char) :=
  if -(Nat.pow 2 63 : Int) ≤ i && i < (Nat.pow 2 63 : Int) then some (.integer i, cs) else none

/-- The float nearest to the number that digits spell, times `10 ^ e`.  A number whose point is
far from its first digit other than zero is beyond all floats, or nearest to zero. -/
def nearest (digits : List Char) (e : Int) : Float :=
  let ds := digits.dropWhile (· = '0')
  let place := e + ds.length
  if ds = [] || place < -400 then 0.0
  else if 400 < place then 1.0 / 0.0
  else Float.ofScientific (decimal ds) (e < 0) e.natAbs

/-- A number with a point or an exponent. -/
def float (minus : Bool) (whole fraction : List Char) (e : Int) (cs : List Char) :
    Option (Value × List Char) :=
  let f := nearest (whole ++ fraction) (e - fraction.length)
  if f.isInf && !minus then none
  else some (.float (Decimal.FloatStyle.everywhere.write (if minus then -f else f)), cs)

/-- The exponent after its letter; beyond a size that no float reaches it does not matter. -/
def exponent (cs : List Char) : Option (Int × List Char) := do
  let (minus, cs) := match cs with
    | '-' :: cs => (true, cs)
    | '+' :: cs => (false, cs)
    | cs => (false, cs)
  let (ds, cs) ← digits Char.isDigit cs
  let e : Int := decimal ds
  return (if minus then -e else e, cs)

/-- A decimal number after its sign. -/
def decimalNumber (minus : Bool) (cs : List Char) : Option (Value × List Char) := do
  let (whole, cs) ← wholeDigits cs
  match cs with
  | 'e' :: cs | 'E' :: cs =>
      let (e, cs) ← exponent cs
      float minus whole [] e cs
  | '.' :: cs =>
      let (fraction, cs) ← digits Char.isDigit cs
      match cs with
      | 'e' :: cs | 'E' :: cs =>
          let (e, cs) ← exponent cs
          float minus whole fraction e cs
      | cs => float minus whole fraction 0 cs
  | cs =>
      let i : Int := decimal whole
      integer (if minus then -i else i) cs

/-- A whole number to another base. -/
def inBase (base : Nat) (cs : List Char) : Option (Value × List Char) := do
  let (ds, cs) ← digits (fun c => (hexDigit? c).any (· < base)) cs
  integer (ds.foldl (fun n c => n * base + (hexDigit? c).getD 0) 0 : Nat) cs

/-- The numbers that are spelled as words, after their sign. -/
def wordNumber (minus : Bool) : List Char → Option (Value × List Char)
  | 'i' :: 'n' :: 'f' :: cs => some (.float (if minus then "-inf" else "inf"), cs)
  | 'n' :: 'a' :: 'n' :: cs => some (.float "NaN", cs)
  | _ => none

/-- A number after its sign. -/
def signedNumber (minus : Bool) (cs : List Char) : Option (Value × List Char) :=
  match cs with
  | 'i' :: _ | 'n' :: _ => wordNumber minus cs
  | cs => decimalNumber minus cs

/-- A number. -/
def number : List Char → Option (Value × List Char)
  | '0' :: 'x' :: cs => inBase 16 cs
  | '0' :: 'o' :: cs => inBase 8 cs
  | '0' :: 'b' :: cs => inBase 2 cs
  | '+' :: cs => signedNumber false cs
  | '-' :: cs => signedNumber true cs
  | cs => signedNumber false cs

end Toml
end Marshal
