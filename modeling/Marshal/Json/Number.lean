import Marshal.Decimal.Written

/-!
# Numbers of a JSON text

A whole number that fits 64 bits is kept as it is.  Any other number becomes a float in two
steps: as many of its leading digits as fit 64 bits are taken as a whole number, and this number
is scaled by the power of ten that the other digits, the point and the exponent call for.  The
scaling is done with floats, one factor at a time, so the result need not be the nearest float.

## Main definitions

* `Numeral` — a number as it is spelled.
* `Number`, `Numeral.number` — what a spelling amounts to.
-/

namespace Marshal
namespace Json

/-- A number as it is spelled; digits are given by their values. -/
structure Numeral where
  /-- Whether a minus sign comes first. -/
  minus : Bool
  /-- The digits before the point. -/
  whole : List Nat
  /-- The digits after the point, if there is one. -/
  fraction : Option (List Nat)
  /-- The exponent, if there is one: whether it is negative, and its digits. -/
  exponent : Option (Bool × List Nat)
  deriving Repr, Inhabited

/-- What a number amounts to. -/
inductive Number where
  /-- A whole number without sign. -/
  | natural (n : Nat)
  /-- A whole number below zero. -/
  | signed (i : Int)
  /-- Any other number, as written in messages. -/
  | float (text : String)
  /-- A number too large for a float. -/
  | tooLarge
  deriving DecidableEq, Repr, Inhabited

/-- The greatest whole number that fits 64 bits. -/
def greatest64 : Nat := Nat.pow 2 64 - 1

/-- Take digits as long as the number stays within 64 bits; the others are given back. -/
def gather : Nat → List Nat → Nat × List Nat
  | n, [] => (n, [])
  | n, d :: ds => if greatest64 < n * 10 + d then (n, d :: ds) else gather (n * 10 + d) ds

/-- The float nearest to a power of ten. -/
def powerOfTen (n : Nat) : Float := Float.ofScientific 1 false n

/-- Divide by `10 ^ n`, by `1e308` at a time as long as anything is left. -/
def divideByTen (f : Float) (n : Nat) : Float :=
  if n ≤ 308 then f / powerOfTen n
  else if f == 0.0 then f
  else divideByTen (f / powerOfTen 308) (n - 308)
termination_by n

/-- Scale by a power of ten; nothing if the result is too large for a float. -/
def scale (f : Float) (exponent : Int) : Option Float :=
  if 0 ≤ exponent then
    if exponent ≤ 308 then
      let g := f * powerOfTen exponent.toNat
      if g.isInf then none else some g
    else if f == 0.0 then some f else none
  else some (divideByTen f exponent.natAbs)

/-- The greatest exponent that is computed with. -/
def greatestExponent : Nat := Nat.pow 2 31 - 1

namespace Numeral

/-- The number a spelling amounts to. -/
def number (s : Numeral) : Number :=
  let (n, beyond) := gather 0 s.whole
  let float (f : Option Float) : Number :=
    match f with
    | none => .tooLarge
    | some f => .float (Decimal.FloatStyle.compact.write (if s.minus then -f else f))
  match s.fraction, s.exponent with
  | none, none =>
      if beyond ≠ [] then float (scale n.toUInt64.toFloat beyond.length)
      else if !s.minus then .natural n
      else if n = 0 || Nat.pow 2 63 < n then float (some n.toUInt64.toFloat)
      else .signed (-n)
  | fraction, exponent =>
      let digits := fraction.getD []
      let (n, unused) := gather n digits
      let place : Int := (beyond.length : Int) - (digits.length - unused.length : Nat)
      match exponent with
      | none => float (scale n.toUInt64.toFloat place)
      | some (negative, ds) =>
          let e := ds.foldl (fun e d => min (e * 10 + d) (greatestExponent + 1)) 0
          if greatestExponent < e then
            if n ≠ 0 && !negative then .tooLarge else float (some 0.0)
          else float (scale n.toUInt64.toFloat (if negative then place - e else place + e))

end Numeral
end Json
end Marshal
