import Marshal.Decimal.Shortest

/-!
# Written floats

Two ways to write the shortest decimal of a float, both with at least one digit on either side
of a point: **positional** at every size, or positional only where the number is neither very
large nor very small and with a power of ten otherwise.

## Main definitions

* `FloatStyle` — which sizes are written positionally.
* `FloatStyle.write` — the text of a float in a style.
* `FloatStyle.everywhere`, `FloatStyle.compact` — the two styles in use.
-/

namespace Marshal
namespace Decimal

/-- How floats are written. -/
structure FloatStyle where
  /-- Those whose point stands more than the first and at most the second number of places after
  their first digit are positional; without bounds all are. -/
  window : Option (Int × Int)
  /-- What goes before a power of ten that is not negative. -/
  plus : List Char
  /-- Which of two equally near decimals is written. -/
  tie : Tie
  deriving Repr, Inhabited

namespace FloatStyle

/-- Positional at every size. -/
def everywhere : FloatStyle := ⟨none, [], .up⟩

/-- Positional from `1e-5` up to below `1e+16`. -/
def compact : FloatStyle := ⟨some (-5, 16), ['+'], .even⟩

/-- Digits with the point `place` places after the first digit. -/
def positional (digits : List Char) (place : Int) : List Char :=
  if place ≤ 0 then ['0', '.'] ++ List.replicate (-place).toNat '0' ++ digits
  else if place < digits.length then
    digits.take place.toNat ++ ['.'] ++ digits.drop place.toNat
  else digits ++ List.replicate (place - digits.length).toNat '0' ++ ['.', '0']

/-- Digits with the point after the first and a power of ten. -/
def scientific (style : FloatStyle) (digits : List Char) (place : Int) : List Char :=
  let mantissa := match digits with
    | first :: second :: rest => first :: '.' :: second :: rest
    | ds => ds
  let power := place - 1
  mantissa ++ ['e'] ++ (if power < 0 then ['-'] else style.plus) ++ Nat.toDigits 10 power.natAbs

/-- The text of a positive decimal number. -/
def writeDigits (style : FloatStyle) (d : Digits) : List Char :=
  let digits := Nat.toDigits 10 d.digits
  let place := d.exponent + digits.length
  match style.window with
  | none => positional digits place
  | some (least, greatest) =>
      if least < place && place ≤ greatest then positional digits place
      else style.scientific digits place

/-- The text of a float. -/
def write (style : FloatStyle) (f : Float) : String :=
  if f.isNaN then "NaN"
  else
    let sign := if f.toBits.toNat / Nat.pow 2 63 = 1 then ['-'] else []
    let size :=
      if f.isInf then ['i', 'n', 'f']
      else match Binary.ofFloat? f with
        | none => ['0', '.', '0']
        | some b => style.writeDigits (b.shortest style.tie)
    String.ofList (sign ++ size)

end FloatStyle
end Decimal
end Marshal
