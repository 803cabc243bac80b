/-!
# The shortest decimal of a binary number

A binary number `m · 2 ^ q` stands for all reals that round to it: those between the midpoints to
its two neighbours, midpoints included exactly when `m` is even.  Its **shortest decimal** is
the multiple of the greatest power of ten that lies among them, and of two such multiples the
one nearer to the number; a **tie** between two that are equally near is settled by a rule that
the user chooses.  The grids of powers of ten are nested, so the greatest power that has a
multiple there gives the fewest digits.

Everything is compared exactly, in natural numbers, in units of a quarter of `2 ^ q`.

## Main definitions

* `Tie` — the rules for ties.
* `Binary`, `Binary.ofFloat?` — a positive finite binary number, and how to get it from a float.
* `Binary.shortest` — its shortest decimal.
-/

namespace Marshal
namespace Decimal

/-- Which of two equally near decimals is taken. -/
inductive Tie where
  /-- The one with the even last digit. -/
  | even
  /-- The greater one. -/
  | up
  deriving DecidableEq, Repr, Inhabited

/-- Whether the lesser of two equally near decimals, whose digits are given, is taken. -/
def Tie.takesLower : Tie → Nat → Bool
  | .even, digits => digits % 2 = 0
  | .up, _ => false

/-- A positive binary number `mantissa · 2 ^ exponent`. -/
structure Binary where
  /-- The whole multiple. -/
  mantissa : Nat
  /-- The power of two it is a multiple of. -/
  exponent : Int
  /-- Whether the neighbour below is only half as far away as the one above. -/
  narrowBelow : Bool
  deriving Repr, Inhabited

/-- A positive decimal number `digits · 10 ^ exponent`. -/
structure Digits where
  /-- The digits, read as a number. -/
  digits : Nat
  /-- The power of ten they are a multiple of. -/
  exponent : Int
  deriving DecidableEq, Repr, Inhabited

namespace Binary

/-- The size of a finite float; nothing for zero, infinities and what is no number. -/
def ofFloat? (f : Float) : Option Binary :=
  let bits : Nat := f.toBits.toNat
  let fraction : Nat := bits % Nat.pow 2 52
  let biased : Nat := bits / Nat.pow 2 52 % Nat.pow 2 11
  if biased = 2047 then none
  else if biased = 0 then
    if fraction = 0 then none else some ⟨fraction, -1074, false⟩
  else some ⟨Nat.pow 2 52 + fraction, (biased : Int) - 1075, fraction = 0 && 1 < biased⟩

/-- Both sides of a comparison of `c · 10 ^ g` with `x` quarters of `2 ^ exponent`, as whole
numbers. -/
def sides (b : Binary) (c : Nat) (g : Int) (x : Nat) : Nat × Nat :=
  (c * Nat.pow 10 g.toNat * Nat.pow 2 (2 - b.exponent).toNat,
    x * Nat.pow 2 (b.exponent - 2).toNat * Nat.pow 10 (-g).toNat)

/-- Whether `c · 10 ^ g` is among the reals that round to the number. -/
def holds (b : Binary) (c : Nat) (g : Int) : Bool :=
  let low := b.sides c g (4 * b.mantissa - if b.narrowBelow then 1 else 2)
  let high := b.sides c g (4 * b.mantissa + 2)
  if b.mantissa % 2 = 0 then low.2 ≤ low.1 && high.1 ≤ high.2
  else low.2 < low.1 && high.1 < high.2

/-- The multiple of `10 ^ g` next to the number, below or above, that rounds to it; of two the
nearer one. -/
def onGrid (b : Binary) (tie : Tie) (g : Int) : Option Digits :=
  let (unit, value) := b.sides 1 g (4 * b.mantissa)
  let below := value / unit
  let lower := 0 < below && b.holds below g
  let upper := b.holds (below + 1) g
  let twice := 2 * (value % unit)
  if lower && (!upper || twice < unit || (twice = unit && tie.takesLower below)) then some ⟨below, g⟩
  else if upper then some ⟨below + 1, g⟩
  else none

/-- The shortest decimal: from the coarsest grid of powers of ten on, the first that has a
multiple among the reals that round to the number. -/
def shortest (b : Binary) (tie : Tie) : Digits :=
  ((List.range 700).findSome? fun (i : Nat) => b.onGrid tie (310 - (i : Int))).getD ⟨0, 0⟩

end Binary
end Decimal
end Marshal
