import RemoteCall.Ieee.Format

/-!
# The shortest decimal that reads back

Every real number close enough to a representable magnitude rounds to it. Among the decimals in
that interval, `Ieee.Format.shortest` takes one with the fewest digits, and of those the nearest
to the magnitude. The search tries one digit, two digits and so on: a grid of decimals meets the
interval exactly when one of the two grid points next to the magnitude lies in it.
-/

namespace RemoteCall

/-- The number `significand * 10 ^ exponent`. -/
structure Decimal where
  significand : Nat
  exponent : Int
deriving DecidableEq, Repr

/-- Which of two equally near candidates is taken. -/
inductive TieRule where
  | upward
  | toEven
deriving DecidableEq, Repr

namespace Decimal

def zero : Decimal := ⟨0, 0⟩

def digits (d : Decimal) : String := Nat.repr d.significand

/-- The exponent of the leading digit. -/
def leadingExponent (d : Decimal) : Int := d.exponent + d.digits.length - 1

/-- The same number without zeros at the end of its significand, as far as the fuel reaches. -/
def dropZeros : Nat → Decimal → Decimal
  | 0, d => d
  | fuel + 1, ⟨significand, exponent⟩ =>
    if significand ≠ 0 ∧ significand % 10 = 0 then
      dropZeros fuel ⟨significand / 10, exponent + 1⟩
    else ⟨significand, exponent⟩

end Decimal

namespace Ieee

/-- The magnitude `centre * 2 ^ exponent` and the ends of the interval that rounds to it, over the
same power of two. -/
structure RoundingInterval where
  low : Nat
  centre : Nat
  high : Nat
  exponent : Int
  inclusive : Bool
deriving Repr

/-- The interval of a finite magnitude pattern. Below a power of two the numbers lie twice as
dense, so the lower end is nearer there. -/
def Format.roundingInterval (f : Format) (magnitude : Nat) : RoundingInterval :=
  let (significand, exponent) := f.magnitudeParts magnitude
  let dense := significand = f.leadingWeight ∧ f.minExponent < exponent
  { low := 4 * significand - if dense then 1 else 2
    centre := 4 * significand
    high := 4 * significand + 2
    exponent := exponent - 2
    inclusive := significand % 2 = 0 }

namespace RoundingInterval

variable (i : RoundingInterval)

/-- The factors that turn a multiple of `2 ^ exponent` into one of `10 ^ place`. -/
def scale (place : Int) : Nat × Nat :=
  (Nat.pow 2 i.exponent.toNat * Nat.pow 10 (-place).toNat,
    Nat.pow 2 (-i.exponent).toNat * Nat.pow 10 place.toNat)

def centreBelowPower (place : Int) : Bool :=
  let (num, den) := i.scale place
  i.centre * num < den

/-- The least `p` with the magnitude below `10 ^ p`. The decimal logarithm of two is a little
under `30103 / 100000`, which leaves four candidates. -/
def decimalPoint : Int :=
  let guess := ((i.centre.log2 + i.exponent) * 30103).fdiv 100000
  let candidates := [guess - 1, guess, guess + 1]
  (candidates.find? i.centreBelowPower).getD (guess + 2)

/-- The grid point `q * 10 ^ place` lies in the interval. -/
def contains (place : Int) (q : Nat) : Bool :=
  let (num, den) := i.scale place
  let aboveLow := if i.inclusive then i.low * num ≤ q * den else i.low * num < q * den
  let belowHigh := if i.inclusive then q * den ≤ i.high * num else q * den < i.high * num
  aboveLow && belowHigh

/-- The better of the two multiples of `10 ^ place` next to the magnitude, if the interval holds
one of them. -/
def nearestOnGrid (tie : TieRule) (place : Int) : Option Nat :=
  let (num, den) := i.scale place
  let below := i.centre * num / den
  let twice := 2 * (i.centre * num % den)
  match i.contains place below, i.contains place (below + 1) with
  | false, false => none
  | true, false => some below
  | false, true => some (below + 1)
  | true, true =>
    if twice < den then some below
    else if den < twice then some (below + 1)
    else match tie with
      | .upward => some (below + 1)
      | .toEven => some (below + below % 2)

/-- The grids tried, one digit first. Seventeen digits tell all 64-bit numbers apart. -/
def shortest (tie : TieRule) : Decimal :=
  let point := i.decimalPoint
  let onGrid (n : Nat) : Option Decimal :=
    let place := point - (n + 1)
    (i.nearestOnGrid tie place).map fun q => (Decimal.mk q place).dropZeros 18
  ((List.range 17).findSome? onGrid).getD .zero

end RoundingInterval

/-- The shortest decimal of a finite magnitude pattern. -/
def Format.shortest (f : Format) (tie : TieRule) (magnitude : Nat) : Decimal :=
  if magnitude = 0 then .zero else (f.roundingInterval magnitude).shortest tie

end Ieee

end RemoteCall
