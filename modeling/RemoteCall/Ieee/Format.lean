import RemoteCall.Width

/-!
# Binary floating point formats on bit patterns

A format is a pair of field widths. Patterns are natural numbers, their values are exact dyadic
rationals, and rounding takes a quotient of naturals to the pattern of the nearest representable
magnitude, a tie going to the even pattern. No machine floating point operation is involved.
-/

namespace RemoteCall.Ieee

/-- The widths of the stored significand field and of the exponent field. -/
structure Format where
  fractionBits : Nat
  exponentBits : Nat
deriving DecidableEq, Repr

/-- What a pattern stands for. A finite datum is `significand * 2 ^ exponent` with its sign. -/
inductive Datum where
  | nan (negative : Bool) (payload : Nat)
  | infinite (negative : Bool)
  | finite (negative : Bool) (significand : Nat) (exponent : Int)
deriving DecidableEq, Repr

/-- The quotient rounded to the nearest integer, a half going to the even neighbour. -/
def roundedQuotient (num den : Nat) : Nat :=
  let floor := num / den
  let twice := 2 * (num % den)
  if twice < den then floor
  else if den < twice then floor + 1
  else floor + floor % 2

namespace Format

def single : Format := ⟨23, 8⟩

def double : Format := ⟨52, 11⟩

variable (f : Format)

/-- The weight of the sign bit, which is one more than the largest magnitude pattern. -/
def signWeight : Nat := Nat.pow 2 (f.fractionBits + f.exponentBits)

/-- The weight of the leading bit of a significand, which is not stored. -/
def leadingWeight : Nat := Nat.pow 2 f.fractionBits

/-- Every finite magnitude is below two to this power. -/
def exponentBound : Nat := Nat.pow 2 (f.exponentBits - 1)

/-- The magnitude pattern of infinity. Larger magnitude patterns are the NaNs. -/
def infinity : Nat := (2 * f.exponentBound - 1) * f.leadingWeight

/-- The fraction bit that marks a quiet NaN. -/
def quietWeight : Nat := Nat.pow 2 (f.fractionBits - 1)

/-- The exponent of the last place of the smallest magnitudes. -/
def minExponent : Int := 2 - (f.exponentBound : Int) - f.fractionBits

/-- Significand and exponent of a finite magnitude pattern. -/
def magnitudeParts (magnitude : Nat) : Nat × Int :=
  let biased := magnitude / f.leadingWeight
  let fraction := magnitude % f.leadingWeight
  if biased = 0 then (fraction, f.minExponent)
  else (fraction + f.leadingWeight, f.minExponent + (biased - 1))

def isNegative (pattern : Nat) : Bool := f.signWeight ≤ pattern

def decode (pattern : Nat) : Datum :=
  let negative := f.isNegative pattern
  let magnitude := pattern % f.signWeight
  if magnitude < f.infinity then
    let (significand, exponent) := f.magnitudeParts magnitude
    .finite negative significand exponent
  else if magnitude = f.infinity then .infinite negative
  else .nan negative (magnitude % f.leadingWeight)

/-- The pattern of a magnitude with a sign put on it. -/
def withSign (negative : Bool) (magnitude : Nat) : Nat :=
  if negative then f.signWeight + magnitude else magnitude

/-- Whether `num / den < 2 ^ k`. -/
def ratioBelowPower (num den : Nat) (k : Int) : Bool :=
  num * Nat.pow 2 (-k).toNat < den * Nat.pow 2 k.toNat

/-- The exponent of the last place in which a positive quotient is written. -/
def lastPlace (num den : Nat) : Int :=
  let guess : Int := (num.log2 : Int) - den.log2
  let leading := if ratioBelowPower num den guess then guess - 1 else guess
  max (leading - f.fractionBits) f.minExponent

/-- The magnitude pattern nearest to a quotient with a positive denominator. -/
def ofRatio (num den : Nat) : Nat :=
  if num = 0 then 0
  else
    let place := f.lastPlace num den
    let digits := roundedQuotient (num * Nat.pow 2 (-place).toNat) (den * Nat.pow 2 place.toNat)
    min ((place - f.minExponent).toNat * f.leadingWeight + digits) f.infinity

/-- The magnitude pattern nearest to `significand * 2 ^ exponent`. -/
def ofDyadic (significand : Nat) (exponent : Int) : Nat :=
  f.ofRatio (significand * Nat.pow 2 exponent.toNat) (Nat.pow 2 (-exponent).toNat)

/-- The magnitude pattern nearest to `significand * 10 ^ exponent`. The first two tests settle
exponents that no power needs to be computed for: above the first bound every positive
significand is infinite, below the second the value is under half of the smallest magnitude. -/
def ofDecimal (significand : Nat) (exponent : Int) : Nat :=
  if significand = 0 then 0
  else if (f.exponentBound : Int) ≤ exponent then f.infinity
  else if exponent < 0 ∧ (significand.log2 : Int) + 1 + 3 * exponent < f.minExponent - 1 then 0
  else f.ofRatio (significand * Nat.pow 10 exponent.toNat) (Nat.pow 10 (-exponent).toNat)

/-- The pattern of an integer. -/
def ofInt (n : Int) : Nat :=
  f.withSign (n < 0) (f.ofRatio n.natAbs 1)

/-- A datum of another format in this one. A NaN keeps its sign and the leading bits of its
payload, and becomes quiet. -/
def ofDatum (source : Format) : Datum → Nat
  | .finite negative significand exponent =>
    f.withSign negative (f.ofDyadic significand exponent)
  | .infinite negative => f.withSign negative f.infinity
  | .nan negative payload =>
    let moved := payload * f.leadingWeight / source.leadingWeight
    f.withSign negative (f.infinity + (moved ||| f.quietWeight))

end Format

namespace Datum

/-- The integer part, toward zero, as a signed integer of so many bits. Infinities and values beyond
the bounds go to the nearer bound and NaN goes to zero. -/
def truncate (bits : Nat) : Datum → Int
  | .nan _ _ => 0
  | .infinite negative => if negative then minSigned bits else maxSigned bits
  | .finite negative significand exponent =>
    let whole : Int := (significand * Nat.pow 2 exponent.toNat / Nat.pow 2 (-exponent).toNat : Nat)
    max (minSigned bits) (min (maxSigned bits) (if negative then -whole else whole))

end Datum

end RemoteCall.Ieee
