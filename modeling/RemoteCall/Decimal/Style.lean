import RemoteCall.Decimal.Shortest
import RemoteCall.Ieee.Binary

/-!
# How a floating point number is written

A style fixes everything about the text that the shortest digits leave open: which numbers are
written positionally, how many fraction digits there are at least, the form of the exponent and
the names of the values that are no numbers.
-/

namespace RemoteCall

structure FloatStyle where
  /-- Leading exponents written positionally; the others get an exponent. -/
  positional : Int → Bool
  /-- The number of digits after the point in positional text, at least. -/
  leastFraction : Nat
  tie : TieRule
  nanText : String
  infinityText : String

namespace FloatStyle

variable (style : FloatStyle)

/-- Digits with the point put where it belongs. -/
def positionalText (d : Decimal) : String :=
  let digits := d.digits.toList ++ List.replicate d.exponent.toNat '0'
  let fractionLength := (-d.exponent).toNat
  let missing := fractionLength + 1 - digits.length
  let padded := List.replicate missing '0' ++ digits
  let (whole, fraction) := padded.splitAt (padded.length - fractionLength)
  let fraction := fraction ++ List.replicate (style.leastFraction - fraction.length) '0'
  String.ofList (if fraction.isEmpty then whole else whole ++ '.' :: fraction)

/-- One digit before the point, and an exponent with its sign. -/
def exponentText (d : Decimal) : String :=
  let e := d.leadingExponent
  let mantissa := match d.digits.toList with
    | lead :: more@(_ :: _) => lead :: '.' :: more
    | digits => digits
  let sign := if e < 0 then "e-" else "e+"
  String.ofList mantissa ++ sign ++ Nat.repr e.natAbs

def decimalText (d : Decimal) : String :=
  if d.significand = 0 ∨ style.positional d.leadingExponent then style.positionalText d
  else exponentText d

def textOf (f : Ieee.Format) (pattern : Nat) : String :=
  let magnitude := pattern % f.signWeight
  let sign := if f.isNegative pattern then "-" else ""
  if magnitude < f.infinity then sign ++ style.decimalText (f.shortest style.tie magnitude)
  else if magnitude = f.infinity then sign ++ style.infinityText
  else style.nanText

def text32 (x : Binary32) : String := style.textOf .single x.bits.toNat

def text64 (x : Binary64) : String := style.textOf .double x.bits.toNat

end FloatStyle

end RemoteCall
