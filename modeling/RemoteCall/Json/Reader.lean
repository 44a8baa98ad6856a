import RemoteCall.Json.Basic
import RemoteCall.Json.Raw
import RemoteCall.Text.Utf16
import RemoteCall.Decimal.Reading

/-!
# The meaning of JSON texts

Escaped surrogates have to come in pairs. A number without fraction and exponent is an integer if
64 bits hold it. Any other number is computed in floating point from a 64-bit significand and a
power of ten, which is not always the nearest number; one too large is refused. Documents nest at
most 127 levels deep.
-/

namespace RemoteCall

namespace Binary64

def magnitudeParts (x : Binary64) : Nat × Int :=
  Ieee.Format.double.magnitudeParts (x.bits.toNat % Ieee.Format.double.signWeight)

/-- The nearest number to the product of two positive finite numbers. -/
def times (x y : Binary64) : Binary64 :=
  let (m, e) := x.magnitudeParts
  let (n, f) := y.magnitudeParts
  ofPattern (Ieee.Format.double.ofDyadic (m * n) (e + f))

/-- The nearest number to the quotient of two finite numbers, neither negative, the second not
zero. -/
def quotient (x y : Binary64) : Binary64 :=
  let (m, e) := x.magnitudeParts
  let (n, f) := y.magnitudeParts
  ofPattern (Ieee.Format.double.ofRatio (m * Nat.pow 2 (e - f).toNat) (n * Nat.pow 2 (f - e).toNat))

def powerOfTen (k : Nat) : Binary64 := ofDecimal false 1 k

end Binary64

namespace Json

def maxNesting : Nat := 127

/-- The largest power of ten that is a floating point number. -/
def maxPower : Nat := 308

/-- `x * 10 ^ exponent` in steps of floating point arithmetic. -/
def scaled? (x : Binary64) (exponent : Int) : Option Binary64 :=
  if _ : exponent < -maxPower then
    if x.isZero then some x else scaled? (x.quotient (.powerOfTen maxPower)) (exponent + maxPower)
  else if exponent < 0 then some (x.quotient (.powerOfTen (-exponent).toNat))
  else if exponent ≤ maxPower then
    let y := x.times (.powerOfTen exponent.toNat)
    if y.isInfinite then none else some y
  else if x.isZero then some x
  else none
termination_by (-exponent).toNat
decreasing_by simp only [maxPower] at *; omega

/-- Takes digits into a significand as long as 64 bits hold it, and counts them. -/
def takeDigits (significand count : Nat) : List Char → Nat × Nat
  | [] => (significand, count)
  | c :: cs =>
    let next := 10 * significand + (c.toNat - '0'.toNat)
    if next < UInt64.size then takeDigits next (count + 1) cs else (significand, count)

/-- The exponent as written; the bound past which it is not computed is 31 bits wide. -/
def exponentOf (e : RawExponent) : Int :=
  if e.negative then -(Decimal.ofDigits e.digits : Int) else Decimal.ofDigits e.digits

def realOf? (n : RawNumber) : Option Binary64 :=
  let (whole, taken) := takeDigits 0 0 n.whole
  let (significand, fractionTaken) := takeDigits whole 0 n.fraction
  let place : Int := (n.whole.length - taken : Nat) - fractionTaken
  let magnitude? :=
    match n.exponent? with
    | none => scaled? (.ofInt significand) place
    | some e =>
      if fitsWidth 32 (Decimal.ofDigits e.digits) then
        scaled? (.ofInt significand) (place + exponentOf e)
      else if significand ≠ 0 ∧ !e.negative then none
      else some .zero
  magnitude?.map fun x => if n.negative then x.negate else x

def numberOf? (n : RawNumber) : Option JsonNumber :=
  let value := Decimal.ofDigits n.whole
  if n.fraction.isEmpty ∧ n.exponent?.isNone ∧ value < UInt64.size then
    if !n.negative then some (.integer value)
    else if value = 0 ∨ !fitsWidth 64 (-value) then some (.real (Binary64.ofInt value).negate)
    else some (.integer (-value))
  else (realOf? n).map .real

def textOf? : List Piece → Option (List Char)
  | [] => some []
  | .char c :: rest => (textOf? rest).map (c :: ·)
  | [.unit u] => (Text.Utf16.unitChar? u).map ([·])
  | .unit u :: .char c :: rest => do
    let a ← Text.Utf16.unitChar? u
    let cs ← textOf? (.char c :: rest)
    return a :: cs
  | .unit u :: .unit v :: rest =>
    if Text.Utf16.isHigh u && Text.Utf16.isLow v then
      (textOf? rest).map (Text.Utf16.pairChar u v :: ·)
    else do
      let a ← Text.Utf16.unitChar? u
      let cs ← textOf? (.unit v :: rest)
      return a :: cs

def stringOf? (pieces : List Piece) : Option String := (textOf? pieces).map String.ofList

mutual

/-- The document a raw document means, within so many levels of arrays and objects. -/
def ofRaw? (levels : Nat) : Raw → Option Json
  | .null => some .null
  | .bool b => some (.bool b)
  | .number n => (numberOf? n).map .number
  | .string pieces => (stringOf? pieces).map .string
  | .array items =>
    match levels with
    | 0 => none
    | inner + 1 => (itemsOfRaw? inner items).map .array
  | .object members =>
    match levels with
    | 0 => none
    | inner + 1 => (membersOfRaw? inner members).map fun ms => .object (sortMembers ms)
termination_by structural raw => raw

def itemsOfRaw? (levels : Nat) : List Raw → Option (List Json)
  | [] => some []
  | raw :: raws => do
    let item ← ofRaw? levels raw
    let items ← itemsOfRaw? levels raws
    return item :: items
termination_by structural raws => raws

def membersOfRaw? (levels : Nat) : List (List Piece × Raw) → Option (List (String × Json))
  | [] => some []
  | (key, raw) :: raws => do
    let key ← stringOf? key
    let value ← ofRaw? levels raw
    let members ← membersOfRaw? levels raws
    return (key, value) :: members
termination_by structural raws => raws

end

def parse? (text : String) : Option Json := (Raw.parse? text).bind (ofRaw? maxNesting)

end Json

end RemoteCall
