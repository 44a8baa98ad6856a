import RemoteCall.Ieee.Binary
import RemoteCall.Decimal.Shortest

/-!
# Numbers read from text

Integers are an optional sign and decimal digits within bounds, and the first fault from the left
is the one reported. Floating point numbers are written positionally or with an exponent, or are
one of the words for infinity and NaN, and the result is the nearest number.
-/

namespace RemoteCall

inductive IntegerFault where
  | empty
  | invalidDigit
  | tooLarge
  | tooSmall
deriving DecidableEq, Repr

def IntegerFault.message : IntegerFault → String
  | .empty => "cannot parse integer from empty string"
  | .invalidDigit => "invalid digit found in string"
  | .tooLarge => "number too large to fit in target type"
  | .tooSmall => "number too small to fit in target type"

namespace Decimal

def digit? (c : Char) : Option Nat :=
  if '0' ≤ c ∧ c ≤ '9' then some (c.toNat - '0'.toNat) else none

/-- Digits after the number `acc`, as long as the result stays within the limit. -/
def readDigits (limit : Nat) (overflow : IntegerFault) (acc : Nat) :
    List Char → Except IntegerFault Nat
  | [] => .ok acc
  | c :: cs =>
    match digit? c with
    | none => .error .invalidDigit
    | some d =>
      if limit < 10 * acc + d then .error overflow
      else readDigits limit overflow (10 * acc + d) cs

/-- At least one digit. -/
def readNatural (limit : Nat) (overflow : IntegerFault) : List Char → Except IntegerFault Nat
  | [] => .error .invalidDigit
  | cs => readDigits limit overflow 0 cs

/-- A natural number up to the limit, with or without a plus sign. -/
def readUnsigned (limit : Nat) : List Char → Except IntegerFault Nat
  | [] => .error .empty
  | '+' :: cs => readNatural limit .tooLarge cs
  | cs => readNatural limit .tooLarge cs

/-- An integer from `-limit - 1` to `limit`. -/
def readSigned (limit : Nat) : List Char → Except IntegerFault Int
  | [] => .error .empty
  | '+' :: cs => Int.ofNat <$> readNatural limit .tooLarge cs
  | '-' :: cs => (fun n => -Int.ofNat n) <$> readNatural (limit + 1) .tooSmall cs
  | cs => Int.ofNat <$> readNatural limit .tooLarge cs

def readPort (s : String) : Except IntegerFault UInt16 :=
  (·.toUInt16) <$> readUnsigned 0xFFFF s.toList

def readInt64? (s : String) : Option Int64 :=
  match readSigned (maxSigned 64).toNat s.toList with
  | .ok n => some (Int64.ofInt n)
  | .error _ => none

/-- Digits as a number, the leading digit first. -/
def ofDigits (cs : List Char) : Nat :=
  cs.foldl (fun n c => 10 * n + (c.toNat - '0'.toNat)) 0

def isDigit (c : Char) : Bool := '0' ≤ c && c ≤ '9'

/-- A nonempty run of digits with an optional sign, and nothing after it. -/
def readExponent? (cs : List Char) : Option Int :=
  let (negative, digits) := match cs with
    | '-' :: rest => (true, rest)
    | '+' :: rest => (false, rest)
    | rest => (false, rest)
  if digits.isEmpty || !digits.all isDigit then none
  else some (if negative then -(ofDigits digits : Int) else ofDigits digits)

/-- An unsigned number: digits with an optional point among or around them, then an optional
exponent. -/
def readUnsignedFloat? (cs : List Char) : Option Decimal :=
  let (whole, afterWhole) := cs.span isDigit
  let (fraction, rest) := match afterWhole with
    | '.' :: more => more.span isDigit
    | more => ([], more)
  if whole.isEmpty && fraction.isEmpty then none
  else
    let exponent? := match rest with
      | [] => some 0
      | e :: more => if e = 'e' ∨ e = 'E' then readExponent? more else none
    exponent?.map fun exponent => ⟨ofDigits (whole ++ fraction), exponent - fraction.length⟩

def readBinary64? (s : String) : Option Binary64 :=
  let (negative, cs) := match s.toList with
    | '-' :: rest => (true, rest)
    | '+' :: rest => (false, rest)
    | rest => (false, rest)
  match readUnsignedFloat? cs with
  | some d => some (Binary64.ofDecimal negative d.significand d.exponent)
  | none =>
    let special (x : Binary64) := some (if negative then x.negate else x)
    match String.ofList (cs.map Char.toLower) with
    | "inf" | "infinity" => special ⟨0x7FF0000000000000⟩
    | "nan" => special ⟨0x7FF8000000000000⟩
    | _ => none

end Decimal

end RemoteCall
