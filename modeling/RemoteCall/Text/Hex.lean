/-!
# Hexadecimal text
-/

namespace RemoteCall.Text

def hexDigits (upper : Bool) (n : Nat) : List Char :=
  (Nat.toDigits 16 n).map fun c => if upper then c.toUpper else c

/-- At least `width` hexadecimal digits, zeros in front. -/
def hex (width n : Nat) (upper : Bool) : String :=
  let digits := hexDigits upper n
  String.ofList (List.replicate (width - digits.length) '0' ++ digits)

/-- Two digits for each byte. -/
def hexOfBytes (bytes : List UInt8) : String :=
  String.join (bytes.map fun b => hex 2 b.toNat false)

def ofHexDigit? (c : Char) : Option Nat :=
  if '0' ≤ c ∧ c ≤ '9' then some (c.toNat - '0'.toNat)
  else if 'a' ≤ c ∧ c ≤ 'f' then some (c.toNat - 'a'.toNat + 10)
  else none

/-- The number that lower-case digits stand for. -/
def ofHex? (digits : List Char) : Option Nat :=
  digits.foldlM (fun n c => (ofHexDigit? c).map (16 * n + ·)) 0

/-- The bytes that pairs of digits stand for. -/
def bytesOfHex? : List Char → Option (List UInt8)
  | [] => some []
  | [_] => none
  | high :: low :: rest => do
    let byte ← ofHex? [high, low]
    return byte.toUInt8 :: (← bytesOfHex? rest)

end RemoteCall.Text
