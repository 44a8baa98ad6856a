/-!
# UTF-16 units

A character of the basic plane is one unit, any other a high surrogate followed by a low one.
A sequence of units is a text when no surrogate stands unpaired.
-/

namespace RemoteCall.Text.Utf16

def isHigh (u : UInt16) : Bool := 0xD800 ≤ u && u < 0xDC00

def isLow (u : UInt16) : Bool := 0xDC00 ≤ u && u < 0xE000

def isSurrogate (u : UInt16) : Bool := isHigh u || isLow u

def unitsOfChar (c : Char) : List UInt16 :=
  if c.toNat < 0x10000 then [c.toNat.toUInt16]
  else
    let offset := c.toNat - 0x10000
    [(0xD800 + offset / 0x400).toUInt16, (0xDC00 + offset % 0x400).toUInt16]

def units (cs : List Char) : List UInt16 := cs.flatMap unitsOfChar

/-- The character of a surrogate pair. -/
def pairChar (high low : UInt16) : Char :=
  Char.ofNat (0x10000 + (high.toNat - 0xD800) * 0x400 + (low.toNat - 0xDC00))

/-- The character of a unit that is no surrogate. -/
def unitChar? (u : UInt16) : Option Char :=
  if isSurrogate u then none else some (Char.ofNat u.toNat)

def chars? : List UInt16 → Option (List Char)
  | [] => some []
  | [u] => (unitChar? u).map ([·])
  | u :: v :: rest =>
    if isHigh u && isLow v then
      match chars? rest with
      | some cs => some (pairChar u v :: cs)
      | none => none
    else
      match unitChar? u, chars? (v :: rest) with
      | some c, some cs => some (c :: cs)
      | _, _ => none

end RemoteCall.Text.Utf16
