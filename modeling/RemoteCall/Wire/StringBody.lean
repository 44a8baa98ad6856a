import RemoteCall.Wire.Number
import RemoteCall.Text.Utf16

/-!
# The two-part layout of strings

A string is its number of UTF-16 units, a block of one byte for each unit, and then two bytes for
each unit that one byte below 255 cannot hold; in the block such a unit is the byte 255.
-/

namespace RemoteCall.Wire

/-- The byte that stands in the block for a unit written behind it. -/
def wideMark : UInt8 := 0xFF

def isWide (u : UInt16) : Bool := wideMark.toUInt16 ≤ u

def unitByte (u : UInt16) : UInt8 := if isWide u then wideMark else u.toUInt8

def unitBlock (units : List UInt16) : List UInt8 := units.map unitByte

def wideBlock (units : List UInt16) : List UInt8 :=
  (units.filter isWide).flatMap fun u => bigEndian 2 u.toNat

def stringUnits (s : String) : List UInt16 := Text.Utf16.units s.toList

def stringBody (s : String) : List UInt8 :=
  let units := stringUnits s
  countBytes units.length ++ (unitBlock units ++ wideBlock units)

/-- The units of a block, each mark replaced by the next unit of the wide block. -/
def mergeBlocks : List UInt8 → List UInt8 → List UInt16
  | [], _ => []
  | b :: bs, wide =>
    if b = wideMark then
      match wide with
      | high :: low :: wide => (ofBigEndian [high, low]).toUInt16 :: mergeBlocks bs wide
      | _ => []
    else b.toUInt16 :: mergeBlocks bs wide

end RemoteCall.Wire
