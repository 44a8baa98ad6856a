import RemoteCall.Wire.Tag
import RemoteCall.Wire.Bytes
import RemoteCall.Ieee.Binary

/-!
# Compact numbers

An integer is written in the fewest bytes that hold it: a literal, or a tag and one, two, four or
eight bytes. A floating point number that is an integer of at most 32 bits is written as one, any
other in four bytes when they lose nothing and in eight bytes otherwise.
-/

namespace RemoteCall.Wire

def tagged (t : Tag) (payload : List UInt8) : List UInt8 := t.byte :: payload

def int8Bytes (n : Int8) : List UInt8 := tagged .signed1 (bigEndian 1 n.toUInt8.toNat)

def int16Bytes (n : Int16) : List UInt8 := tagged .signed2 (bigEndian 2 n.toUInt16.toNat)

def int32Bytes (n : Int32) : List UInt8 := tagged .signed4 (bigEndian 4 n.toUInt32.toNat)

def int64Bytes (n : Int64) : List UInt8 := tagged .signed8 (bigEndian 8 n.toUInt64.toNat)

def binary32Bytes (x : Binary32) : List UInt8 := tagged .float4 (bigEndian 4 x.bits.toNat)

def binary64Bytes (x : Binary64) : List UInt8 := tagged .float8 (bigEndian 8 x.bits.toNat)

def boolBytes (b : Bool) : List UInt8 := [(if b then Tag.boolTrue else Tag.boolFalse).byte]

def numberBytes (n : Int64) : List UInt8 :=
  if 0 ≤ n.toInt ∧ n.toInt ≤ 127 then [n.toUInt64.toUInt8]
  else if fitsWidth 8 n.toInt then int8Bytes n.toInt8
  else if fitsWidth 16 n.toInt then int16Bytes n.toInt16
  else if fitsWidth 32 n.toInt then int32Bytes n.toInt32
  else int64Bytes n

def countBytes (n : Nat) : List UInt8 := numberBytes (Int64.ofNat n)

/-- The number is an integer of that width, which is then its integer part. -/
def isIntegerOfWidth (bits : Nat) (x : Binary64) : Bool := x.equal (.ofInt (x.truncate bits))

def floatBytes (x : Binary64) : List UInt8 :=
  if isIntegerOfWidth 8 x then numberBytes (Int64.ofInt (x.truncate 8))
  else if isIntegerOfWidth 16 x then int16Bytes (Int16.ofInt (x.truncate 16))
  else if isIntegerOfWidth 32 x then int32Bytes (Int32.ofInt (x.truncate 32))
  else if x.equal x.toBinary32.toBinary64 then binary32Bytes x.toBinary32
  else binary64Bytes x

end RemoteCall.Wire
