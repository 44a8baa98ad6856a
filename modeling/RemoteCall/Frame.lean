import RemoteCall.Failure.Basic
import RemoteCall.Wire.Bytes

/-!
# Frames

A frame is a length of four bytes, which counts itself, then a body, then zeros up to the smallest
frame size. A reader can therefore take the first block of any frame in one go.
-/

namespace RemoteCall.Frame

open Wire

def lengthBytes : Nat := 4

def minSize : Nat := 256

/-- The lengths that the bytes of a length can hold are below this. -/
def lengthLimit : Nat := 0x100000000

def defaultMaxSize : Nat := 1024 * 1024

/-- The bytes sent for a body, and the length in front of them. -/
structure Sealed where
  length : Nat
  bytes : List UInt8
deriving DecidableEq, Repr

/-- The length of the frame of a body. -/
def lengthOf (body : List UInt8) : Nat := lengthBytes + body.length

def padding (length : Nat) : List UInt8 := List.replicate (minSize - length) 0

/-- Puts length and padding around a body, unless the frame would exceed the maximum. -/
def close (max : Nat) (body : List UInt8) : Except Failure Sealed :=
  let length := lengthOf body
  if max < length then .error (.messageTooLarge length max)
  else .ok ⟨length, bigEndian lengthBytes length ++ body ++ padding length⟩

/-- The length a received frame begins with. -/
def readLength (max : Nat) (front : List UInt8) : Except Failure Nat :=
  let length := ofBigEndian (front.take lengthBytes)
  if length < lengthBytes ∨ max < length then
    .error (.streamCorrupted (.invalidFrameLength length max))
  else .ok length

end RemoteCall.Frame
