import RemoteCall.Ieee.Format

/-!
# 32-bit and 64-bit floating point numbers

Both types are their bit patterns, so equality of numbers is equality of bits: a NaN equals
itself and the two zeros differ. The comparison of the IEEE standard is `equal`.
-/

namespace RemoteCall

structure Binary32 where
  bits : UInt32
deriving DecidableEq, Repr

structure Binary64 where
  bits : UInt64
deriving DecidableEq, Repr

open Ieee

namespace Binary32

def datum (x : Binary32) : Datum := Format.single.decode x.bits.toNat

def ofPattern (pattern : Nat) : Binary32 := ⟨pattern.toUInt32⟩

def zero : Binary32 := ⟨0⟩

def isNaN (x : Binary32) : Bool :=
  Format.single.infinity < x.bits.toNat % Format.single.signWeight

def isZero (x : Binary32) : Bool := x.bits.toNat % Format.single.signWeight = 0

/-- Equality as the standard has it: NaN equals nothing and the zeros equal each other. -/
def equal (x y : Binary32) : Bool :=
  !x.isNaN && !y.isNaN && (x.bits == y.bits || (x.isZero && y.isZero))

def toBinary64 (x : Binary32) : Binary64 :=
  ⟨(Format.double.ofDatum Format.single x.datum).toUInt64⟩

def toInt64 (x : Binary32) : Int64 := Int64.ofInt (x.datum.truncate 64)

end Binary32

namespace Binary64

def datum (x : Binary64) : Datum := Format.double.decode x.bits.toNat

def ofPattern (pattern : Nat) : Binary64 := ⟨pattern.toUInt64⟩

def zero : Binary64 := ⟨0⟩

def isNaN (x : Binary64) : Bool :=
  Format.double.infinity < x.bits.toNat % Format.double.signWeight

def isZero (x : Binary64) : Bool := x.bits.toNat % Format.double.signWeight = 0

def isInfinite (x : Binary64) : Bool :=
  x.bits.toNat % Format.double.signWeight = Format.double.infinity

def isFinite (x : Binary64) : Bool :=
  x.bits.toNat % Format.double.signWeight < Format.double.infinity

/-- Equality as the standard has it: NaN equals nothing and the zeros equal each other. -/
def equal (x y : Binary64) : Bool :=
  !x.isNaN && !y.isNaN && (x.bits == y.bits || (x.isZero && y.isZero))

/-- The nearest 32-bit number. -/
def toBinary32 (x : Binary64) : Binary32 :=
  ⟨(Format.single.ofDatum Format.double x.datum).toUInt32⟩

/-- The integer part, as a signed integer of so many bits. -/
def truncate (x : Binary64) (bits : Nat) : Int := x.datum.truncate bits

def toInt64 (x : Binary64) : Int64 := Int64.ofInt (x.truncate 64)

def ofInt (n : Int) : Binary64 := ofPattern (Format.double.ofInt n)

def ofInt64 (n : Int64) : Binary64 := ofInt n.toInt

def negate (x : Binary64) : Binary64 := ⟨x.bits ^^^ 0x8000000000000000⟩

/-- The number nearest to `significand * 10 ^ exponent`, which is infinite past the largest. -/
def ofDecimal (negative : Bool) (significand : Nat) (exponent : Int) : Binary64 :=
  ofPattern (Format.double.withSign negative (Format.double.ofDecimal significand exponent))

end Binary64

namespace Binary32

/-- The nearest 32-bit number to an integer. -/
def ofInt64 (n : Int64) : Binary32 := ofPattern (Format.single.ofInt n.toInt)

end Binary32

end RemoteCall
