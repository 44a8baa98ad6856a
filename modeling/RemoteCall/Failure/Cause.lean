import RemoteCall.Schema.FieldKind
import RemoteCall.Wire.Tag
import RemoteCall.Decimal.Reading
import RemoteCall.Text.Hex

/-!
# Causes of failures

Received bytes can be no frame, no value or no header; a value can have no encoded form; a text can
be no address. Each reason is a constructor with what its message mentions. A reason that someone
else put into words is `stated`.
-/

namespace RemoteCall

/-- Why received bytes are not understood. -/
inductive Corruption where
  | truncated (what : String) (needed left : Nat)
  | literalForTag (byte : UInt8)
  | unknownTag (byte : UInt8)
  | unexpectedTag (wanted : String) (found : Tag)
  | unexpectedValue (wanted found : String)
  | invalidLength (length : Int)
  | nameOutOfRange (index : Int) (known : Nat)
  | unpairedSurrogate
  | loneSurrogate (unit : UInt16)
  | nestedTooDeeply
  | enumWithoutVariant (name : String)
  | signatureWithoutType (signature : String)
  | notSynchronous (sequence : UInt64)
  | invalidFrameLength (length max : Nat)
  | headerKey (found : String)
  | stated (text : String)
deriving DecidableEq, Repr

def Corruption.message : Corruption → String
  | .truncated what needed left => s!"truncated {what}: need {needed} bytes, {left} left"
  | .literalForTag byte => "expected a tag, got literal " ++ Nat.repr byte.toNat
  | .unknownTag byte => "unknown tag byte 0x" ++ Text.hex 2 byte.toNat false
  | .unexpectedTag wanted found => s!"expected {wanted}, got " ++ found.name
  | .unexpectedValue wanted found => s!"expected {wanted}, got {found}"
  | .invalidLength length => s!"invalid length {length}"
  | .nameOutOfRange index known => s!"tag index {index} out of range, {known} known"
  | .unpairedSurrogate => "bad string: invalid utf-16: lone surrogate found"
  | .loneSurrogate unit => "lone surrogate 0x" ++ Text.hex 4 unit.toNat false
  | .nestedTooDeeply => "values nested too deeply"
  | .enumWithoutVariant name => s!"enum name '{name}' has no variant"
  | .signatureWithoutType signature => s!"record signature '{signature}' has no type"
  | .notSynchronous sequence => s!"expected a synchronous reply, got sequence {sequence}"
  | .invalidFrameLength length max => s!"invalid frame length {length} (max {max} bytes)"
  | .headerKey found => s!"header key must be a String, got {found}"
  | .stated text => text

/-- Why a value cannot be written. -/
inductive Unserializable where
  | charBeyondUnit (c : Char)
  | wrongKind (typeName field : String) (kind : FieldKind) (found : String)
  | charFieldTooWide (typeName field : String) (c : Char)
  | notACharUnit (typeName field : String) (n : Int)
  | stated (text : String)
deriving DecidableEq, Repr

def Unserializable.message : Unserializable → String
  | .charBeyondUnit c =>
    "char U+" ++ Text.hex 4 c.toNat true ++ " does not fit in one UTF-16 unit"
  | .wrongKind typeName field kind found =>
    s!"{typeName}.{field} is " ++ kind.title ++ s!" but holds {found}"
  | .charFieldTooWide typeName field c =>
    s!"{typeName}.{field}: char U+" ++ Text.hex 1 c.toNat true ++ " does not fit 16 bits"
  | .notACharUnit typeName field n => s!"{typeName}.{field}: {n} is not a 16-bit char"
  | .stated text => text

/-- Why a text names no endpoints. -/
inductive AddressFault where
  | badPort (entry : String) (fault : IntegerFault)
  | noEndpoints (text : String)
  | unconfigured
  | stated (text : String)
deriving DecidableEq, Repr

def AddressFault.message : AddressFault → String
  | .badPort entry fault => s!"'{entry}': " ++ fault.message
  | .noEndpoints text => s!"'{text}' lists no endpoints"
  | .unconfigured => "no endpoints configured"
  | .stated text => text

end RemoteCall
