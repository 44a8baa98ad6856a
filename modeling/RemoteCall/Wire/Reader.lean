import RemoteCall.Wire.NameTable
import RemoteCall.Wire.StringBody
import RemoteCall.Schema.Registry

/-!
# Readers

A reader consumes bytes from the front of its input. What it learns on the way, names and
resolutions of signatures, stays learned when it fails.
-/

namespace RemoteCall.Wire

structure ReadState where
  names : NameTable
  registry : Registry
  input : List UInt8
deriving Repr

abbrev Reader := EStateM Failure ReadState

namespace Reader

def corrupted {α : Type} (cause : Corruption) : Reader α := throw (.streamCorrupted cause)

/-- The next `n` bytes, which the message of a failure calls `what`. -/
def bytes (what : String) (n : Nat) : Reader (List UInt8) := fun s =>
  let front := s.input.take n
  if front.length < n then
    .error (.streamCorrupted (.truncated what n s.input.length)) s
  else .ok front { s with input := s.input.drop n }

/-- The lead byte of a value. -/
def lead : Reader UInt8 := fun s =>
  match s.input with
  | [] => .error (.streamCorrupted (.truncated "value" 1 0)) s
  | b :: rest => .ok b { s with input := rest }

/-- The tag a byte stands for. -/
def tagOf (byte : UInt8) : Reader Tag :=
  if byte ≤ Tag.maxLiteral then corrupted (.literalForTag byte)
  else
    match Tag.ofByte? byte with
    | some t => pure t
    | none => corrupted (.unknownTag byte)

def bigEndian (what : String) (width : Nat) : Reader Nat := do
  return ofBigEndian (← bytes what width)

def int8 : Reader Int8 := do return (← bigEndian "byte" 1).toUInt8.toInt8

def int16 : Reader Int16 := do return (← bigEndian "short" 2).toUInt16.toInt16

def int32 : Reader Int32 := do return (← bigEndian "int" 4).toUInt32.toInt32

def int64 : Reader Int64 := do return (← bigEndian "long" 8).toUInt64.toInt64

def binary32 : Reader Binary32 := do return .ofPattern (← bigEndian "float" 4)

def binary64 : Reader Binary64 := do return .ofPattern (← bigEndian "double" 8)

def unit16 : Reader UInt16 := do return (← bigEndian "char" 2).toUInt16

def bool : Reader Bool := do
  match ← tagOf (← lead) with
  | .boolTrue => return true
  | .boolFalse => return false
  | other => corrupted (.unexpectedTag "a boolean" other)

/-- The number behind a tag, as an integer. -/
def numberPayload : Tag → Reader Int64
  | .signed1 => do return (← int8).toInt64
  | .signed2 => do return (← int16).toInt64
  | .signed4 => do return (← int32).toInt64
  | .signed8 => int64
  | .float4 => do return (← binary32).toInt64
  | .float8 => do return (← binary64).toInt64
  | .char => do return Int64.ofNat (← unit16).toNat
  | other => corrupted (.unexpectedTag "a number" other)

/-- Any encoding of a number, as an integer. -/
def number : Reader Int64 := do
  let byte ← lead
  if byte ≤ Tag.maxLiteral then return Int64.ofNat byte.toNat
  else numberPayload (← tagOf byte)

/-- Any encoding of a number, as a floating point number. -/
def float : Reader Binary64 := do
  let byte ← lead
  if byte ≤ Tag.maxLiteral then return .ofInt byte.toNat
  else
    match ← tagOf byte with
    | .float4 => return (← binary32).toBinary64
    | .float8 => binary64
    | other => return .ofInt64 (← numberPayload other)

def maxLength : Nat := 0x7FFFFFFF

/-- A length or a count. -/
def length : Reader Nat := do
  let n := (← number).toInt
  if 0 ≤ n ∧ n ≤ maxLength then return n.toNat else corrupted (.invalidLength n)

def stringBody : Reader String := do
  let block ← bytes "string" (← length)
  let wide ← bytes "string" (2 * block.count wideMark)
  match Text.Utf16.chars? (mergeBlocks block wide) with
  | some cs => return String.ofList cs
  | none => corrupted .unpairedSurrogate

def byteData : Reader (List UInt8) := do bytes "bytes" (← length)

/-- The name behind the lead tag of an interned name. -/
def nameBody : Reader String := do
  let index := (← number).toInt
  let names := (← get).names
  match (if 0 ≤ index then names.name? index.toNat else none) with
  | some name => return name
  | none =>
    if index = names.size then
      let name ← stringBody
      modify fun s => { s with names := s.names.push name }
      return name
    else corrupted (.nameOutOfRange index names.size)

def name : Reader String := do
  match ← tagOf (← lead) with
  | .tag => nameBody
  | other => corrupted (.unexpectedTag "a tag" other)

/-- The results of so many runs of a reader. -/
def times {α : Type} (reader : Reader α) : Nat → Reader (List α)
  | 0 => pure []
  | n + 1 => do
    let a ← reader
    let rest ← times reader n
    return a :: rest

def pair {α β : Type} (first : Reader α) (second : Reader β) : Reader (α × β) := do
  let a ← first
  let b ← second
  return (a, b)

/-- Runs what can fail without reading. -/
def ofExcept {α : Type} : Except Failure α → Reader α
  | .ok a => pure a
  | .error f => throw f

def resolve (signature : String) : Reader WireLayout := fun s =>
  match s.registry.resolve signature with
  | (.ok layout, registry) => .ok layout { s with registry := registry }
  | (.error f, registry) => .error f { s with registry := registry }

end Reader

end RemoteCall.Wire
