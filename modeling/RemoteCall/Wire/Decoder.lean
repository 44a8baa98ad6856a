import RemoteCall.Wire.Reader

/-!
# Decoding of values

The readers here take a reader for the values inside a value. A value is read with a budget of
levels, one less for the values inside it, so that reading ends on every input and refuses values
nested too deeply.
-/

namespace RemoteCall.Wire

/-- The deepest nesting a decoder accepts. -/
def maxNesting : Nat := 256

namespace Reader

/-- A value that has to be a string, interned or not. -/
def stringIn (value : Reader Value) : Reader String := do
  match ← value with
  | .string s => return s
  | other => corrupted (.unexpectedValue "a String" other.label)

/-- A value that has to be an array. -/
def arrayIn (value : Reader Value) : Reader (String × List Value) := do
  match ← value with
  | .array component items => return (component, items)
  | other => corrupted (.unexpectedValue "an array" other.label)

def char : Reader Char := do
  let unit ← unit16
  match Text.Utf16.unitChar? unit with
  | some c => return c
  | none => corrupted (.loneSurrogate unit)

/-- The constant whose type and variant stand before and after the first space. -/
def enumName (wireName : String) : Reader EnumName :=
  match Text.splitFirst? ' ' wireName with
  | some (typeName, variant) => pure ⟨typeName, variant⟩
  | none => corrupted (.enumWithoutVariant wireName)

/-- Reads a field of a registered type into a record. -/
def intoField (value : Reader Value) (f : Field) (r : Record) : Reader Record :=
  match f.kind with
  | .bool => do return f.setBool r (← bool)
  | .float | .double => do ofExcept (f.setFloat r (← float))
  | .object => do return f.set r (← value)
  | .byte | .short | .char | .int | .long => do ofExcept (f.setInt r (← number))

/-- Reads what a slot of a layout holds: into its field, into a new field if the type is unknown,
and to no effect if only the field is unknown. -/
def intoSlot (value : Reader Value) (isDynamic : Bool) (r : Record) :
    String × Option Field → Reader Record
  | (_, some f) => intoField value f r
  | (name, none) => do
    let v ← value
    return if isDynamic then r.push name v else r

/-- A record without its lead tag. -/
def recordBody (value : Reader Value) : Reader Record := do
  let layout ← resolve (← stringIn value)
  layout.slots.foldlM (intoSlot value layout.isDynamic) layout.blank

/-- The value behind a tag. -/
def payload (value : Reader Value) : Tag → Reader Value
  | .null => return .null
  | .boolTrue => return .bool true
  | .boolFalse => return .bool false
  | .signed1 => return .byte (← int8)
  | .signed2 => return .short (← int16)
  | .signed4 => return .int (← int32)
  | .signed8 => return .long (← int64)
  | .float4 => return .float (← binary32)
  | .float8 => return .double (← binary64)
  | .char => return .char (← char)
  | .array => do
    let count ← length
    let component ← stringIn value
    return .array component (← times value count)
  | .string => return .string (← stringBody)
  | .tag => return .string (← nameBody)
  | .list => do return .list (← times value (← length))
  | .set => do return .set (← times value (← length))
  | .map => do return .map (← times (pair value value) (← length))
  | .entry => do
    let key ← value
    return .entry key (← value)
  | .enum => do return .enum (← enumName (← stringIn value))
  | .record => return .record (← recordBody value)
  | .bytes => return .bytes (← byteData)
  | .className => return .typeByName (← stringIn value)
  | .fieldSignature => return .typeBySignature (← stringIn value)
  | .foreign => return .foreign (← byteData)

/-- A value nested at most `budget` levels deep. -/
def value : Nat → Reader Value
  | 0 => corrupted .nestedTooDeeply
  | budget + 1 => do
    let byte ← lead
    if byte ≤ Tag.maxLiteral then return .int (Int32.ofNat byte.toNat)
    else payload (value budget) (← tagOf byte)

def string (budget : Nat) : Reader String := stringIn (value budget)

def array (budget : Nat) : Reader (String × List Value) := arrayIn (value budget)

def record (budget : Nat) : Reader Record := recordBody (value budget)

end Reader

end RemoteCall.Wire
