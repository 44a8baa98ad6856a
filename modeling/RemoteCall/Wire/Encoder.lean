import RemoteCall.Wire.Writer
import RemoteCall.Schema.Registry

/-!
# Encoding of values

Every value is a lead byte and its payload. Strings inside collections and as keys are interned,
and so are the names of types and constants. A record is its interned signature and its fields: a
record of a registered type is written in the order of the type, primitive fields without a lead
tag; a record of an unknown type is written with the fields it has.
-/

namespace RemoteCall.Wire

/-- A string value is interned, any other value is written by its own writer. -/
def keyOr (plain : Writer) : Value → Writer
  | .string s => .name s
  | _ => plain

def charWriter (c : Char) : Writer :=
  if c.toNat ≤ 0xFFFF then .emit (tagged .char (bigEndian 2 c.toNat))
  else .fail (.notSerializable (.charBeyondUnit c))

def intBytes (n : Int32) : List UInt8 :=
  if 0 ≤ n.toInt ∧ n.toInt ≤ 127 then [n.toUInt32.toUInt8] else int32Bytes n

/-- A field of a registered type. `written` holds a writer for each field of the record. -/
def fieldWriter (r : Record) (written : RecordOf Writer) (f : Field) : Writer :=
  match f.kind with
  | .bool => .ofExcept boolBytes (f.getBool r)
  | .float | .double => .ofExcept floatBytes (f.getFloat r)
  | .object => (written.slot? f.index f.name).getD (.emit [Tag.null.byte])
  | .byte | .short | .char | .int | .long => .ofExcept numberBytes (f.getInt r)

def fieldWriters (r : Record) (written : RecordOf Writer) : List Field → Writer
  | [] => .nothing
  | f :: fs => fieldWriter r written f ++ fieldWriters r written fs

def sequenceOf : List (String × Writer) → Writer
  | [] => .nothing
  | (_, w) :: ws => w ++ sequenceOf ws

/-- Signature and fields of a record, given a writer for each of its fields. -/
def recordWriter (g : Registry) (r : Record) (written : List (String × Writer)) : Writer :=
  match g.lookup? r.typeName with
  | some t => .name t.signature ++ fieldWriters r ⟨r.typeName, written⟩ t.fields
  | none => .name (signatureOf r.typeName r.names) ++ sequenceOf written

variable (g : Registry)

mutual

def valueWriter : Value → Writer
  | .null => .emit [Tag.null.byte]
  | .bool b => .emit (boolBytes b)
  | .byte n => .emit (int8Bytes n)
  | .short n => .emit (int16Bytes n)
  | .int n => .emit (intBytes n)
  | .long n => .emit (int64Bytes n)
  | .float x => .emit (binary32Bytes x)
  | .double x => .emit (binary64Bytes x)
  | .char c => charWriter c
  | .string s => .emit (tagged .string (stringBody s))
  | .array component items =>
    .emit (tagged .array (countBytes items.length)) ++ (.name component ++ itemsWriter items)
  | .list items => .emit (tagged .list (countBytes items.length)) ++ keysWriter items
  | .set items => .emit (tagged .set (countBytes items.length)) ++ keysWriter items
  | .map entries => .emit (tagged .map (countBytes entries.length)) ++ entriesWriter entries
  | .entry key value =>
    .emit [Tag.entry.byte] ++ (keyOr (valueWriter key) key ++ valueWriter value)
  | .enum e => .emit [Tag.enum.byte] ++ .name e.wireName
  | .record ⟨typeName, fields⟩ =>
    .emit [Tag.record.byte] ++ recordWriter g ⟨typeName, fields⟩ (namedWriters fields)
  | .bytes data => .emit (tagged .bytes (countBytes data.length ++ data))
  | .typeByName name => .emit [Tag.className.byte] ++ .name name
  | .typeBySignature signature => .emit [Tag.fieldSignature.byte] ++ .name signature
  | .foreign data => .emit (tagged .foreign (countBytes data.length ++ data))
termination_by structural v => v

/-- The items of an array, whose strings are not interned. -/
def itemsWriter : List Value → Writer
  | [] => .nothing
  | v :: vs => valueWriter v ++ itemsWriter vs
termination_by structural vs => vs

/-- The items of a list or a set, whose strings are interned. -/
def keysWriter : List Value → Writer
  | [] => .nothing
  | v :: vs => keyOr (valueWriter v) v ++ keysWriter vs
termination_by structural vs => vs

def entriesWriter : List (Value × Value) → Writer
  | [] => .nothing
  | (k, v) :: vs => keyOr (valueWriter k) k ++ (valueWriter v ++ entriesWriter vs)
termination_by structural vs => vs

def namedWriters : List (String × Value) → List (String × Writer)
  | [] => []
  | (name, v) :: vs => (name, valueWriter v) :: namedWriters vs
termination_by structural vs => vs

end

/-- An array with a named component type. -/
def arrayWriter (component : String) (items : List Value) : Writer :=
  valueWriter g (.array component items)

/-- A record without its lead tag. -/
def recordBodyWriter (r : Record) : Writer := recordWriter g r (namedWriters g r.fields)

end RemoteCall.Wire
