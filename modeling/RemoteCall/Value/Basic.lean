import RemoteCall.Ieee.Binary

/-!
# Values

A value is what travels between peers: an argument, a result or a header entry. Each integer width
is a constructor of its own, so a value keeps the width it was written with. A record has a type
name and named fields in order. Maps keep the order of their entries and may repeat a key.
-/

namespace RemoteCall

/-- A type name with named fields in order. -/
structure RecordOf (α : Type) where
  typeName : String
  fields : List (String × α)
deriving DecidableEq, Repr

/-- An enum constant. -/
structure EnumName where
  typeName : String
  variant : String
deriving DecidableEq, Repr

inductive Value where
  | null
  | bool (b : Bool)
  | byte (n : Int8)
  | short (n : Int16)
  | int (n : Int32)
  | long (n : Int64)
  | float (x : Binary32)
  | double (x : Binary64)
  | char (c : Char)
  | string (s : String)
  | array (component : String) (items : List Value)
  | list (items : List Value)
  | set (items : List Value)
  | map (entries : List (Value × Value))
  | entry (key value : Value)
  | enum (name : EnumName)
  | record (record : RecordOf Value)
  | bytes (data : List UInt8)
  | typeByName (name : String)
  | typeBySignature (signature : String)
  | foreign (data : List UInt8)
deriving Inhabited

abbrev Record := RecordOf Value

namespace RecordOf

variable {α : Type}

def empty (typeName : String) : RecordOf α := ⟨typeName, []⟩

def names (r : RecordOf α) : List String := r.fields.map Prod.fst

/-- The value of the first field of that name. -/
def fieldValue? (name : String) : List (String × α) → Option α
  | [] => none
  | (n, v) :: rest => if n = name then some v else fieldValue? name rest

/-- The first field of that name gets the value; without one, a field is added at the end. -/
def putField (name : String) (value : α) : List (String × α) → List (String × α)
  | [] => [(name, value)]
  | (n, v) :: rest => if n = name then (n, value) :: rest else (n, v) :: putField name value rest

/-- The fields without the first one of that name. -/
def dropField (name : String) : List (String × α) → List (String × α)
  | [] => []
  | (n, v) :: rest => if n = name then rest else (n, v) :: dropField name rest

def get? (r : RecordOf α) (name : String) : Option α := fieldValue? name r.fields

def set (r : RecordOf α) (name : String) (value : α) : RecordOf α :=
  { r with fields := putField name value r.fields }

/-- Removes a field, returning its value. -/
def take (r : RecordOf α) (name : String) : Option α × RecordOf α :=
  (r.get? name, { r with fields := dropField name r.fields })

def push (r : RecordOf α) (name : String) (value : α) : RecordOf α :=
  { r with fields := r.fields ++ [(name, value)] }

/-- The field at a position if it has that name there, else the field of that name. -/
def slot? (r : RecordOf α) (index : Nat) (name : String) : Option α :=
  match r.fields[index]? with
  | some (n, v) => if n = name then some v else r.get? name
  | none => r.get? name

/-- Writes the field at a position if it has that name there, else the field of that name. -/
def setSlot (r : RecordOf α) (index : Nat) (name : String) (value : α) : RecordOf α :=
  match r.fields[index]? with
  | some (n, _) =>
    if n = name then { r with fields := r.fields.set index (n, value) } else r.set name value
  | none => r.set name value

end RecordOf

namespace EnumName

/-- The form in which the constant is interned: type and variant with a space between. -/
def wireName (e : EnumName) : String := e.typeName ++ " " ++ e.variant

end EnumName

namespace Value

/-- The component name of arrays without a more specific one. -/
def anyComponent : String := "any"

/-- The name of the kind of value, as error texts have it. -/
def label : Value → String
  | .null => "null"
  | .bool _ => "boolean"
  | .byte _ => "byte"
  | .short _ => "short"
  | .int _ => "int"
  | .long _ => "long"
  | .float _ => "float"
  | .double _ => "double"
  | .char _ => "char"
  | .string _ => "String"
  | .array _ _ => "array"
  | .list _ => "List"
  | .set _ => "Set"
  | .map _ => "Map"
  | .entry _ _ => "Map.Entry"
  | .enum _ => "enum"
  | .record _ => "pojo"
  | .bytes _ => "byte[]"
  | .typeByName _ => "Class"
  | .typeBySignature _ => "type"
  | .foreign _ => "serialized"

def isNull : Value → Bool
  | .null => true
  | _ => false

def isRecord : Value → Bool
  | .record _ => true
  | _ => false

def isNumber : Value → Bool
  | .byte _ | .short _ | .int _ | .long _ | .float _ | .double _ => true
  | _ => false

/-- The integer a numeric value or a character stands for, floats truncated toward zero. -/
def toInt64? : Value → Option Int64
  | .byte n => some n.toInt64
  | .short n => some n.toInt64
  | .int n => some n.toInt64
  | .long n => some n
  | .float x => some x.toInt64
  | .double x => some x.toInt64
  | .char c => some (Int64.ofNat c.toNat)
  | _ => none

def toBinary64? : Value → Option Binary64
  | .float x => some x.toBinary64
  | .double x => some x
  | v => v.toInt64?.map Binary64.ofInt64

def string? : Value → Option String
  | .string s => some s
  | _ => none

def bool? : Value → Option Bool
  | .bool b => some b
  | _ => none

def record? : Value → Option Record
  | .record r => some r
  | _ => none

end Value

/-- The fields of a record as a map with string keys. -/
def RecordOf.asMap (r : Record) : Value :=
  .map (r.fields.map fun (name, value) => (.string name, value))

end RemoteCall
