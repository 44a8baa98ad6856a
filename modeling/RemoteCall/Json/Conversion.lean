import RemoteCall.Json.Reader
import RemoteCall.Json.Printer
import RemoteCall.Value.Display

/-!
# JSON and values

JSON has fewer types than values have. An integer becomes the narrowest of `int` and `long` that
holds it, and an object with a string under `@type` becomes a record of that type. In the other
direction characters and names become strings, byte data becomes an array of numbers, and a map
whose keys are not all strings becomes an array of pairs.
-/

namespace RemoteCall

namespace Json

/-- The key under which an object names its record type. -/
def typeKey : String := "@type"

def numberValue : JsonNumber → Value
  | .integer n =>
    if fitsWidth 32 n then .int (Int32.ofInt n)
    else if fitsWidth 64 n then .long (Int64.ofInt n)
    else .double (.ofInt n)
  | .real x => .double x

/-- The value of an object whose members have these values. -/
def objectValue (members : List (String × Json)) (values : List (String × Value)) : Value :=
  match members.lookup typeKey with
  | some (.string typeName) =>
    .record ((values.filter (·.1 != typeKey)).foldl (fun r (name, v) => r.set name v)
      (RecordOf.empty typeName))
  | _ => .map (values.map fun (name, v) => (.string name, v))

mutual

def toValue : Json → Value
  | .null => .null
  | .bool b => .bool b
  | .number n => numberValue n
  | .string s => .string s
  | .array items => .list (itemValues items)
  | .object members => objectValue members (memberValues members)
termination_by structural j => j

def itemValues : List Json → List Value
  | [] => []
  | j :: js => toValue j :: itemValues js
termination_by structural js => js

def memberValues : List (String × Json) → List (String × Value)
  | [] => []
  | (key, j) :: js => (key, toValue j) :: memberValues js
termination_by structural js => js

end

def ofInt (n : Int) : Json := .number (.integer n)

/-- A number, or null for what is no number. -/
def ofBinary64 (x : Binary64) : Json := if x.isFinite then .number (.real x) else .null

def ofBytes (data : List UInt8) : Json := .array (data.map fun b => ofInt b.toNat)

/-- The keys of a map, if all of them are strings. -/
def stringKeys? : List (Value × Value) → Option (List String)
  | [] => some []
  | (.string key, _) :: rest => (stringKeys? rest).map (key :: ·)
  | _ :: _ => none

/-- A map with its keys and values converted. -/
def ofEntries (entries : List (Value × Value)) (converted : List (Json × Json)) : Json :=
  match stringKeys? entries with
  | some keys => .object (sortMembers (keys.zip (converted.map Prod.snd)))
  | none => .array (converted.map fun (key, value) => .array [key, value])

end Json

namespace Value

open Json (ofInt ofBinary64 ofBytes ofEntries sortMembers typeKey)

mutual

def toJson : Value → Json
  | .null => .null
  | .bool b => .bool b
  | .byte n => ofInt n.toInt
  | .short n => ofInt n.toInt
  | .int n => ofInt n.toInt
  | .long n => ofInt n.toInt
  | .float x => ofBinary64 x.toBinary64
  | .double x => ofBinary64 x
  | .char c => .string (String.ofList [c])
  | .string s => .string s
  | .array _ items => .array (itemsToJson items)
  | .list items => .array (itemsToJson items)
  | .set items => .array (itemsToJson items)
  | .map entries => ofEntries entries (entriesToJson entries)
  | .entry key value => .object [("key", toJson key), ("value", toJson value)]
  | .enum e => .string e.variant
  | .record ⟨typeName, fields⟩ =>
    .object (sortMembers ((typeKey, .string typeName) :: fieldsToJson fields))
  | .bytes data => ofBytes data
  | .typeByName name => .string name
  | .typeBySignature signature => .string signature
  | .foreign data => ofBytes data
termination_by structural v => v

def itemsToJson : List Value → List Json
  | [] => []
  | v :: vs => toJson v :: itemsToJson vs
termination_by structural vs => vs

def entriesToJson : List (Value × Value) → List (Json × Json)
  | [] => []
  | (k, v) :: vs => (toJson k, toJson v) :: entriesToJson vs
termination_by structural vs => vs

def fieldsToJson : List (String × Value) → List (String × Json)
  | [] => []
  | (name, v) :: vs => (name, toJson v) :: fieldsToJson vs
termination_by structural vs => vs

end

end Value

namespace Json

/-- The arguments of a call: the items of an array, or one argument that is no array. -/
def arguments? (text : String) : Option (List Value) :=
  match parse? text with
  | some (.array items) => some (itemValues items)
  | some single => some [toValue single]
  | none => none

end Json

end RemoteCall
