import RemoteCall.Value.Basic

/-!
# Two ways to compare values

Both comparisons walk the two trees together and differ in what they ask of floating point
numbers: `identical` wants the same bits, so NaN matches itself and the two zeros differ, and
`equal` is the comparison of the IEEE standard.
-/

namespace RemoteCall

/-- How floating point numbers are compared. -/
structure FloatComparison where
  single : Binary32 → Binary32 → Bool
  double : Binary64 → Binary64 → Bool

namespace FloatComparison

def bitwise : FloatComparison := ⟨(· == ·), (· == ·)⟩

def ieee : FloatComparison := ⟨Binary32.equal, Binary64.equal⟩

end FloatComparison

namespace Value

variable (c : FloatComparison)

mutual

def alike : Value → Value → Bool
  | .null, w => match w with
    | .null => true
    | _ => false
  | .bool a, w => match w with
    | .bool b => a == b
    | _ => false
  | .byte m, w => match w with
    | .byte n => m == n
    | _ => false
  | .short m, w => match w with
    | .short n => m == n
    | _ => false
  | .int m, w => match w with
    | .int n => m == n
    | _ => false
  | .long m, w => match w with
    | .long n => m == n
    | _ => false
  | .float x, w => match w with
    | .float y => c.single x y
    | _ => false
  | .double x, w => match w with
    | .double y => c.double x y
    | _ => false
  | .char a, w => match w with
    | .char b => a == b
    | _ => false
  | .string s, w => match w with
    | .string t => s == t
    | _ => false
  | .array component items, w => match w with
    | .array component' items' => component == component' && itemsAlike items items'
    | _ => false
  | .list items, w => match w with
    | .list items' => itemsAlike items items'
    | _ => false
  | .set items, w => match w with
    | .set items' => itemsAlike items items'
    | _ => false
  | .map entries, w => match w with
    | .map entries' => entriesAlike entries entries'
    | _ => false
  | .entry key value, w => match w with
    | .entry key' value' => alike key key' && alike value value'
    | _ => false
  | .enum e, w => match w with
    | .enum e' => e == e'
    | _ => false
  | .record ⟨typeName, fields⟩, w => match w with
    | .record ⟨typeName', fields'⟩ => typeName == typeName' && fieldsAlike fields fields'
    | _ => false
  | .bytes data, w => match w with
    | .bytes data' => data == data'
    | _ => false
  | .typeByName name, w => match w with
    | .typeByName name' => name == name'
    | _ => false
  | .typeBySignature s, w => match w with
    | .typeBySignature s' => s == s'
    | _ => false
  | .foreign data, w => match w with
    | .foreign data' => data == data'
    | _ => false
termination_by structural v => v

def itemsAlike : List Value → List Value → Bool
  | [], ws => ws.isEmpty
  | v :: vs, ws => match ws with
    | w :: ws => alike v w && itemsAlike vs ws
    | [] => false
termination_by structural vs => vs

def entriesAlike : List (Value × Value) → List (Value × Value) → Bool
  | [], ws => ws.isEmpty
  | (k, v) :: vs, ws => match ws with
    | (k', v') :: ws => alike k k' && alike v v' && entriesAlike vs ws
    | [] => false
termination_by structural vs => vs

def fieldsAlike : List (String × Value) → List (String × Value) → Bool
  | [], ws => ws.isEmpty
  | (name, v) :: vs, ws => match ws with
    | (name', v') :: ws => name == name' && alike v v' && fieldsAlike vs ws
    | [] => false
termination_by structural vs => vs

end

/-- The same tree, floating point numbers compared by their bits. -/
def identical (v w : Value) : Bool := alike .bitwise v w

/-- The same tree, floating point numbers compared as numbers. -/
def equal (v w : Value) : Bool := alike .ieee v w

end Value

end RemoteCall
