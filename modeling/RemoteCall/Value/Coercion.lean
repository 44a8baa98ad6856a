import RemoteCall.Value.Display
import RemoteCall.Failure.Basic
import RemoteCall.Text.Ascii
import RemoteCall.Text.Blank

/-!
# Conversion to a declared type

A value that has the type passes unchanged. Numbers widen, and narrow by dropping high bits;
strings are read as numbers and booleans; everything has a string form; lists, sets and arrays turn
into lists and sets. No other conversion exists.
-/

namespace RemoteCall.Value

/-- The failure to convert a value. -/
def mismatch (v : Value) (target : DeclaredType) : Failure := .coercion v.label target.name

/-- The integer a value converts to, before it is narrowed. -/
def integer? (v : Value) : Option Int64 :=
  match v.toInt64? with
  | some n => some n
  | none =>
    match v with
    | .string s => Decimal.readInt64? (Text.trim s)
    | _ => none

def real? (v : Value) : Option Binary64 :=
  match v.toBinary64? with
  | some x => some x
  | none =>
    match v with
    | .string s => Decimal.readBinary64? (Text.trim s)
    | _ => none

/-- The character with a code point. -/
def charOfInt64? (n : Int64) : Option Char :=
  if h : 0 ≤ n.toInt ∧ n.toInt.toNat.isValidChar then
    some (Char.ofNatAux n.toInt.toNat h.2)
  else none

/-- A string of one character, or the code point of one. -/
def character? : Value → Option Char
  | .string s =>
    match s.toList with
    | [c] => some c
    | _ => none
  | v => v.toInt64?.bind charOfInt64?

def truth? : Value → Option Bool
  | .string s =>
    if Text.equalIgnoringCase s "true" then some true
    else if Text.equalIgnoringCase s "false" then some false
    else none
  | _ => none

/-- The value converted, when it does not have the type already. -/
def convert? (target : DeclaredType) (v : Value) : Option Value :=
  match target with
  | .any => none
  | .bool => v.truth?.map .bool
  | .byte => v.integer?.map fun n => .byte n.toInt8
  | .short => v.integer?.map fun n => .short n.toInt16
  | .int => v.integer?.map fun n => .int n.toInt32
  | .long => v.integer?.map .long
  | .float => v.real?.map fun x => .float x.toBinary32
  | .double => v.real?.map .double
  | .char => v.character?.map .char
  | .string => some (.string v.display)
  | .list =>
    match v with
    | .array _ items | .set items => some (.list items)
    | _ => none
  | .set =>
    match v with
    | .array _ items | .list items => some (.set items)
    | _ => none
  | .bytes | .map | .record => none

def coerce (target : DeclaredType) (v : Value) : Except Failure Value :=
  if target.accepts v then .ok v
  else
    match convert? target v with
    | some w => .ok w
    | none => .error (v.mismatch target)

end RemoteCall.Value
