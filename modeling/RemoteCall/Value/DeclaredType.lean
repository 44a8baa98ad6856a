import RemoteCall.Value.Basic

/-!
# Declared types

The type a method declares for a parameter, or a caller for a result. Null belongs to every type.
-/

namespace RemoteCall

inductive DeclaredType where
  | any | bool | byte | short | char | int | long | float | double
  | string | bytes | list | set | map | record
deriving DecidableEq, Repr

namespace DeclaredType

def all : List DeclaredType :=
  [.any, .bool, .byte, .short, .char, .int, .long, .float, .double, .string, .bytes, .list, .set,
   .map, .record]

def name : DeclaredType → String
  | .any => "any"
  | .bool => "boolean"
  | .byte => "byte"
  | .short => "short"
  | .char => "char"
  | .int => "int"
  | .long => "long"
  | .float => "float"
  | .double => "double"
  | .string => "String"
  | .bytes => "byte[]"
  | .list => "List"
  | .set => "Set"
  | .map => "Map"
  | .record => "pojo"

def ofName? (name : String) : Option DeclaredType := all.find? (·.name == name)

/-- The value has the type as it is. -/
def accepts : DeclaredType → Value → Bool
  | .any, _ => true
  | _, .null => true
  | .bool, .bool _ => true
  | .byte, .byte _ => true
  | .short, .short _ => true
  | .char, .char _ => true
  | .int, .int _ => true
  | .long, .long _ => true
  | .float, .float _ => true
  | .double, .double _ => true
  | .string, .string _ => true
  | .bytes, .bytes _ => true
  | .list, .list _ => true
  | .set, .set _ => true
  | .map, .map _ => true
  | .record, .record _ => true
  | _, _ => false

end DeclaredType

end RemoteCall
