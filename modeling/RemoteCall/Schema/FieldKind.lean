import RemoteCall.Value.DeclaredType

/-!
# Field kinds

A primitive kind always holds a value of its own width and is written without a lead tag where the
format allows it. An object field holds any value.
-/

namespace RemoteCall

inductive FieldKind where
  | bool | byte | short | char | int | long | float | double | object
deriving DecidableEq, Repr

namespace FieldKind

def all : List FieldKind := [.bool, .byte, .short, .char, .int, .long, .float, .double, .object]

/-- The capitalised name, as error texts have it. -/
def title : FieldKind → String
  | .bool => "Bool"
  | .byte => "Byte"
  | .short => "Short"
  | .char => "Char"
  | .int => "Int"
  | .long => "Long"
  | .float => "Float"
  | .double => "Double"
  | .object => "Object"

def isPrimitive : FieldKind → Bool
  | .object => false
  | _ => true

def isIntegral : FieldKind → Bool
  | .byte | .short | .char | .int | .long => true
  | _ => false

/-- What a field holds that was never assigned. -/
def zero : FieldKind → Value
  | .bool => .bool false
  | .byte => .byte 0
  | .short => .short 0
  | .char => .char (Char.ofNat 0)
  | .int => .int 0
  | .long => .long 0
  | .float => .float .zero
  | .double => .double .zero
  | .object => .null

def declaredType : FieldKind → DeclaredType
  | .bool => .bool
  | .byte => .byte
  | .short => .short
  | .char => .char
  | .int => .int
  | .long => .long
  | .float => .float
  | .double => .double
  | .object => .any

end FieldKind

end RemoteCall
