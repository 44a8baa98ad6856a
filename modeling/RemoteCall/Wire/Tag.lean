/-!
# Tags

The lead byte of an encoded value is a literal integer up to 127 or a tag. A tag is written as the
complement of its ordinal, so every tag byte lies above the literals.
-/

namespace RemoteCall

inductive Tag where
  | null | boolTrue | boolFalse | signed1 | signed2 | signed4 | signed8 | float4 | float8 | char | array
  | string | tag | list | map | entry | enum | set | record | bytes | className | fieldSignature
  | foreign
deriving DecidableEq, Repr

namespace Tag

/-- The tags in the order of their ordinals, which is part of the format. -/
def all : List Tag :=
  [.null, .boolTrue, .boolFalse, .signed1, .signed2, .signed4, .signed8, .float4, .float8, .char, .array,
   .string, .tag, .list, .map, .entry, .enum, .set, .record, .bytes, .className, .fieldSignature,
   .foreign]

def ordinal : Tag → UInt8
  | .null => 0
  | .boolTrue => 1
  | .boolFalse => 2
  | .signed1 => 3
  | .signed2 => 4
  | .signed4 => 5
  | .signed8 => 6
  | .float4 => 7
  | .float8 => 8
  | .char => 9
  | .array => 10
  | .string => 11
  | .tag => 12
  | .list => 13
  | .map => 14
  | .entry => 15
  | .enum => 16
  | .set => 17
  | .record => 18
  | .bytes => 19
  | .className => 20
  | .fieldSignature => 21
  | .foreign => 22

def byte (t : Tag) : UInt8 := ~~~ t.ordinal

/-- The largest lead byte that is a literal integer. -/
def maxLiteral : UInt8 := 0x7F

def ofByte? (byte : UInt8) : Option Tag := all[(~~~ byte).toNat]?

theorem ofByte?_byte (t : Tag) : ofByte? t.byte = some t := by cases t <;> decide

theorem maxLiteral_lt_byte (t : Tag) : maxLiteral < t.byte := by cases t <;> decide

/-- The name of the tag, as error texts have it. -/
def name : Tag → String
  | .null => "Null"
  | .boolTrue => "True"
  | .boolFalse => "False"
  | .signed1 => "Signed1"
  | .signed2 => "Signed2"
  | .signed4 => "Signed4"
  | .signed8 => "Signed8"
  | .float4 => "Float4"
  | .float8 => "Float8"
  | .char => "Char"
  | .array => "Array"
  | .string => "String"
  | .tag => "Tag"
  | .list => "List"
  | .map => "Map"
  | .entry => "Entry"
  | .enum => "Enum"
  | .set => "Set"
  | .record => "Pojo"
  | .bytes => "Bytes"
  | .className => "Class"
  | .fieldSignature => "MetaClass"
  | .foreign => "Serializable"

end Tag

end RemoteCall
