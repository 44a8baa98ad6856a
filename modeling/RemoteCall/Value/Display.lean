import RemoteCall.Value.Basic
import RemoteCall.Decimal.Style
import RemoteCall.Text.Split

/-!
# The display form of values

Sequences stand in brackets, maps and records in braces, byte data only by its length. Floating
point numbers are written positionally with their shortest digits.
-/

namespace RemoteCall

/-- Numbers never get an exponent, nor a fraction they do not need; a tie between two shortest
decimals goes up. -/
def Value.floatStyle : FloatStyle where
  positional _ := true
  leastFraction := 0
  tie := .upward
  nanText := "NaN"
  infinityText := "inf"

def inBraces (parts : List String) : String := "\x7b" ++ Text.join ", " parts ++ "\x7d"

def inBrackets (parts : List String) : String := "[" ++ Text.join ", " parts ++ "]"

namespace Value

mutual

def display : Value → String
  | .null => "null"
  | .bool b => if b then "true" else "false"
  | .byte n => Int.repr n.toInt
  | .short n => Int.repr n.toInt
  | .int n => Int.repr n.toInt
  | .long n => Int.repr n.toInt
  | .float x => floatStyle.text32 x
  | .double x => floatStyle.text64 x
  | .char c => String.ofList [c]
  | .string s => s
  | .array _ items => inBrackets (itemTexts items)
  | .list items => inBrackets (itemTexts items)
  | .set items => inBrackets (itemTexts items)
  | .map entries => inBraces (entryTexts entries)
  | .entry key value => display key ++ "=" ++ display value
  | .enum e => e.variant
  | .record ⟨typeName, fields⟩ => typeName ++ " " ++ inBraces (fieldTexts fields)
  | .bytes data => "byte[" ++ Nat.repr data.length ++ "]"
  | .typeByName name => name
  | .typeBySignature signature => signature
  | .foreign data => "serialized[" ++ Nat.repr data.length ++ "]"
termination_by structural v => v

def itemTexts : List Value → List String
  | [] => []
  | v :: vs => display v :: itemTexts vs
termination_by structural vs => vs

def entryTexts : List (Value × Value) → List String
  | [] => []
  | (k, v) :: vs => (display k ++ "=" ++ display v) :: entryTexts vs
termination_by structural vs => vs

def fieldTexts : List (String × Value) → List String
  | [] => []
  | (name, v) :: vs => (name ++ "=" ++ display v) :: fieldTexts vs
termination_by structural vs => vs

end

end Value

def RecordOf.display (r : Record) : String := (Value.record r).display

end RemoteCall
