import RemoteCall.Json.Basic
import RemoteCall.Decimal.Style
import RemoteCall.Text.Hex
import RemoteCall.Text.Split

/-!
# JSON texts of documents

The text has no space. Only quotes, backslashes and control characters are escaped. Floating point
numbers have their shortest digits and always a point or an exponent.
-/

namespace RemoteCall.Json

/-- Numbers are written positionally from 0.00001 up to sixteen digits before the point. -/
def floatStyle : FloatStyle where
  positional e := -5 ≤ e && e < 16
  leastFraction := 1
  tie := .toEven
  nanText := "null"
  infinityText := "null"

def escapeChar (c : Char) : List Char :=
  if c = '"' then ['\\', '"']
  else if c = '\\' then ['\\', '\\']
  else if c = '\n' then ['\\', 'n']
  else if c = '\r' then ['\\', 'r']
  else if c = '\t' then ['\\', 't']
  else if c.toNat = 8 then ['\\', 'b']
  else if c.toNat = 12 then ['\\', 'f']
  else if c.toNat < 0x20 then '\\' :: 'u' :: (Text.hex 4 c.toNat false).toList
  else [c]

def quote (s : String) : String := String.ofList ('"' :: (s.toList.flatMap escapeChar ++ ['"']))

def numberText : JsonNumber → String
  | .integer n => Int.repr n
  | .real x => floatStyle.text64 x

mutual

def text : Json → String
  | .null => "null"
  | .bool b => if b then "true" else "false"
  | .number n => numberText n
  | .string s => quote s
  | .array items => "[" ++ Text.join "," (itemTexts items) ++ "]"
  | .object members => "\x7b" ++ Text.join "," (memberTexts members) ++ "\x7d"
termination_by structural j => j

def itemTexts : List Json → List String
  | [] => []
  | j :: js => text j :: itemTexts js
termination_by structural js => js

def memberTexts : List (String × Json) → List String
  | [] => []
  | (key, j) :: js => (quote key ++ ":" ++ text j) :: memberTexts js
termination_by structural js => js

end

end RemoteCall.Json
