import RemoteCall.Schema.RecordType
import RemoteCall.Value.Display

/-!
# Relayed failures as values

A failure crosses a connection as a record. Anything else received in its place becomes the message
of a failure of kind `Remote`.
-/

namespace RemoteCall.RemoteFailure

def toRecord (f : RemoteFailure) : Record :=
  ⟨typeName, [("kind", .string f.kind), ("message", .string f.message),
    ("stack", .list (f.stack.map .string))]⟩

def toValue (f : RemoteFailure) : Value := .record f.toRecord

/-- The text of a field, which is empty for null and for a field that is missing. -/
def textOf : Option Value → String
  | none | some .null => ""
  | some v => v.display

def stackOf : Option Value → List String
  | some (.list items) | some (.array _ items) => items.map Value.display
  | _ => []

def ofRecord (r : Record) : RemoteFailure :=
  ⟨textOf (r.get? "kind"), textOf (r.get? "message"), stackOf (r.get? "stack")⟩

def ofValue : Value → RemoteFailure
  | .record r => if r.typeName = typeName then ofRecord r else .ofKind "Remote" r.display
  | v => .ofKind "Remote" v.display

end RemoteCall.RemoteFailure
