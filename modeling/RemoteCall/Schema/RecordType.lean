import RemoteCall.Schema.Field

/-!
# Record types

A record type is a name with a layout, the names and kinds of its fields in the order in which they
are written. Its signature, `type,field,field`, stands for the layout on the wire.
-/

namespace RemoteCall

structure RecordType where
  name : String
  layout : List (String × FieldKind)
deriving DecidableEq, Repr

/-- Type name and field names with commas between. -/
def signatureOf (typeName : String) (fieldNames : List String) : String :=
  Text.join "," (typeName :: fieldNames)

namespace RecordType

def fields (t : RecordType) : List Field :=
  t.layout.zipIdx.map fun ((name, kind), index) => ⟨name, kind, index⟩

/-- The first field of that name. -/
def field? (t : RecordType) (name : String) : Option Field := t.fields.find? (·.name == name)

def signature (t : RecordType) : String := signatureOf t.name (t.layout.map Prod.fst)

/-- The record in which no field was ever assigned. -/
def blank (t : RecordType) : Record :=
  ⟨t.name, t.layout.map fun (name, kind) => (name, kind.zero)⟩

end RecordType

namespace RemoteFailure

def typeName : String := "tagrpc.RemoteError"

def recordType : RecordType :=
  ⟨typeName, [("kind", .object), ("message", .object), ("stack", .object)]⟩

end RemoteFailure

end RemoteCall
