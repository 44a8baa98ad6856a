import RemoteCall.Schema.RecordType

/-!
# The registry and the reading of signatures

The registry knows record types by name; registering a name again replaces its type. A signature
received from a peer is resolved against it: fields known here are read by their kind, fields
unknown here are read and dropped, and a record of an unknown type keeps all its fields. The
resolution of a signature of a known type is kept for good, so a later registration of the name
does not change how that signature is read.
-/

namespace RemoteCall

/-- How records of a signature are read. -/
structure WireLayout where
  typeName : String
  /-- The type as it was registered when the signature was resolved. -/
  known? : Option RecordType
  /-- The names in the signature, each with the field it fills. -/
  slots : List (String × Option Field)
  /-- The signature is not that of the registered type. -/
  isShadow : Bool
deriving DecidableEq, Repr

namespace WireLayout

def isDynamic (l : WireLayout) : Bool := l.known?.isNone

def blank (l : WireLayout) : Record :=
  match l.known? with
  | some t => t.blank
  | none => .empty l.typeName

end WireLayout

structure Registry where
  types : List RecordType
  resolved : List (String × WireLayout)
deriving Repr

namespace Registry

/-- The registry every program starts with: failures can be relayed. -/
def initial : Registry := ⟨[RemoteFailure.recordType], []⟩

def lookup? (g : Registry) (name : String) : Option RecordType := g.types.find? (·.name == name)

def register (g : Registry) (t : RecordType) : Registry :=
  { g with types := t :: g.types.filter (·.name != t.name) }

/-- The layout of a signature of a type, known or not. -/
def layoutOf (g : Registry) (signature typeName : String) (names : List String) : WireLayout :=
  match g.lookup? typeName with
  | none => ⟨typeName, none, names.map fun name => (name, none), false⟩
  | some t => ⟨typeName, some t, names.map fun name => (name, t.field? name),
      t.signature != signature⟩

/-- Resolves a signature, keeping the result if the type is known. -/
def resolve (g : Registry) (signature : String) : Except Failure WireLayout × Registry :=
  match g.resolved.lookup signature with
  | some layout => (.ok layout, g)
  | none =>
    match Text.split ',' signature with
    | [] => (.error (.streamCorrupted (.signatureWithoutType signature)), g)
    | typeName :: names =>
      if typeName = "" then (.error (.streamCorrupted (.signatureWithoutType signature)), g)
      else
        let layout := g.layoutOf signature typeName names
        if layout.isDynamic then (.ok layout, g)
        else (.ok layout, { g with resolved := (signature, layout) :: g.resolved })

end Registry

end RemoteCall
