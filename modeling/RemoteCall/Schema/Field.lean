import RemoteCall.Value.Coercion

/-!
# Fields of record types

A field has a name, a kind and a position. Its accessors find it in a record by position first and
by name when the record is laid out otherwise; a record without the field holds null there.
-/

namespace RemoteCall

structure Field where
  name : String
  kind : FieldKind
  index : Nat
deriving DecidableEq, Repr

namespace Field

variable (f : Field)

def get (r : Record) : Value := (r.slot? f.index f.name).getD .null

def wrongKind (r : Record) (v : Value) : Failure :=
  .notSerializable (.wrongKind r.typeName f.name f.kind v.label)

def getBool (r : Record) : Except Failure Bool :=
  match f.get r with
  | .bool b => .ok b
  | v => .error (f.wrongKind r v)

/-- The integer the field holds. A character counts if it is one UTF-16 unit. -/
def getInt (r : Record) : Except Failure Int64 :=
  match f.get r with
  | .byte n => .ok n.toInt64
  | .short n => .ok n.toInt64
  | .int n => .ok n.toInt64
  | .long n => .ok n
  | .char c =>
    if 0xFFFF < c.toNat then .error (.notSerializable (.charFieldTooWide r.typeName f.name c))
    else .ok (Int64.ofNat c.toNat)
  | v => .error (f.wrongKind r v)

/-- The number the field holds, which characters are not. -/
def getFloat (r : Record) : Except Failure Binary64 :=
  let v := f.get r
  match v.isNumber, v.toBinary64? with
  | true, some x => .ok x
  | _, _ => .error (f.wrongKind r v)

def set (r : Record) (v : Value) : Record := r.setSlot f.index f.name v

def setBool (r : Record) (b : Bool) : Record := f.set r (.bool b)

/-- The character of a 16-bit unit; an unpaired surrogate becomes the replacement character. -/
def unitChar (r : Record) (n : Int64) : Except Failure Char :=
  if n < 0 ∨ 0xFFFF < n then .error (.notSerializable (.notACharUnit r.typeName f.name n.toInt))
  else .ok ((Value.charOfInt64? n).getD (Char.ofNat 0xFFFD))

/-- The integer as a value of the field's kind, narrowed to its width. -/
def intValue (r : Record) (n : Int64) : Except Failure Value :=
  match f.kind with
  | .bool => .ok (.bool (n ≠ 0))
  | .byte => .ok (.byte n.toInt8)
  | .short => .ok (.short n.toInt16)
  | .char => (f.unitChar r n).map .char
  | .int => .ok (.int n.toInt32)
  | .long | .object => .ok (.long n)
  | .float => .ok (.float (.ofInt64 n))
  | .double => .ok (.double (.ofInt64 n))

def setInt (r : Record) (n : Int64) : Except Failure Record := (f.intValue r n).map (f.set r)

/-- Stores a number, narrowed to the field's kind. -/
def setFloat (r : Record) (x : Binary64) : Except Failure Record :=
  if f.kind.isIntegral then f.setInt r x.toInt64
  else if f.kind = .float then .ok (f.set r (.float x.toBinary32))
  else .ok (f.set r (.double x))

end Field

end RemoteCall
