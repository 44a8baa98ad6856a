import RemoteCall.Wire.NameTable
import RemoteCall.Wire.StringBody
import RemoteCall.Failure.Basic

/-!
# Writers

A writer takes the index of names its peer knows to the bytes it appends and the index after it. A
writer that fails still tells what it appended and interned before the failure; nothing that would
come after it happens.
-/

namespace RemoteCall.Wire

structure Written where
  bytes : List UInt8
  names : NameIndex
  failure? : Option Failure
deriving DecidableEq, Repr

def Writer := NameIndex → Written

namespace Writer

def run (w : Writer) (names : NameIndex) : Written := w names

def emit (bytes : List UInt8) : Writer := fun names => ⟨bytes, names, none⟩

def fail (f : Failure) : Writer := fun names => ⟨[], names, some f⟩

def nothing : Writer := emit []

/-- One writer after another. -/
def append (first second : Writer) : Writer := fun names =>
  let a := first names
  match a.failure? with
  | some _ => a
  | none =>
    let b := second a.names
    { b with bytes := a.bytes ++ b.bytes }

instance : Append Writer := ⟨append⟩

/-- The bytes made from a result, or its failure. -/
def ofExcept {α : Type} (bytes : α → List UInt8) : Except Failure α → Writer
  | .ok a => emit (bytes a)
  | .error f => fail f

def number (n : Int64) : Writer := emit (numberBytes n)

def count (n : Nat) : Writer := emit (countBytes n)

/-- An interned name: its index, and its text the first time. -/
def name (s : String) : Writer := fun names =>
  match names.index? s with
  | some index => ⟨tagged .tag (countBytes index), names, none⟩
  | none => ⟨tagged .tag (countBytes names.nextIndex ++ stringBody s), names.insert s, none⟩

end Writer

end RemoteCall.Wire
