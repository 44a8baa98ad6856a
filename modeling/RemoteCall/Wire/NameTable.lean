/-!
# Interned names

A name that crosses a connection again crosses it as an index. The writing end knows each name it
has written by its index, and the reading end keeps the names in the order in which they came. The
two ends of a direction agree when the index of a name is its position. Indexes have 32 bits, so
beyond so many names they begin again at 0.
-/

namespace RemoteCall.Wire

/-- The number of names that an index of 32 bits can tell apart. -/
def maxNames : Nat := 0x100000000

/-- The names written so far, each with its index. -/
structure NameIndex where
  entries : List (String × Nat)
deriving DecidableEq, Repr

namespace NameIndex

def empty : NameIndex := ⟨[]⟩

def size (e : NameIndex) : Nat := e.entries.length

def index? (e : NameIndex) (name : String) : Option Nat := e.entries.lookup name

/-- The index of the next new name: the number of names known, in 32 bits. -/
def nextIndex (e : NameIndex) : Nat := e.size % maxNames

/-- Gives the next index to a name that has none. -/
def insert (e : NameIndex) (name : String) : NameIndex := ⟨e.entries ++ [(name, e.nextIndex)]⟩

/-- Keeps the names whose index is below a mark. -/
def rollback (e : NameIndex) (mark : Nat) : NameIndex :=
  if mark < e.size then ⟨e.entries.filter (·.2 < mark)⟩ else e

end NameIndex

/-- The names read so far, each at its index. -/
structure NameTable where
  names : List String
deriving DecidableEq, Repr

namespace NameTable

def empty : NameTable := ⟨[]⟩

def size (t : NameTable) : Nat := t.names.length

def name? (t : NameTable) (index : Nat) : Option String := t.names[index]?

def push (t : NameTable) (name : String) : NameTable := ⟨t.names ++ [name]⟩

end NameTable

end RemoteCall.Wire
