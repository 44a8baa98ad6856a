import RemoteCall.Failure.Basic
import RemoteCall.Value.Basic

/-!
# Callbacks

A callback waits under the sequence number of its call. Whoever takes it out of the table tells it
the outcome of the call, so that it hears at most one: the reader of replies takes out the one a
reply belongs to, and closing takes out all that are left.
-/

namespace RemoteCall

/-- A callback is known by a number that its owner chose. -/
structure PendingCallback where
  callback : Nat
  method : String
  /-- When it was registered. -/
  since : Nat
deriving DecidableEq, Repr

/-- What a callback hears. -/
abbrev CallOutcome := Except Failure Value

structure CallbackTable where
  entries : List (UInt64 × PendingCallback)
deriving DecidableEq, Repr

namespace CallbackTable

def empty : CallbackTable := ⟨[]⟩

def size (t : CallbackTable) : Nat := t.entries.length

def find? (t : CallbackTable) (sequence : UInt64) : Option PendingCallback :=
  t.entries.lookup sequence

def erase (t : CallbackTable) (sequence : UInt64) : CallbackTable :=
  ⟨t.entries.filter (·.1 != sequence)⟩

/-- Registers a callback in place of one with the same number. -/
def insert (t : CallbackTable) (sequence : UInt64) (p : PendingCallback) : CallbackTable :=
  ⟨(sequence, p) :: (t.erase sequence).entries⟩

/-- The time since which the callback that waits longest has waited. -/
def oldest? (t : CallbackTable) : Option Nat := (t.entries.map (·.2.since)).min?

end CallbackTable

end RemoteCall
