import RemoteCall.Failure.Relay
import RemoteCall.Wire.Codec

/-!
# Calls and replies

A call is a sequence number, a method name and arguments; its reply carries the same sequence
number, whether the call succeeded, and the result or the relayed failure. Sequence number 0 marks
a synchronous call, whose reply is the next frame of its connection.
-/

namespace RemoteCall

open Wire

structure Call where
  sequence : UInt64
  method : String
  args : List Value

structure Reply where
  sequence : UInt64
  success : Bool
  value : Value

def syncSequence : UInt64 := 0

namespace Call

def isSync (c : Call) : Bool := c.sequence == syncSequence

def writer (g : Registry) (c : Call) : Writer :=
  .number c.sequence.toInt64 ++ (.name c.method ++ arrayWriter g Value.anyComponent c.args)

def reader (budget : Nat) : Reader Call := do
  let sequence ← Reader.number
  let method ← Reader.string budget
  let (_, args) ← Reader.array budget
  return ⟨sequence.toUInt64, method, args⟩

end Call

namespace Reply

/-- The reply that tells the outcome of a call. -/
def ofOutcome (sequence : UInt64) : Except RemoteFailure Value → Reply
  | .ok v => ⟨sequence, true, v⟩
  | .error f => ⟨sequence, false, f.toValue⟩

def writer (g : Registry) (r : Reply) : Writer :=
  .number r.sequence.toInt64 ++ (.emit (boolBytes r.success) ++ valueWriter g r.value)

def reader (budget : Nat) : Reader Reply := do
  let sequence ← Reader.number
  let success ← Reader.bool
  let value ← Reader.value budget
  return ⟨sequence.toUInt64, success, value⟩

/-- A reply that has to answer a synchronous call. -/
def syncReader (budget : Nat) : Reader Reply := do
  let reply ← reader budget
  if reply.sequence = syncSequence then return reply
  else Reader.corrupted (.notSynchronous reply.sequence)

end Reply

end RemoteCall
