import RemoteCall.Call
import RemoteCall.Connection.Arrivals
import RemoteCall.Connection.Callbacks
import RemoteCall.Connection.Sending
import RemoteCall.Settings.Basic

/-!
# Connections

A connection owns the names of both directions, the callbacks of the calls sent on it and the times
at which a read or write that still waits began. It is closed once: by its owner, by a failure after
which no frame can be trusted, or by a check that finds it waiting for too long. A closed connection
refuses frames and callbacks, and every callback it still had has heard of the closing.
-/

namespace RemoteCall

open Wire

/-- Entries that the ends of a connection tell each other when it opens. -/
abbrev Header := List (String × Value)

structure PeerAddress where
  host : String
  port : UInt16
deriving DecidableEq, Repr

structure Connection where
  name : String
  peer : PeerAddress
  settings : ConnectionSettings
  encoder : Encoder
  decoder : Decoder
  peerHeader : Header
  isClosed : Bool
  callbacks : CallbackTable
  /-- What callbacks have heard so far. -/
  heard : List (Nat × CallOutcome)
  nextSequence : UInt64
  hasReader : Bool
  readingSince? : Option Nat
  writingSince? : Option Nat

namespace Connection

/-- An open connection on which nothing was sent. Asynchronous calls are numbered from `seed`, or
from 1, since 0 marks synchronous calls. -/
def new (name : String) (peer : PeerAddress) (settings : ConnectionSettings) (seed : UInt64) :
    Connection where
  name := name
  peer := peer
  settings := settings
  encoder := .new
  decoder := .new
  peerHeader := []
  isClosed := false
  callbacks := .empty
  heard := []
  nextSequence := max seed 1
  hasReader := false
  readingSince? := none
  writingSince? := none

variable (c : Connection)

def closedFailure : Failure := .connectionClosed c.name

/-! ## Closing -/

/-- Refuses frames and callbacks from now on. -/
def markClosed : Connection := { c with isClosed := true }

/-- Tells every callback left that the connection is closed. -/
def drainCallbacks : Connection :=
  { c with
    callbacks := .empty
    heard := c.heard ++ c.callbacks.entries.map fun (_, p) => (p.callback, .error c.closedFailure) }

def close : Connection := if c.isClosed then c else c.markClosed.drainCallbacks

/-! ## Callbacks -/

def insertCallback (sequence : UInt64) (p : PendingCallback) : Connection :=
  { c with callbacks := c.callbacks.insert sequence p }

def eraseCallback (sequence : UInt64) : Connection :=
  { c with callbacks := c.callbacks.erase sequence }

def addCallback (sequence : UInt64) (p : PendingCallback) : Except Failure Connection :=
  if c.isClosed then .error c.closedFailure else .ok (c.insertCallback sequence p)

/-- Takes the callback of a sequence number out of the table and tells it an outcome. -/
def tell (sequence : UInt64) (outcome : CallOutcome) : Connection :=
  match c.callbacks.find? sequence with
  | some p => { c.eraseCallback sequence with heard := c.heard ++ [(p.callback, outcome)] }
  | none => c

/-- The number of the next asynchronous call. -/
def takeSequence : UInt64 × Connection :=
  (c.nextSequence, { c with nextSequence := c.nextSequence + 1 })

/-! ## Frames -/

/-- The frame to send for a body. A body that cannot be sent leaves the connection as it was. -/
def writeFrame (body : Writer) : Except Failure Frame.Sealed × Connection :=
  if c.isClosed then (.error c.closedFailure, c)
  else
    let (sent, encoder) := c.encoder.frame c.settings.maxMessageSize body
    (sent, { c with encoder := encoder })

/-- Closes the connection after a fatal failure. -/
def closeAfter (f : Failure) : Connection := if f.isFatal then c.close else c

/-- The outcome of a read, and the connection and the known types after it. -/
structure Received (α : Type) where
  result : Except Failure α
  connection : Connection
  registry : Registry

def Received.failed {α : Type} (g : Registry) (f : Failure) : Received α :=
  ⟨.error f, c.closeAfter f, g⟩

/-- Decodes the body of a frame. Bytes behind what is read are ignored. -/
def decodeBody {α : Type} (g : Registry) (reader : Nat → Reader α) (body : List UInt8) :
    Received α :=
  let reading := c.decoder.read g reader body
  let after := { c with decoder := reading.decoder }
  match reading.result with
  | .ok (a, _) => ⟨.ok a, after, reading.registry⟩
  | .error f => Received.failed after reading.registry f

/-- Reads the next frame of a stream and what follows it; nothing while the read waits. -/
def readFrame? {α : Type} (g : Registry) (mode : ReadMode) (reader : Nat → Reader α)
    (stream : ByteStream) : Option (Received α × ByteStream) :=
  if c.isClosed then some (Received.failed c g c.closedFailure, stream)
  else
    match stream.takeFrame? c.settings.maxMessageSize mode with
    | some (.ok (body, rest)) => some (c.decodeBody g reader body, rest)
    | some (.error f) => some (Received.failed c g f, stream)
    | none => none

/-! ## Waiting -/

/-- A read begins to wait for a frame. -/
def startReading (mode : ReadMode) (now : Nat) : Connection :=
  match mode with
  | .reply => { c with readingSince? := some now }
  | .idle => c

/-- The time that a wait has taken exceeds the limit. -/
def isStalled (now : Nat) (since? : Option Nat) : Bool :=
  match since? with
  | some since => c.settings.stallTimeout < now - since
  | none => false

/-- A look at the clock closes the connection if a read, a write or a callback waits for too
long. -/
def timedCheck (now : Nat) : Connection :=
  if c.isStalled now c.readingSince? || c.isStalled now c.writingSince? ||
      c.isStalled now c.callbacks.oldest? then c.close
  else c

end Connection

end RemoteCall
