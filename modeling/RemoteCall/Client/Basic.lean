import RemoteCall.Connection.Basic
import RemoteCall.Pool.Run
import RemoteCall.Value.Extraction

/-!
# Clients

A client sends calls over the connections of a pool. A synchronous call has a connection alone until
its reply is read, which is the next frame on it. An asynchronous call leaves a callback on its
connection, and the reply is found by its sequence number. A failure reported by the server gets the
address of the server and the place of the call added to its frames.
-/

namespace RemoteCall

open Wire

structure Client where
  name : String
  /-- Closing the client closes its pool. -/
  ownsPool : Bool
  isClosed : Bool
deriving DecidableEq, Repr

/-- The key of connections for synchronous calls. -/
def syncKey : String := "sync-tagrpc"

/-- The key of connections for asynchronous calls. -/
def asyncKey : String := "async-tagrpc"

/-- The outcome of a call as its caller sees it. -/
def Reply.outcome (r : Reply) (peer : PeerAddress) (site : String) : CallOutcome :=
  if r.success then .ok r.value
  else .error ((RemoteFailure.ofValue r.value).splice peer.host peer.port [site]).toFailure

/-- The frame of a call. -/
def Connection.writeCall (c : Connection) (g : Registry) (call : Call) :
    Except Failure Frame.Sealed × Connection :=
  c.writeFrame (call.writer g)

/-- Registers a callback under a new sequence number and writes the call. A failure of the write is
reported to the callback if closing has taken it, and to the caller otherwise. -/
def Connection.sendAsync (c : Connection) (g : Registry) (method : String) (args : List Value)
    (callback now : Nat) : Except Failure (UInt64 × Option Frame.Sealed) × Connection :=
  let (sequence, c) := c.takeSequence
  match c.addCallback sequence ⟨callback, method, now⟩ with
  | .error f => (.error f, c)
  | .ok c =>
    match { c with hasReader := true }.writeCall g ⟨sequence, method, args⟩ with
    | (.ok frame, c) => (.ok (sequence, some frame), c)
    | (.error f, c) =>
      if (c.callbacks.find? sequence).isSome then (.error f, c.eraseCallback sequence)
      else (.ok (sequence, none), c)

namespace Client

variable (k : Client)

def closedFailure : Failure := .connectionClosed k.name

/-- A client is closed with its pool. -/
def isClosedOver (p : Pool) : Bool := k.isClosed || p.isClosed

/-- Closes the client, and its pool if it owns it. -/
def close (r : PoolRun) : Client × PoolRun :=
  if k.isClosed then (k, r) else ({ k with isClosed := true }, if k.ownsPool then r.close else r)

/-- Where a synchronous call was made. -/
def invokeSite (method : String) : String := k.name ++ ".invoke(" ++ method ++ ")"

/-- Where an asynchronous call was made. -/
def asyncSite (sequence : UInt64) : String := k.name ++ ".async#" ++ Nat.repr sequence.toNat

/-- The outcome of a synchronous call that was answered over a connection. -/
def syncOutcome (c : Connection) (method : String) (r : Reply) : CallOutcome :=
  r.outcome c.peer (k.invokeSite method)

/-- Tells a reply to the callback it belongs to. A reply that belongs to none is dropped. -/
def route (c : Connection) (r : Reply) : Connection :=
  c.tell r.sequence (r.outcome c.peer (k.asyncSite r.sequence))

/-- The connection after a read for replies to asynchronous calls. -/
def routeReceived (received : Connection.Received Reply) : Connection :=
  match received.result with
  | .ok r => k.route received.connection r
  | .error _ => received.connection

end Client

end RemoteCall
