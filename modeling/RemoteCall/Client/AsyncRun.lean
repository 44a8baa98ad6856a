import RemoteCall.Client.Basic

/-!
# Asynchronous calls on one connection

Any number of callers send asynchronous calls over one connection while replies arrive and while the
connection may close. A step of a run is what one of them does to the connection at once: reading
the flag that says it is closed, or touching the table of callbacks while its lock is held. Closing
takes two steps, setting the flag and emptying the table, and others may act in between.
-/

namespace RemoteCall

/-- What a sender does next. -/
inductive Sender where
  /-- Checks that the connection is open. -/
  | numbered (sequence : UInt64)
  /-- Registers its callback. -/
  | checked (sequence : UInt64)
  /-- Checks once more, since a closing may have missed the callback. -/
  | registered (sequence : UInt64)
  /-- Takes its callback back from a connection that is closed by now. -/
  | withdrawing (sequence : UInt64)
  | writing (sequence : UInt64)
  /-- Closes the connection after its write failed. -/
  | closing (sequence : UInt64) (f : Failure)
  /-- Empties the table of the connection that it closed. -/
  | draining (sequence : UInt64) (f : Failure)
  /-- Takes its callback back after its write failed. -/
  | retracting (sequence : UInt64) (f : Failure)
  | returned (sequence : UInt64) (result : Except Failure Unit)

/-- A connection with its senders, whose callbacks are known by their positions, and whether someone
else who closed it has yet to empty the table. -/
structure AsyncRun where
  connection : Connection
  senders : List Sender
  isDraining : Bool

inductive AsyncStep where
  /-- A new sender takes a sequence number. -/
  | send
  /-- A sender does the one thing that it can do next. -/
  | advance (sender : Nat)
  | written (sender : Nat)
  | failsToWrite (sender : Nat) (f : Failure)
  /-- Someone else closes the connection. -/
  | close
  | drain
  | reply (r : Reply)

namespace AsyncRun

def start (c : Connection) : AsyncRun := ⟨c, [], false⟩

variable (r : AsyncRun)

def setSender (i : Nat) (s : Sender) : AsyncRun := { r with senders := r.senders.set i s }

def advanceSender (i : Nat) : Sender → AsyncRun
  | .numbered q =>
    r.setSender i (if r.connection.isClosed then .returned q (.error r.connection.closedFailure)
      else .checked q)
  | .checked q =>
    { r with connection := r.connection.insertCallback q ⟨i, "", 0⟩ }.setSender i (.registered q)
  | .registered q => r.setSender i (if r.connection.isClosed then .withdrawing q else .writing q)
  | .withdrawing q =>
    if (r.connection.callbacks.find? q).isSome then
      { r with connection := r.connection.eraseCallback q }.setSender i
        (.returned q (.error r.connection.closedFailure))
    else r.setSender i (.writing q)
  | .closing q f =>
    if r.connection.isClosed then r.setSender i (.retracting q f)
    else { r with connection := r.connection.markClosed }.setSender i (.draining q f)
  | .draining q f =>
    { r with connection := r.connection.drainCallbacks }.setSender i (.retracting q f)
  | .retracting q f =>
    if (r.connection.callbacks.find? q).isSome then
      { r with connection := r.connection.eraseCallback q }.setSender i (.returned q (.error f))
    else r.setSender i (.returned q (.ok ()))
  | .writing _ | .returned _ _ => r

/-- Runs the steps of the client `k`. -/
def step (k : Client) : AsyncStep → AsyncRun
  | .send =>
    let (q, c) := r.connection.takeSequence
    { r with connection := c, senders := r.senders ++ [.numbered q] }
  | .advance i => (r.senders[i]?).elim r (r.advanceSender i)
  | .written i =>
    match r.senders[i]? with
    | some (.writing q) => r.setSender i (.returned q (.ok ()))
    | _ => r
  | .failsToWrite i f =>
    match r.senders[i]? with
    | some (.writing q) => r.setSender i (if f.isFatal then .closing q f else .retracting q f)
    | _ => r
  | .close =>
    if r.connection.isClosed then r
    else { r with connection := r.connection.markClosed, isDraining := true }
  | .drain =>
    if r.isDraining then { r with connection := r.connection.drainCallbacks, isDraining := false }
    else r
  | .reply reply => { r with connection := k.route r.connection reply }

def run (k : Client) (steps : List AsyncStep) : AsyncRun := steps.foldl (step · k) r

end AsyncRun

end RemoteCall
