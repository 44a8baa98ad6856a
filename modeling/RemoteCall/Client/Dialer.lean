import RemoteCall.Address
import RemoteCall.Connection.Basic
import RemoteCall.Text.Split

/-!
# Dialing a list of endpoints

A dialer opens connections to the first of its endpoints that can be reached. It begins with the one
that worked last and goes round the list, pausing after each full round, until an attempt succeeds
or its time is over. The failure of the last attempt is then the failure of all of them.
-/

namespace RemoteCall

structure Dialer where
  endpoints : List Endpoint
  settings : ConnectorSettings
  /-- The position of the endpoint to try first. -/
  lastAddress : Nat
deriving DecidableEq, Repr

/-- How an attempt to open a connection ends. After a failed one the time may be over. -/
inductive DialAttempt (α : Type) where
  | connected (connection : α)
  | failed (f : Failure) (isTimeOver : Bool)

namespace Dialer

def ofEndpoints (endpoints : List Endpoint) (settings : ConnectorSettings) : Dialer :=
  ⟨endpoints, settings, 0⟩

def ofText (text : String) (settings : ConnectorSettings) : Except Failure Dialer :=
  (Endpoint.parseAll text).map fun endpoints => .ofEndpoints endpoints settings

variable (d : Dialer)

def describe : String := Text.join "," (d.endpoints.map Endpoint.display)

/-- The header sent on every connection. -/
def header : Header := d.settings.header.map fun (key, text) => (key, .string text)

def position : Nat := d.lastAddress % d.endpoints.length

/-- The endpoint of the next attempt. -/
def next? : Option Endpoint := d.endpoints[d.position]?

/-- Moves on after a failed attempt. -/
def advance : Dialer := { d with lastAddress := (d.position + 1) % d.endpoints.length }

/-- An attempt that is refused. -/
def unreachable (e : Endpoint) (why : String) : Failure :=
  .connect ("Failed to connect to " ++ e.connectAddress ++ ": " ++ why)

/-- An attempt that is cut off when the time is over. -/
def timedOut (e : Endpoint) : Failure := .connect ("Timed out connecting to " ++ e.connectAddress)

/-- The failure of a dialer whose last attempt failed in this way. -/
def finalFailure : Failure → Failure
  | .connect reason => .connect reason
  | f => .connect f.message

/-- The outcome of dialing, the positions tried in each round and the dialer after it. -/
structure Dialed (α : Type) where
  result : Except Failure α
  rounds : List (List Nat)
  dialer : Dialer

/-- Goes through attempts until one succeeds or the time is over. If the attempts run out before, it
tells the dialer to go on with and the positions that its round has tried, none if another round
begins. How an attempt ends depends on the position that it is made at. A round is over when it has
tried as many positions as there are endpoints. -/
def follow {α : Type} (d : Dialer) (round : List Nat) :
    List (Nat → DialAttempt α) → Except (Dialer × List Nat) (Dialed α)
  | [] => .error (d, round)
  | attempt :: rest =>
    let round := round ++ [d.position]
    match attempt d.position with
    | .connected c => .ok ⟨.ok c, [round], d⟩
    | .failed f true => .ok ⟨.error (finalFailure f), [round], d.advance⟩
    | .failed _ false =>
      if round.length < d.endpoints.length then d.advance.follow round rest
      else
        (d.advance.follow [] rest).map fun dialed =>
          { dialed with rounds := round :: dialed.rounds }

/-- Opens a connection, given how the attempts end; nothing if they run out before. -/
def dial? {α : Type} (attempts : List (Nat → DialAttempt α)) : Option (Dialed α) :=
  if d.endpoints.isEmpty then some ⟨.error (.invalidAddress .unconfigured), [], d⟩
  else (d.follow [] attempts).toOption

end Dialer

end RemoteCall
