import RemoteCall.Client.Dialer

/-!
# Dialing in memory

A dialer next to the endpoints of its list, each of which has somebody listening or not. An attempt
takes no time here. So a dialer that reaches nobody goes round its list, waits until its time is
over and fails with one more attempt; its connect timeout is then what it took.
-/

namespace RemoteCall

structure LinkDialer where
  dialer : Dialer
  /-- Whether somebody listens, by the positions of the endpoints. -/
  listening : List Bool
  /-- The milliseconds spent on dialing so far. -/
  waited : Nat

namespace LinkDialer

def new (listening : List Bool) (settings : ConnectorSettings) : LinkDialer :=
  ⟨.ofEndpoints (listening.map fun _ => .wildcard 1) settings, listening, 0⟩

variable (l : LinkDialer)

/-- Nobody listens at a position any more. -/
def stop (position : Nat) : LinkDialer := { l with listening := l.listening.set position false }

/-- An attempt at the endpoint at a position. -/
def attempt (isTimeOver : Bool) (position : Nat) : DialAttempt Nat :=
  if l.listening[position]?.getD false then .connected position
  else .failed (Dialer.timedOut (.wildcard 1)) isTimeOver

/-- Opens a connection and tells the position it leads to. -/
def dial? : Option (Except Failure Nat × LinkDialer) := do
  let round := List.replicate l.listening.length (l.attempt false)
  let dialed ← l.dialer.dial? (round ++ [l.attempt true])
  let took := match dialed.result with
    | .error (.connect _) => l.dialer.settings.connectTimeout
    | _ => 0
  return (dialed.result, { l with dialer := dialed.dialer, waited := l.waited + took })

end LinkDialer

end RemoteCall
