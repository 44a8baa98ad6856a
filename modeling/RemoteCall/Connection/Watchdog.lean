/-!
# The watchdog

Open connections are known to a watchdog, which keeps a ticker running as long as it knows one. At
each tick connections that nobody holds any more are forgotten and the others look at the clock. A
ticker is known by a token and runs until its token is cancelled; connections are known by numbers.
-/

namespace RemoteCall

structure Watchdog where
  watched : List Nat
  /-- The token of the ticker in charge. -/
  ticker? : Option Nat
  /-- The tokens that are not cancelled. -/
  running : List Nat
  nextToken : Nat
deriving DecidableEq, Repr

namespace Watchdog

def initial : Watchdog := ⟨[], none, [], 0⟩

variable (w : Watchdog)

def isTicking : Bool := w.ticker?.isSome

def start : Watchdog :=
  { w with
    ticker? := some w.nextToken
    running := w.nextToken :: w.running
    nextToken := w.nextToken + 1 }

/-- Cancels the token of a ticker, which is then no longer in charge. -/
def stop (token : Nat) : Watchdog :=
  { w with ticker? := none, running := w.running.filter (· != token) }

/-- Starts a ticker if there is none in charge. -/
def register (connection : Nat) : Watchdog :=
  let w := { w with watched := connection :: w.watched.filter (· != connection) }
  if w.isTicking then w else w.start

/-- The ticker in charge stops with the last connection. -/
def unregister (connection : Nat) : Watchdog :=
  let w := { w with watched := w.watched.filter (· != connection) }
  match w.ticker? with
  | some token => if w.watched.isEmpty then w.stop token else w
  | none => w

/-- Forgets the connections that nobody holds. Those left are the ones a tick looks at. -/
def prune (isHeld : Nat → Bool) : Watchdog := { w with watched := w.watched.filter isHeld }

/-- A ticker whose tick found nothing stops itself, unless there is something again or its token
is cancelled already. -/
def stopIfIdle (token : Nat) : Watchdog :=
  if w.running.contains token && w.watched.isEmpty then w.stop token else w

/-- The steps of all who touch the watchdog, each done under its lock. -/
inductive Step where
  | register (connection : Nat)
  | unregister (connection : Nat)
  | prune (held : List Nat)
  | stopIfIdle (token : Nat)
deriving DecidableEq, Repr

def step : Step → Watchdog
  | .register connection => w.register connection
  | .unregister connection => w.unregister connection
  | .prune held => w.prune held.contains
  | .stopIfIdle token => w.stopIfIdle token

end Watchdog

end RemoteCall
