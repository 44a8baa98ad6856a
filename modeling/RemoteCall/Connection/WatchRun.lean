import RemoteCall.Connection.Watchdog

/-!
# Users of the watchdog

Any number of tasks open, close and let go of connections, while tickers and whoever else wants to
look at all connections there are. Each task does one step after another, and a step is what happens
while the lock of the watchdog is held once or one flag is read or set; between two steps of a task
any others may come. A look at all connections, a tick, first has the connections forgotten that
nobody holds and then goes through those that are left; the ticker whose tick found none stops
itself, if there is still none. A connection may be let go of while a tick forgets others, so the
tick takes hold of those left in a step of its own. A step that its task is not ready for changes
nothing.
-/

namespace RemoteCall

/-- What is left to do of a tick. -/
structure Tick where
  /-- The token of the ticker that ticks, if it is one. -/
  ticker? : Option Nat
  hasFound : Bool
  /-- The connections still to be looked at. -/
  left : List Nat
deriving DecidableEq, Repr

/-- What a task does next. -/
inductive WatchTask where
  /-- Sets the flag of a connection that it closes. -/
  | closing (c : Nat)
  | unregistering (c : Nat)
  /-- A ticker between two ticks. -/
  | waiting (token : Nat)
  /-- Has the watchdog forget what nobody holds. -/
  | pruning (ticker? : Option Nat)
  /-- Takes hold of the connections that the watchdog knows. -/
  | collecting (ticker? : Option Nat)
  /-- Looks whether the next connection is stalled. -/
  | looking (t : Tick)
  /-- Unregisters a connection that it found stalled and closed. -/
  | evicting (c : Nat) (t : Tick)
  /-- Reads the flag of the connection that it looked at. -/
  | looked (c : Nat) (t : Tick)
  /-- Unregisters a connection that it found closed. -/
  | removing (c : Nat) (t : Tick)
  /-- A ticker whose tick found nothing. -/
  | idling (token : Nat)
  | finished
deriving DecidableEq, Repr

namespace WatchTask

/-- The ticker that does the task, between ticks or in one. -/
def ticker? : WatchTask → Option Nat
  | .waiting token | .idling token => some token
  | .pruning k | .collecting k => k
  | .looking t | .evicting _ t | .looked _ t | .removing _ t => t.ticker?
  | .closing _ | .unregistering _ | .finished => none

end WatchTask

/-- The watchdog, the connections that somebody holds, those that are open, the number of
connections made so far, by which the next one is known, and the tasks. -/
structure WatchRun where
  watchdog : Watchdog
  held : List Nat
  openConnections : List Nat
  made : Nat
  tasks : List WatchTask
deriving DecidableEq, Repr

/-- What happens next in a run. -/
inductive WatchStep where
  /-- Somebody opens a connection and holds it. -/
  | opens
  /-- Somebody registers a connection that is known, or was. -/
  | register (c : Nat)
  /-- A new task unregisters a connection. -/
  | unregister (c : Nat)
  /-- A new task closes a connection. -/
  | close (c : Nat)
  /-- The last one to hold a connection lets go of it, and a new task closes it. -/
  | letGo (c : Nat)
  /-- A new task ticks. -/
  | tick
  /-- It is time for a ticker to tick. -/
  | beat (task : Nat)
  /-- A tick finds the connection stalled that it looks at, and closes it. -/
  | stalls (task : Nat)
  /-- A task does the one thing that it can do next. -/
  | advance (task : Nat)
deriving DecidableEq, Repr

/-- The task that does the step. -/
def WatchStep.task? : WatchStep → Option Nat
  | .beat i | .stalls i | .advance i => some i
  | _ => none

namespace WatchRun

def start : WatchRun := ⟨.initial, [], [], 0, []⟩

variable (r : WatchRun)

def isOpen (c : Nat) : Bool := r.openConnections.contains c

def closeConnection (c : Nat) : WatchRun :=
  { r with openConnections := r.openConnections.filter (· != c) }

def setTask (i : Nat) (t : WatchTask) : WatchRun := { r with tasks := r.tasks.set i t }

def addTask (t : WatchTask) : WatchRun := { r with tasks := r.tasks ++ [t] }

/-- Registers a connection. A ticker that this starts is a new task. -/
def register (c : Nat) : WatchRun :=
  let next := { r with watchdog := r.watchdog.register c }
  if r.watchdog.isTicking then next else next.addTask (.waiting r.watchdog.nextToken)

def unregister (c : Nat) : WatchRun := { r with watchdog := r.watchdog.unregister c }

/-- What a task does after its tick. -/
def afterTick : Tick → WatchTask
  | ⟨none, _, _⟩ => .finished
  | ⟨some token, hasFound, _⟩ => if hasFound then .waiting token else .idling token

/-- The one step that a task can do without anyone else. -/
def advanceTask (i : Nat) : WatchTask → WatchRun
  | .closing c =>
    if r.isOpen c then (r.closeConnection c).setTask i (.unregistering c)
    else r.setTask i .finished
  | .unregistering c => (r.unregister c).setTask i .finished
  | .waiting token => if r.watchdog.running.contains token then r else r.setTask i .finished
  | .pruning k =>
    { r with watchdog := r.watchdog.prune r.held.contains }.setTask i (.collecting k)
  | .collecting k =>
    let live := r.watchdog.watched.filter r.held.contains
    r.setTask i (.looking ⟨k, !live.isEmpty, live⟩)
  | .looking ⟨k, hasFound, c :: left⟩ => r.setTask i (.looked c ⟨k, hasFound, left⟩)
  | .looking t => r.setTask i (afterTick t)
  | .evicting c t => (r.unregister c).setTask i (.looked c t)
  | .looked c t => r.setTask i (if r.isOpen c then .looking t else .removing c t)
  | .removing c t => (r.unregister c).setTask i (.looking t)
  | .idling token =>
    { r with watchdog := r.watchdog.stopIfIdle token }.setTask i (.waiting token)
  | .finished => r

def step : WatchStep → WatchRun
  | .opens =>
    { r with
      held := r.made :: r.held
      openConnections := r.made :: r.openConnections
      made := r.made + 1 }.register r.made
  | .register c => r.register c
  | .unregister c => r.addTask (.unregistering c)
  | .close c => r.addTask (.closing c)
  | .letGo c => { r with held := r.held.filter (· != c) }.addTask (.closing c)
  | .tick => r.addTask (.pruning none)
  | .beat i =>
    match r.tasks[i]? with
    | some (.waiting token) => r.setTask i (.pruning (some token))
    | _ => r
  | .stalls i =>
    match r.tasks[i]? with
    | some (.looking ⟨k, hasFound, c :: left⟩) =>
      if r.isOpen c then (r.closeConnection c).setTask i (.evicting c ⟨k, hasFound, left⟩) else r
    | _ => r
  | .advance i => (r.tasks[i]?).elim r (r.advanceTask i)

def run (steps : List WatchStep) : WatchRun := steps.foldl step r

end WatchRun

end RemoteCall
