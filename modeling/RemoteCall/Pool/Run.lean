import RemoteCall.Pool.Basic

/-!
# Users of a pool

Any number of tasks use one pool at the same time. Each does one step after another, and a step is
what happens while one lock is held once, one flag is read or one connection is opened or closed;
between two steps of a task any others may come. A run is a list of steps in the order in which they
happen. A step that its task is not ready for changes nothing.
-/

namespace RemoteCall

/-- What a task does next. -/
inductive PoolTask where
  /-- Checks that the pool is open before it looks for a connection. -/
  | arriving (key : String) (hasLooked : Bool)
  | looking (key : String) (hasLooked : Bool)
  /-- Opens a connection for a reserved place. -/
  | opening (key : String)
  /-- Checks once more that the pool is open. -/
  | opened (key : String) (c : Nat)
  | filling (key : String) (c : Nat)
  /-- Closes a connection opened for a pool that is closed by now. -/
  | refusing (key : String) (c : Nat)
  /-- Gives up a reserved place. -/
  | releasing (key : String)
  | holding (c : Nat)
  /-- Closes a connection whose exchange was interrupted. -/
  | interrupted (c : Nat)
  /-- Looks for the key under which a connection is in use. -/
  | returning (c : Nat)
  | restoring (key : String) (c : Nat)
  /-- Closes a connection that the pool does not keep. -/
  | discarding (c : Nat)
  /-- Asks for the keys of a pool just marked as closed. -/
  | closing
  | draining (keys : List String)
  /-- Closes connections that a slot gave up. -/
  | dropping (connections : List Nat) (keys : List String)
  | finished
deriving DecidableEq, Repr

/-- A pool, the connections that are open, the number of connections made so far, by which the next
one is known, and the tasks. -/
structure PoolRun where
  pool : Pool
  openConnections : List Nat
  made : Nat
  tasks : List PoolTask
deriving DecidableEq, Repr

/-- What happens next in a run. -/
inductive PoolStep where
  /-- A new task wants a connection. -/
  | acquire (key : String)
  /-- A new task closes the pool. -/
  | close
  /-- A task does the one thing that it can do next. -/
  | advance (task : Nat)
  | opens (task : Nat)
  | failsToOpen (task : Nat)
  /-- A task that waits or opens a connection gives up. -/
  | giveUp (task : Nat)
  /-- A holder hands its connection back. -/
  | handBack (task : Nat)
  /-- A holder is stopped in the middle of its exchange. -/
  | interrupt (task : Nat)
  /-- A connection closes by itself. -/
  | hangUp (c : Nat)
deriving DecidableEq, Repr

namespace PoolRun

def start (p : Pool) : PoolRun := ⟨p, [], 0, []⟩

variable (r : PoolRun)

def isOpen (c : Nat) : Bool := r.openConnections.contains c

def closeConnection (c : Nat) : PoolRun :=
  { r with openConnections := r.openConnections.filter (· != c) }

def setTask (i : Nat) (t : PoolTask) : PoolRun := { r with tasks := r.tasks.set i t }

def addTask (t : PoolTask) : PoolRun := { r with tasks := r.tasks ++ [t] }

/-- What a task does after its look for a connection. -/
def afterLook (key : String) (hasLooked : Bool) : SlotGrant → PoolTask
  | .connection c => .holding c
  | .lookAgain => .arriving key true
  | .reservation => .opening key
  | .full => .arriving key hasLooked

/-- The one step that a task can do without anyone else. -/
def advanceTask (i : Nat) : PoolTask → PoolRun
  | .arriving key hasLooked =>
    r.setTask i (if r.pool.isClosed then .finished else .looking key hasLooked)
  | .looking key hasLooked =>
    let (granted, pool) := r.pool.grant r.isOpen key hasLooked
    { r with pool := pool }.setTask i (afterLook key hasLooked granted)
  | .opened key c => r.setTask i (if r.pool.isClosed then .refusing key c else .filling key c)
  | .filling key c => { r with pool := r.pool.fill key c }.setTask i (.holding c)
  | .refusing key c => (r.closeConnection c).setTask i (.releasing key)
  | .releasing key => { r with pool := r.pool.release key }.setTask i .finished
  | .interrupted c => (r.closeConnection c).setTask i (.returning c)
  | .returning c =>
    r.setTask i (match r.pool.owner? c with
      | some key => .restoring key c
      | none => .discarding c)
  | .restoring key c =>
    let (kept, pool) := r.pool.takeBack r.isOpen key c
    { r with pool := pool }.setTask i (if kept then .finished else .discarding c)
  | .discarding c => (r.closeConnection c).setTask i .finished
  | .closing => r.setTask i (.draining (r.pool.slots.map Prod.fst))
  | .draining [] => r.setTask i .finished
  | .draining (key :: keys) =>
    let (dropped, pool) := r.pool.drainSlot key
    { r with pool := pool }.setTask i (.dropping dropped keys)
  | .dropping [] keys => r.setTask i (.draining keys)
  | .dropping (c :: cs) keys => (r.closeConnection c).setTask i (.dropping cs keys)
  | .opening _ | .holding _ | .finished => r

def openConnection (i : Nat) (key : String) : PoolRun :=
  { r with openConnections := r.made :: r.openConnections, made := r.made + 1 }.setTask i
    (.opened key r.made)

def step : PoolStep → PoolRun
  | .acquire key => { r with pool := r.pool.withSlot key }.addTask (.arriving key false)
  | .close =>
    if r.pool.isClosed then r.addTask .finished
    else { r with pool := r.pool.markClosed }.addTask .closing
  | .advance i => (r.tasks[i]?).elim r (r.advanceTask i)
  | .opens i =>
    match r.tasks[i]? with
    | some (.opening key) => r.openConnection i key
    | _ => r
  | .failsToOpen i =>
    match r.tasks[i]? with
    | some (.opening key) => r.setTask i (.releasing key)
    | _ => r
  | .giveUp i =>
    match r.tasks[i]? with
    | some (.arriving _ _) => r.setTask i .finished
    | some (.opening key) => r.setTask i (.releasing key)
    | _ => r
  | .handBack i =>
    match r.tasks[i]? with
    | some (.holding c) => r.setTask i (.returning c)
    | _ => r
  | .interrupt i =>
    match r.tasks[i]? with
    | some (.holding c) => r.setTask i (.interrupted c)
    | _ => r
  | .hangUp c => r.closeConnection c

def run (steps : List PoolStep) : PoolRun := steps.foldl step r

/-- So many steps of one task with nobody in between. -/
def advance (i n : Nat) : PoolRun := r.run (List.replicate n (.advance i))

def closeConnections (cs : List Nat) : PoolRun := cs.foldl closeConnection r

/-- What handing a connection back comes to with nobody in between. -/
def recycle (c : Nat) : PoolRun :=
  let (kept, pool) := r.pool.recycle r.isOpen c
  { r with pool := pool }.closeConnections (if kept then [] else [c])

/-- What closing the pool comes to with nobody in between. -/
def close : PoolRun :=
  let (dropped, pool) := r.pool.close
  { r with pool := pool }.closeConnections dropped

end PoolRun

end RemoteCall
