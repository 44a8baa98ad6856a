import RemoteCall.Loopback.Link
import RemoteCall.Pool.Run

/-!
# A pool of links

A pool whose connections are links, used by one task after another. What opens a link is left to the
owner of the pool.
-/

namespace RemoteCall

structure LinkPool where
  run : PoolRun
  /-- The links by the numbers of their connections. -/
  links : List Link

/-- What acquiring comes to when nobody else acts. -/
inductive LinkGrant where
  | connection (c : Nat)
  /-- A place is reserved by a task, and a connection for it has to be opened. -/
  | place (task : Nat)
  | failed (f : Failure)

namespace LinkPool

def new (name : String) (settings : PoolSettings) : LinkPool := ⟨.start (.new name settings), []⟩

variable (p : LinkPool)

/-- Brings together what the pool and what the links know of closed connections. -/
def settle : LinkPool :=
  let closed := (p.links.zipIdx.filter (·.1.near.connection.isClosed)).map Prod.snd
  let run := p.run.closeConnections closed
  ⟨run, p.links.zipIdx.map fun (link, c) => if run.isOpen c then link else link.close⟩

def setLink (c : Nat) (link : Link) : LinkPool := { p with links := p.links.set c link }.settle

/-- Looks for a connection, waiting for nobody. -/
def acquire (key : String) : LinkGrant × LinkPool :=
  let task := p.run.tasks.length
  let p : LinkPool := { p with run := (p.run.step (.acquire key)).advance task 4 }
  match p.run.tasks[task]? with
  | some (.holding c) => (.connection c, p)
  | some (.opening _) => (.place task, p)
  | some .finished => (.failed p.run.pool.closedFailure, p)
  | _ => (.failed p.run.pool.timeoutFailure, { p with run := p.run.step (.giveUp task) })

/-- Fills a reserved place. -/
def fill (task : Nat) (link : Link) : Nat × LinkPool :=
  (p.run.made, ⟨(p.run.step (.opens task)).advance task 2, p.links ++ [link]⟩)

/-- Gives up a reserved place for which no connection could be opened. -/
def release (task : Nat) : LinkPool :=
  { p with run := (p.run.step (.failsToOpen task)).advance task 1 }

/-- What an attempt to open a connection for a reserved place comes to. -/
def opened (task : Nat) : Except Failure Link → Except Failure Nat × LinkPool
  | .error f => (.error f, p.release task)
  | .ok link =>
    let (c, p) := p.fill task link
    (.ok c, p)

/-- A link made outside of the pool. -/
def addForeign (link : Link) : Nat × LinkPool :=
  let c := p.run.made
  let run := { p.run with made := c + 1, openConnections := c :: p.run.openConnections }
  (c, ⟨run, p.links ++ [link]⟩)

def recycle (c : Nat) : LinkPool := { p with run := p.run.recycle c }.settle

def hangUp (c : Nat) : LinkPool := { p with run := p.run.step (.hangUp c) }.settle

def close : LinkPool := { p with run := p.run.close }.settle

end LinkPool

end RemoteCall
