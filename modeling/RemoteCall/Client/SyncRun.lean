import RemoteCall.Client.Basic
import RemoteCall.Pool.Run

/-!
# Synchronous calls over one pool

Any number of callers make synchronous calls over the connections of one pool. A caller is a task of
the pool; while it holds a connection it writes its call and reads one reply. A connection may close
while a caller waits for its reply, which it may still get then. The server answers the calls on a
connection in order, each at most once, and any connection may break at any time. Calls and replies
are told apart by their callers, which the frames themselves do not name.
-/

namespace RemoteCall

/-- How far a caller has come with the connection it holds. -/
inductive Exchange where
  | notSent
  | sent
  /-- It has found its connection open and waits for a reply. -/
  | awaiting
  /-- It has read a reply, which answers the call of this caller. -/
  | answered (caller : Nat)
  /-- It has read a reply that it cannot decode and that costs it no connection. -/
  | unreadable (caller : Nat)
  /-- Its call could not be written, or no reply could be read. -/
  | failed
deriving DecidableEq, Repr

/-- The caller is done with its connection. -/
def Exchange.isDone : Exchange → Bool
  | .answered _ | .unreadable _ | .failed => true
  | _ => false

/-- A frame on its way over a connection: a call, or the reply to a call. -/
structure InFlight where
  connection : Nat
  caller : Nat
deriving DecidableEq, Repr

/-- The calls that the server has not answered and the replies that nobody has read, each in the
order in which they were sent. -/
structure SyncRun where
  pool : PoolRun
  exchanges : List Exchange
  calls : List InFlight
  replies : List InFlight
deriving DecidableEq, Repr

inductive SyncStep where
  /-- A step of the pool that does not hand back a connection. -/
  | pool (s : PoolStep)
  | write (caller : Nat)
  /-- A call cannot be encoded. Nothing is sent. -/
  | failsToEncode (caller : Nat)
  /-- The server answers the oldest call on a connection. -/
  | answer (connection : Nat)
  /-- The server leaves the oldest call on a connection without an answer. -/
  | ignore (connection : Nat)
  /-- A caller begins to read its reply. -/
  | await (caller : Nat)
  | read (caller : Nat)
  | failsToDecode (caller : Nat)
  /-- A write or a read finds its connection closed, or closes it. -/
  | breakDown (caller : Nat)
  /-- A caller that is done hands back its connection. -/
  | handBack (caller : Nat)
deriving DecidableEq, Repr

namespace SyncRun

def start (p : Pool) : SyncRun := ⟨PoolRun.start p, [], [], []⟩

variable (r : SyncRun)

/-- The connection that a caller holds. -/
def held? (i : Nat) : Option Nat :=
  match r.pool.tasks[i]? with
  | some (.holding c) => some c
  | _ => none

/-- The first frame on a connection, and the frames without it. -/
def takeFirst? (c : Nat) : List InFlight → Option (InFlight × List InFlight)
  | [] => none
  | f :: fs =>
    if f.connection = c then some (f, fs)
    else (takeFirst? c fs).map fun (found, rest) => (found, f :: rest)

def setExchange (i : Nat) (e : Exchange) : SyncRun := { r with exchanges := r.exchanges.set i e }

/-- A step of the pool. A task that it adds has an exchange that has not begun. -/
def stepPool (s : PoolStep) : SyncRun :=
  let pool := r.pool.step s
  { r with
    pool := pool
    exchanges := r.exchanges ++ List.replicate (pool.tasks.length - r.exchanges.length) .notSent }

/-- A caller that waits reads the oldest reply on its connection. -/
def readReply (i : Nat) (e : Nat → Exchange) : SyncRun :=
  match r.held? i, r.exchanges[i]? with
  | some c, some .awaiting =>
    match takeFirst? c r.replies with
    | some (f, rest) => { r with replies := rest }.setExchange i (e f.caller)
    | none => r
  | _, _ => r

def step : SyncStep → SyncRun
  | .pool (.handBack _) => r
  | .pool s => r.stepPool s
  | .write i =>
    match r.held? i, r.exchanges[i]? with
    | some c, some .notSent =>
      if r.pool.isOpen c then { r with calls := r.calls ++ [InFlight.mk c i] }.setExchange i .sent else r
    | _, _ => r
  | .failsToEncode i =>
    match r.held? i, r.exchanges[i]? with
    | some _, some .notSent => r.setExchange i .failed
    | _, _ => r
  | .answer c =>
    match takeFirst? c r.calls with
    | some (f, rest) => { r with calls := rest, replies := r.replies ++ [f] }
    | none => r
  | .ignore c =>
    match takeFirst? c r.calls with
    | some (_, rest) => { r with calls := rest }
    | none => r
  | .await i =>
    match r.held? i, r.exchanges[i]? with
    | some c, some .sent => if r.pool.isOpen c then r.setExchange i .awaiting else r
    | _, _ => r
  | .read i => r.readReply i .answered
  | .failsToDecode i => r.readReply i .unreadable
  | .breakDown i =>
    match r.held? i, r.exchanges[i]? with
    | some c, some e =>
      if e.isDone then r else { r with pool := r.pool.closeConnection c }.setExchange i .failed
    | _, _ => r
  | .handBack i =>
    match r.exchanges[i]? with
    | some e => if e.isDone then r.stepPool (.handBack i) else r
    | none => r

def run (steps : List SyncStep) : SyncRun := steps.foldl step r

end SyncRun

end RemoteCall
