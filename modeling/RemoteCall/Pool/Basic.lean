import RemoteCall.Failure.Basic
import RemoteCall.Pool.Slot
import RemoteCall.Settings.Basic

/-!
# Connection pools

A pool keeps a slot for each key. Whoever acquires a connection of a key has it alone until it is
recycled. Opening a connection happens outside of every lock, between reserving a place and filling
it. A closed pool hands out nothing.
-/

namespace RemoteCall

structure Pool where
  name : String
  settings : PoolSettings
  slots : List (String × Slot)
  isClosed : Bool
deriving DecidableEq, Repr

namespace Pool

def new (name : String) (settings : PoolSettings) : Pool := ⟨name, settings, [], false⟩

variable (p : Pool)

def closedFailure : Failure := .poolClosed p.name

def timeoutFailure : Failure := .poolTimeout p.settings.acquireTimeout

def slot (key : String) : Slot := (p.slots.lookup key).getD .empty

/-- Replaces the slot of a key in its place, or adds it. -/
def setSlot (key : String) (s : Slot) : Pool :=
  if (p.slots.lookup key).isSome then
    { p with slots := p.slots.map fun (k, old) => (k, if k = key then s else old) }
  else { p with slots := p.slots ++ [(key, s)] }

/-- Adds an empty slot for a key that has none. -/
def withSlot (key : String) : Pool := p.setSlot key (p.slot key)

def idle (key : String) : Nat := (p.slot key).free.length

def inUse (key : String) : Nat := (p.slot key).used.length

/-- One look for a connection of a key. -/
def grant (isOpen : Nat → Bool) (key : String) (hasLooked : Bool) : SlotGrant × Pool :=
  let (granted, s) := (p.slot key).grant isOpen p.settings.maxConnections hasLooked
  (granted, p.setSlot key s)

def fill (key : String) (c : Nat) : Pool := p.setSlot key ((p.slot key).fill c)

def release (key : String) : Pool := p.setSlot key (p.slot key).release

/-- Acquiring a connection while nobody else uses the pool: one is handed out, or a place for one is
reserved, or waiting would be in vain. -/
def acquire (isOpen : Nat → Bool) (key : String) : Except Failure (Option Nat) × Pool :=
  if p.isClosed then (.error p.closedFailure, p)
  else
    match p.grant isOpen key true with
    | (.connection c, p) => (.ok (some c), p)
    | (.reservation, p) => (.ok none, p)
    | (_, p) => (.error p.timeoutFailure, p)

/-- The key under which a connection is in use. -/
def owner? (c : Nat) : Option String := (p.slots.find? (·.2.used.contains c)).map Prod.fst

/-- Takes back a connection that is in use under a key. The pool says whether it keeps it; if not,
the connection is to be closed. -/
def takeBack (isOpen : Nat → Bool) (key : String) (c : Nat) : Bool × Pool :=
  let isReusable := !p.isClosed && isOpen c
  let (kept, s) := (p.slot key).takeBack c isReusable p.settings.maxConnections
  (kept, p.setSlot key s)

/-- Takes back a connection under whatever key it is in use. One that is not in use here is not
kept. -/
def recycle (isOpen : Nat → Bool) (c : Nat) : Bool × Pool :=
  match p.owner? c with
  | some key => p.takeBack isOpen key c
  | none => (false, p)

def markClosed : Pool := { p with isClosed := true }

/-- Gives up the connections of a key, which are to be closed. -/
def drainSlot (key : String) : List Nat × Pool :=
  let (dropped, s) := (p.slot key).drain
  (dropped, p.setSlot key s)

def drainSlots : List String → Pool → List Nat × Pool
  | [], p => ([], p)
  | key :: keys, p =>
    let (dropped, p) := p.drainSlot key
    let (more, p) := drainSlots keys p
    (dropped ++ more, p)

/-- Closes the pool, and gives the connections to be closed with it. The slots are emptied in the
order in which they were added; any other order comes to the same. -/
def close : List Nat × Pool :=
  if p.isClosed then ([], p) else drainSlots (p.slots.map Prod.fst) p.markClosed

end Pool

end RemoteCall
