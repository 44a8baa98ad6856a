/-!
# Slots

A slot holds the connections of one key: those that are free, the most recently returned last, those
in use, and a count of those being opened. Connections are known by numbers. Each function here is
what happens to a slot while its lock is held once.
-/

namespace RemoteCall

structure Slot where
  free : List Nat
  used : List Nat
  connecting : Nat
deriving DecidableEq, Repr

/-- What a look at a slot comes to. -/
inductive SlotGrant where
  /-- A free connection is handed out. -/
  | connection (c : Nat)
  /-- A connection in use may come back soon, so look again before opening another. -/
  | lookAgain
  /-- A place for a new connection is reserved. -/
  | reservation
  | full
deriving DecidableEq, Repr

namespace Slot

def empty : Slot := ⟨[], [], 0⟩

variable (s : Slot)

/-- The connections that count against the limit. -/
def live : Nat := s.free.length + s.used.length + s.connecting

/-- Takes the free connection returned last among those still open, and forgets the closed ones
met before. -/
def popOpen (isOpen : Nat → Bool) : Option Nat × List Nat :=
  match s.free.reverse.dropWhile (!isOpen ·) with
  | [] => (none, [])
  | c :: rest => (some c, rest.reverse)

/-- One look for a connection. Who has looked once before does not look again. -/
def grant (isOpen : Nat → Bool) (max : Nat) (hasLooked : Bool) : SlotGrant × Slot :=
  match s.popOpen isOpen with
  | (some c, free) => (.connection c, { s with free := free, used := s.used ++ [c] })
  | (none, free) =>
    let s := { s with free := free }
    if !s.used.isEmpty && !hasLooked then (.lookAgain, s)
    else if s.live < max then (.reservation, { s with connecting := s.connecting + 1 })
    else (.full, s)

/-- Fills a reserved place. -/
def fill (c : Nat) : Slot := { s with used := s.used ++ [c], connecting := s.connecting - 1 }

/-- Gives up a reserved place. -/
def release : Slot := { s with connecting := s.connecting - 1 }

/-- Takes back a connection, and keeps it for reuse if it is worth it and there is room. -/
def takeBack (c : Nat) (isReusable : Bool) (max : Nat) : Bool × Slot :=
  let s := { s with used := s.used.filter (· != c) }
  if isReusable && s.free.length < max then (true, { s with free := s.free ++ [c] })
  else (false, s)

/-- Gives up all connections. -/
def drain : List Nat × Slot := (s.free ++ s.used, { s with free := [], used := [] })

end Slot

end RemoteCall
