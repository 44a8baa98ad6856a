import RemoteCall.Client.Basic
import RemoteCall.Connection.Handshake

/-!
# Links

Two connections joined in memory: what one end sends arrives at the other, and an end that is closed
is the end of what the other receives. Each end knows its own record types. An operation is stated
for the near end; the far end does the same on the link turned round.
-/

namespace RemoteCall

open Wire

structure LinkEnd where
  connection : Connection
  registry : Registry
  incoming : ByteStream

structure Link where
  near : LinkEnd
  far : LinkEnd

namespace LinkEnd

/-- An end that has sent nothing. -/
def new (c : Connection) : LinkEnd := ⟨c, .initial, .empty⟩

def push (e : LinkEnd) (bytes : List UInt8) : LinkEnd :=
  { e with incoming := e.incoming.push bytes }

/-- Ends what arrives if the other end is closed. -/
def endIf (e : LinkEnd) (isClosed : Bool) : LinkEnd :=
  if isClosed then { e with incoming := e.incoming.finish } else e

end LinkEnd

namespace Link

variable (l : Link)

def flip : Link := ⟨l.far, l.near⟩

/-- Changes the near connection, which the far end notices if it is closed. -/
def setNear (c : Connection) : Link :=
  ⟨{ l.near with connection := c }, l.far.endIf c.isClosed⟩

def close : Link := l.setNear l.near.connection.close

/-- Sends bytes as they are. -/
def send (bytes : List UInt8) : Link := { l with far := l.far.push bytes }

/-- Sends the frame that the near end wrote, if there is one. -/
def sendFrame (written : Except Failure Frame.Sealed × Connection) :
    Except Failure Frame.Sealed × Link :=
  match written with
  | (.ok frame, c) => (.ok frame, (l.setNear c).send frame.bytes)
  | (.error f, c) => (.error f, l.setNear c)

def write (body : Writer) : Except Failure Frame.Sealed × Link :=
  l.sendFrame (l.near.connection.writeFrame body)

/-- Reads the next frame; nothing while the read waits. -/
def read? {α : Type} (mode : ReadMode) (reader : Nat → Reader α) :
    Option (Connection.Received α × Link) :=
  (l.near.connection.readFrame? l.near.registry mode reader l.near.incoming).map
    fun (received, rest) =>
      let near : LinkEnd := ⟨received.connection, received.registry, rest⟩
      (received, { l with near := near }.setNear received.connection)

/-- Exchanges headers. The outcome at the near end is nothing while it waits. -/
def greet (header : Header) : Option (Except Failure Unit) × Link :=
  match l.sendFrame (l.near.connection.sendHeader l.near.registry header) with
  | (.error f, l) => (some (.error f), l)
  | (.ok _, l) =>
    match l.near.connection.readHeader? l.near.registry l.near.incoming with
    | none => (none, l)
    | some (received, rest) =>
      let near : LinkEnd := ⟨received.connection, received.registry, rest⟩
      (some received.result, { l with near := near }.setNear received.connection)

end Link

/-- What a peer does with a call it has read. -/
inductive PeerAction where
  | reply (r : Reply)
  | frame (body : List UInt8)
  | hangUp

namespace Link

variable (l : Link)

/-- The far end acts on a call. -/
def act : PeerAction → Link
  | .reply r => (l.flip.write (r.writer l.far.registry)).2.flip
  | .frame body =>
    match Frame.close Frame.lengthLimit body with
    | .ok frame => (l.flip.send frame.bytes).flip
    | .error _ => l
  | .hangUp => l.flip.close.flip

/-- The far end reads a call. -/
def takeCall? : Option Call × Link :=
  match l.flip.read? .idle Call.reader with
  | some (received, l) => (received.result.toOption, l.flip)
  | none => (none, l)

end Link

end RemoteCall
