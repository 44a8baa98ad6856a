import RemoteCall.Address
import RemoteCall.Server.Session

/-!
# Servers

A server opens a session for every connection it accepts. Its header tells its name.
-/

namespace RemoteCall

structure Server where
  table : MethodTable
  settings : ServerSettings

namespace Server

/-- The key under which the header tells the name of a server. -/
def nameKey : String := "name"

variable (v : Server)

def header : Header := [(nameKey, .string v.settings.name)]

/-- The name of the connection to a client. -/
def connectionName (client : PeerAddress) : String :=
  v.settings.name ++ "<-" ++ client.host ++ ":" ++ Nat.repr client.port.toNat

/-- Where clients reach a server that listens on a port of an address of this machine. -/
def connectionString (host : String) (port : UInt16) : String :=
  let endpoint := if host = "0.0.0.0" then Endpoint.wildcard port else .ofHost host port
  endpoint.display

/-- The connection to a client that was just accepted. -/
def accept (client : PeerAddress) (seed : UInt64) : Connection :=
  .new (v.connectionName client) client v.settings.connection seed

/-- The session of a connection whose headers are exchanged. -/
def session (g : Registry) (c : Connection) : Session := ⟨v.table, g, c, [], []⟩

end Server

/-- A connection to a client from the time it is accepted. It has a session once the client's header
is read, and none if the headers cannot be exchanged. -/
inductive Service where
  | greeting (c : Connection)
  | serving (s : Session)
  | refused

namespace Service

/-- Begins with sending the server's header, for which there may be no frame. -/
def start (v : Server) (g : Registry) (client : PeerAddress) (seed : UInt64) :
    Option Frame.Sealed × Service :=
  match (v.accept client seed).sendHeader g v.header with
  | (.ok frame, c) => (some frame, .greeting c)
  | (.error _, _) => (none, .refused)

/-- Reads the client's header, or waits for it. -/
def greet (v : Server) (g : Registry) (c : Connection) (stream : ByteStream) :
    Service × ByteStream :=
  match c.readHeader? g stream with
  | none => (.greeting c, stream)
  | some (received, rest) =>
    match received.result with
    | .ok () => (.serving (v.session received.registry received.connection), rest)
    | .error _ => (.refused, rest)

def serve (stream : ByteStream) : Service → Service × ByteStream
  | .serving s =>
    let (s, rest) := s.serve stream
    (.serving s, rest)
  | other => (other, stream)

/-- Takes in all that a stream holds. -/
def receive (v : Server) (g : Registry) (service : Service) (stream : ByteStream) :
    Service × ByteStream :=
  match service with
  | .greeting c =>
    let (service, rest) := greet v g c stream
    service.serve rest
  | other => other.serve stream

def session? : Service → Option Session
  | .serving s => some s
  | _ => none

/-- The replies sent so far with their frames. -/
def sent (service : Service) : List (Reply × Frame.Sealed) :=
  (service.session?.map Session.sent).getD []

/-- The same service without a memory of what it did. -/
def forgetSent : Service → Service
  | .serving s => .serving { s with activity := [] }
  | other => other

def isOpen : Service → Bool
  | .greeting _ => true
  | .serving s => s.isOpen
  | .refused => false

/-- The server shuts down. -/
def stop : Service → Service
  | .serving s => .serving s.close
  | _ => .refused

end Service

end RemoteCall
