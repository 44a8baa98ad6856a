import RemoteCall.Loopback.Link
import RemoteCall.Server.Basic

/-!
# A server over links

The service of one client whose connection is in memory, and synchronous calls taken through both
ends.
-/

namespace RemoteCall

open Wire

/-- A server, its service for one client, what it has still to read, and the client's end. -/
structure Served where
  server : Server
  /-- The record types known to the server. -/
  registry : Registry
  service : Service
  incoming : ByteStream
  client : LinkEnd

namespace Served

variable (s : Served)

/-- Lets the service take in what has been sent so far, and the client's end receive what it sends
in turn. -/
def pump : Served :=
  let (service, rest) := s.service.receive s.server s.registry s.incoming
  let frames := (service.sent.drop s.service.sent.length).map (·.2.bytes)
  { s with
    service := service
    incoming := rest
    client := (frames.foldl LinkEnd.push s.client).endIf (!service.isOpen) }

/-- A client's end accepted by a server. -/
def acceptEnd (v : Server) (g : Registry) (client : LinkEnd) : Served :=
  let (greeting?, service) := Service.start v g client.connection.peer 1
  let client := match greeting? with
    | some frame => client.push frame.bytes
    | none => client.endIf true
  ⟨v, g, service, .empty, client⟩

/-- A client accepted by a server. -/
def accept (v : Server) (g : Registry) (c : Connection) : Served := acceptEnd v g (.new c)

/-- The client sends bytes. -/
def send (bytes : List UInt8) : Served := { s with incoming := s.incoming.push bytes }.pump

/-- The client sends no more. -/
def hangUp : Served := { s with incoming := s.incoming.finish }.pump

def stop : Served := { s with service := s.service.stop }.pump

/-- The client reads the next frame; nothing while it waits. -/
def read? {α : Type} (reader : Nat → Reader α) : Option (Connection.Received α × Served) :=
  (s.client.connection.readFrame? s.client.registry .reply reader s.client.incoming).map
    fun (received, rest) =>
      (received, { s with client := ⟨received.connection, received.registry, rest⟩ })

/-- The client sends the frame it wrote, if there is one. -/
def sendFrame (written : Except Failure Frame.Sealed × Connection) :
    Except Failure Unit × Served :=
  let s := { s with client := { s.client with connection := written.2 } }
  match written.1 with
  | .ok frame => (.ok (), s.send frame.bytes)
  | .error f => (.error f, s)

/-- A client's end connected to a server. Nothing comes of it if the headers cannot be exchanged. -/
def connect? (v : Server) (g : Registry) (client : LinkEnd) (header : Header) : Option Served :=
  match client.connection.sendHeader client.registry header with
  | (.error _, _) => none
  | (.ok frame, c) =>
    let s := (acceptEnd v g { client with connection := c }).send frame.bytes
    match s.client.connection.readHeader? s.client.registry s.client.incoming with
    | some (⟨.ok (), c, known⟩, rest) => some { s with client := ⟨c, known, rest⟩ }
    | _ => none

/-- A synchronous call of a client to the server. A reply that does not come is the end of the
stream. -/
def invoke (k : Client) (method : String) (args : List Value) : CallOutcome × Served :=
  let call : Call := ⟨syncSequence, method, args⟩
  match s.sendFrame (s.client.connection.writeCall s.client.registry call) with
  | (.error f, s) => (.error f, s)
  | (.ok (), s) =>
    match s.read? Reply.syncReader with
    | none => (.error .endOfStream, s)
    | some (received, s) =>
      (received.result.bind (k.syncOutcome received.connection method), s)

/-- The outcomes of synchronous calls made one after another. -/
def invokeAll (k : Client) : Served → List (String × List Value) → List CallOutcome × Served
  | s, [] => ([], s)
  | s, (method, args) :: rest =>
    let (outcome, s) := s.invoke k method args
    let (outcomes, s) := invokeAll k s rest
    (outcome :: outcomes, s)

/-- The calls run so far. -/
def ran : List ResolvedCall := (s.service.session?.map Session.ran).getD []

/-- The connection closes, and the queued hooks run. -/
def finish : Served :=
  let s := s.hangUp
  match s.service with
  | .serving t => { s with service := .serving t.close.runHooks }
  | _ => s

end Served

end RemoteCall
