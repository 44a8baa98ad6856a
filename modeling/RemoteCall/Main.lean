import RemoteCall.CommandLine
import RemoteCall.Connection.Handshake
import RemoteCall.Method.Builtin
import RemoteCall.Server.Basic
import Std.Async.DNS
import Std.Async.TCP
import Std.Async.Timer

/-!
# The program

Runs the command of a command line over sockets. What is sent and what an arriving frame means is
decided by connections, sessions and clients; here bytes are moved and the clock is read.
-/

namespace RemoteCall.Program

open Std.Async Std.Net

abbrev Socket := TCP.Socket.Client

def now : IO Nat := IO.monoMsNow

/-- The text of a fault the system reports: what went wrong, then its number. A socket's faults
carry the number negated, in 32 bits. -/
def faultText (fault : IO.Error) : String :=
  match fault with
  | .alreadyExists _ code details | .otherError code details | .resourceBusy code details
  | .resourceVanished code details | .unsupportedOperation code details
  | .hardwareFault code details | .unsatisfiedConstraints code details
  | .illegalOperation code details | .protocolError code details | .timeExpired code details
  | .interrupted _ code details | .noFileOrDirectory _ code details
  | .invalidArgument _ code details | .permissionDenied _ code details
  | .resourceExhausted _ code details | .inappropriateType _ code details
  | .noSuchThing _ code details =>
    let number := if code < 2147483648 then code else 0 - code
    details.capitalize ++ " (os error " ++ number.toNat.repr ++ ")"
  | .unexpectedEof | .userError _ => fault.toString

/-- The outcome of an action, unless it takes longer than so many milliseconds. -/
def withTimeout {α : Type} (milliseconds : Nat) (action : Async α) : Async (Option α) :=
  let timer : Async (Option α) := do
    let sleep ← Sleep.mk (Std.Time.Millisecond.Offset.ofNat milliseconds)
    sleep.wait
    return none
  Async.race (some <$> action) timer

/-- The addresses of a host. -/
def addresses (host : String) : Async (List IPAddr) := do
  match IPv4Addr.ofString host, IPv6Addr.ofString host with
  | some a, _ => return [.v4 a]
  | none, some a => return [.v6 a]
  | none, none => return (← DNS.getAddrInfo host "").toList

def socketAddress (port : UInt16) : IPAddr → SocketAddress
  | .v4 a => .v4 ⟨a, port⟩
  | .v6 a => .v6 ⟨a, port⟩

def peerOf (a : SocketAddress) : PeerAddress := ⟨a.ipAddr.toString, a.port⟩

def send (socket : Socket) (frame : Frame.Sealed) : Async Unit :=
  socket.send ⟨frame.bytes.toArray⟩

/-- Adds what arrives next to a stream, or its end. -/
def receive (socket : Socket) (stream : ByteStream) : Async ByteStream := do
  match ← socket.recv? 65536 with
  | some chunk => return stream.push chunk.toList
  | none => return stream.finish

/-- Receives until a reader of the stream no longer waits. -/
partial def receiveFor {α : Type} (socket : Socket) (read? : ByteStream → Option α)
    (stream : ByteStream) : Async α := do
  match read? stream with
  | some a => return a
  | none => receiveFor socket read? (← receive socket stream)

/-- Asynchronous calls are numbered from the time in microseconds. -/
def seed : IO UInt64 := do return .ofNat ((← IO.monoNanosNow) / 1000)

/-- Exchanges headers over a new socket. -/
def handshake (socket : Socket) (c : Connection) (header : Header) :
    Async (Except Failure (Connection × ByteStream)) := do
  match c.sendHeader .initial header with
  | (.error f, _) => return .error f
  | (.ok frame, c) =>
    send socket frame
    let (received, rest) ← receiveFor socket (c.readHeader? .initial) .empty
    return received.result.map fun _ => (received.connection, rest)

/-! ## Calling -/

structure Line where
  socket : Socket
  connection : Connection
  stream : ByteStream

/-- Opens a connection to an endpoint. -/
def connect (d : Dialer) (e : Endpoint) : Async (Except Failure Line) := do
  try
    let some a := (← addresses (e.host?.getD "127.0.0.1")).head?
      | return .error (Dialer.unreachable e "no address")
    let socket ← TCP.Socket.Client.mk
    let target := socketAddress e.port a
    socket.connect target
    let c := Connection.new syncKey (peerOf target) d.settings.connection (← seed)
    return (← handshake socket c d.header).map fun (c, stream) => ⟨socket, c, stream⟩
  catch failure =>
    return .error (Dialer.unreachable e (faultText failure))

/-- Tries endpoints in turn until one can be reached or the time is over, with a pause between two
rounds. -/
partial def dial (d : Dialer) (round : List Nat) (deadline : Nat) : IO (Except Failure Line) := do
  let some e := d.next? | return .error (.invalidAddress .unconfigured)
  let attempted ← (withTimeout (deadline - (← now)) (connect d e)).block
  let time ← now
  let attempt := match attempted.getD (.error (Dialer.timedOut e)) with
    | .ok line => .connected line
    | .error f => .failed f (deadline ≤ time)
  match d.follow round [fun _ => attempt] with
  | .ok dialed => return dialed.result
  | .error (d, round) =>
    if round.isEmpty then IO.sleep (min d.settings.retryPause (deadline - time)).toUInt32
    dial d round deadline

/-- Makes a call and waits for its reply. -/
def call (plan : PlannedCall) : IO CallOutcome := do
  if let some (milliseconds, f) := plan.givesUp? fun _ => none then
    IO.sleep milliseconds.toUInt32
    return .error f
  let deadline := (← now) + plan.dialer.settings.connectTimeout
  match ← dial plan.dialer [] deadline with
  | .error f => return .error f
  | .ok line =>
    match line.connection.writeCall .initial ⟨syncSequence, plan.method, plan.args⟩ with
    | (.error f, _) => return .error f
    | (.ok frame, c) =>
      let exchange : Async (Connection.Received Reply × ByteStream) := do
        send line.socket frame
        receiveFor line.socket (c.readFrame? .initial .reply Reply.syncReader) line.stream
      return (← exchange.block).1.result.bind (plan.client.syncOutcome c plan.method)

/-! ## Serving -/

/-- Serves one client until it is gone. -/
partial def serveClient (v : Server) (socket : Socket) (service : Service) (stream : ByteStream) :
    Async Unit := do
  let (service, stream) := service.receive v .initial stream
  for (_, frame) in service.sent do send socket frame
  if service.isOpen && !stream.isEnded then
    serveClient v socket service.forgetSent (← receive socket stream)

def welcome (v : Server) (socket : Socket) : Async Unit := do
  let (greeting?, service) := Service.start v .initial (peerOf (← socket.getPeerName)) (← seed)
  if let some frame := greeting? then send socket frame
  serveClient v socket service .empty

partial def acceptAll (v : Server) (listener : TCP.Socket.Server) : IO Unit := do
  let socket ← listener.accept.block
  discard (IO.asTask (welcome v socket).block)
  acceptAll v listener

def serve (settings : ServerSettings) (e : Endpoint) : IO Report := do
  let listener ← TCP.Socket.Server.mk
  let some a := (← (addresses (e.host?.getD "0.0.0.0")).block).head?
    | return .failure (Failure.io "no such host").message
  listener.bind (socketAddress e.port a)
  listener.listen 128
  let bound ← listener.getSockName
  IO.eprintln ("Serving on " ++ Server.connectionString bound.ipAddr.toString bound.port)
  acceptAll ⟨Method.builtin settings.name, settings⟩ listener
  return .success ""

/-! ## Commands -/

/-- The text of a file, if it can be read. -/
def fileText? (path : String) : IO (Option String) :=
  try some <$> IO.FS.readFile path catch _ => pure none

def execute : Plan → IO Report
  | .report r => pure r
  | .serve settings e => serve settings e
  | .call p => .ofOutcome <$> call p

def report (args : List String) : IO Report := do
  match CommandLine.parse args with
  | .error stop => return .ofStop stop
  | .ok line =>
    let text? ← (line.config?.mapM fileText? : IO (Option (Option String)))
    try execute (line.plan text?.join (← IO.getEnv CommandLine.bindVariable))
    catch fault => return .failure (Failure.io (faultText fault)).message

end RemoteCall.Program

def main (args : List String) : IO UInt32 := do
  let report ← RemoteCall.Program.report args
  unless report.output.isEmpty do IO.println report.output
  unless report.complaint.isEmpty do IO.eprintln report.complaint
  return report.exitCode
