import RemoteCall.Connection.Handshake
import RemoteCall.Method.Table

/-!
# Sessions

A session serves the calls that arrive on one connection, one after another. A call of a disconnect
hook is queued unless the same call is queued already, and is answered at once; any other call is
run and answered with what it came to. A result that cannot be sent is replaced by a failure that
says so. When no further call can be read or no reply can be sent the connection closes, and the
queued hooks run after that, each once.
-/

namespace RemoteCall

open Wire

/-- What a session does, as far as others can notice. -/
inductive Activity where
  | ran (call : ResolvedCall) (outcome : Except RemoteFailure Value)
  | sent (reply : Reply) (frame : Frame.Sealed)
  | closed

structure Session where
  table : MethodTable
  /-- The record types known to the server. -/
  registry : Registry
  connection : Connection
  /-- Hooks queued and not yet run. -/
  hooks : List ResolvedCall
  activity : List Activity

/-- What happens to a session. -/
inductive SessionEvent where
  /-- The body of a frame arrives. The reply to it reaches the peer unless the connection breaks. -/
  | received (body : List UInt8) (isDelivered : Bool)
  /-- No further frame can be read: the peer hung up, or sent a length that is refused. -/
  | ended
  | shutdown
  | runHook

namespace Session

variable (s : Session)

def isOpen : Bool := !s.connection.isClosed

def note (a : Activity) : Session := { s with activity := s.activity ++ [a] }

def close : Session :=
  if s.isOpen then { s with connection := s.connection.close }.note .closed else s

/-- Queues a hook unless the same call is queued. -/
def queue (call : ResolvedCall) : Session :=
  if s.hooks.any (·.sameCall call) then s else { s with hooks := s.hooks ++ [call] }

def invoke (call : ResolvedCall) : Except RemoteFailure Value × Session :=
  let outcome := s.table.invoke call
  (outcome, s.note (.ran call outcome))

/-- What a call comes to. -/
def answer (call : Call) : Except RemoteFailure Value × Session :=
  match s.table.resolve call.method call.args with
  | .error f => (.error (s.table.resolutionFailure call.method f), s)
  | .ok resolved =>
    if s.table.isHook resolved then (.ok .null, s.queue resolved)
    else s.invoke resolved

/-- Encodes a reply and sends it. -/
def sendReply (reply : Reply) (isDelivered : Bool) : Except Failure Unit × Session :=
  match s.connection.writeFrame (reply.writer s.registry) with
  | (.error f, c) => (.error f, { s with connection := c })
  | (.ok frame, c) =>
    let s := { s with connection := c }
    if isDelivered then (.ok (), s.note (.sent reply frame)) else (.error .endOfStream, s)

/-- Sends a reply, or in its place the failure that kept it from being sent. -/
def sendOutcome (call : Call) (outcome : Except RemoteFailure Value) (isDelivered : Bool) :
    Except Failure Unit × Session :=
  match s.sendReply (.ofOutcome call.sequence outcome) isDelivered with
  | (.ok (), s) => (.ok (), s)
  | (.error f, s) =>
    if f.isFatal then (.error f, s)
    else
      let replacement := s.table.resolutionFailure call.method f
      s.sendReply (.ofOutcome call.sequence (.error replacement)) isDelivered

def dispatch (call : Call) (isDelivered : Bool) : Session :=
  let (outcome, s) := s.answer call
  match s.sendOutcome call outcome isDelivered with
  | (.ok (), s) => s
  | (.error _, s) => s.close

/-- Serves the call in the body of a frame. A body that is no call ends the session. -/
def receive (body : List UInt8) (isDelivered : Bool) : Session :=
  let received := s.connection.decodeBody s.registry Call.reader body
  let s := { s with registry := received.registry }
  match received.result with
  | .ok call => { s with connection := received.connection }.dispatch call isDelivered
  | .error _ => s.close

/-- Runs the hook that was queued first. Nothing depends on what it comes to. -/
def runHook : Session :=
  match s.hooks with
  | [] => s
  | call :: hooks => ({ s with hooks := hooks }.invoke call).2

def runHooks : Session := s.hooks.foldl (fun s _ => s.runHook) s

def step : SessionEvent → Session
  | .received body isDelivered => if s.isOpen then s.receive body isDelivered else s
  | .ended | .shutdown => s.close
  | .runHook => if s.isOpen then s else s.runHook

def run (events : List SessionEvent) : Session := events.foldl step s

/-- Serves a stream until the session ends or more bytes are needed. -/
def serve (s : Session) (stream : ByteStream) : Session × ByteStream :=
  if s.isOpen then
    match _h : stream.takeFrame? s.connection.settings.maxMessageSize .idle with
    | none => (s, stream)
    | some (.error _) => (s.close, stream)
    | some (.ok (body, rest)) => serve (s.receive body true) rest
  else (s, stream)
termination_by stream.size
decreasing_by exact ByteStream.takeFrame?_size_lt _h

/-- The calls run so far, hooks among them, in order. -/
def ran : List ResolvedCall :=
  s.activity.filterMap fun
    | .ran call _ => some call
    | _ => none

/-- The replies sent so far with their frames, in order. -/
def sent : List (Reply × Frame.Sealed) :=
  s.activity.filterMap fun
    | .sent reply frame => some (reply, frame)
    | _ => none

end Session

end RemoteCall
