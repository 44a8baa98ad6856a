import RemoteCall.Failure.Cause

/-!
# Failures

Everything that can go wrong with a call, from encoding its arguments to running its method. A
failure relayed by a peer arrives with its kind, its message and the frames it passed through.
-/

namespace RemoteCall

/-- A failure in the form in which it crosses a connection, its frames innermost first. -/
structure RemoteFailure where
  kind : String
  message : String
  stack : List String
deriving DecidableEq, Repr

inductive Failure where
  | streamCorrupted (cause : Corruption)
  | notSerializable (cause : Unserializable)
  | endOfStream
  | connectionClosed (connection : String)
  | connect (reason : String)
  | invalidAddress (fault : AddressFault)
  | methodNotFound (method : String)
  | remote (failure : RemoteFailure)
  | coercion (found wanted : String)
  | poolTimeout (milliseconds : Nat)
  | poolClosed (pool : String)
  | messageTooLarge (size max : Nat)
  | io (text : String)
deriving DecidableEq, Repr

namespace RemoteFailure

def ofKind (kind message : String) : RemoteFailure := ⟨kind, message, []⟩

/-- The kind reported when no method matches a call. -/
def methodNotFoundKind : String := "MethodNotFound"

/-- The kind reported when a method panics. -/
def panicKind : String := "Panic"

def display (f : RemoteFailure) : String := f.kind ++ ": " ++ f.message

def pushFrame (f : RemoteFailure) (frame : String) : RemoteFailure :=
  { f with stack := f.stack ++ [frame] }

/-- The frame between the frames of a server and those of its caller. -/
def spliceMarker (host : String) (port : UInt16) : String :=
  let shown := if host = "" ∨ host = "0.0.0.0" then "localhost" else host
  "~ call to server ~.call(" ++ shown ++ ":" ++ Nat.repr port.toNat ++ ")"

/-- Puts a marker for the server and the caller's own frames behind the frames received. -/
def splice (f : RemoteFailure) (host : String) (port : UInt16) (callerFrames : List String) :
    RemoteFailure :=
  { f with stack := f.stack ++ spliceMarker host port :: callerFrames }

/-- The failure a caller sees. -/
def toFailure (f : RemoteFailure) : Failure :=
  if f.kind = methodNotFoundKind then .methodNotFound f.message else .remote f

end RemoteFailure

namespace Failure

/-- The short name under which a failure is relayed. -/
def kind : Failure → String
  | .streamCorrupted _ => "StreamCorrupted"
  | .notSerializable _ => "NotSerializable"
  | .endOfStream => "EndOfStream"
  | .connectionClosed _ => "ConnectionClosed"
  | .connect _ => "Connect"
  | .invalidAddress _ => "InvalidAddress"
  | .methodNotFound _ => RemoteFailure.methodNotFoundKind
  | .remote _ => "Remote"
  | .coercion _ _ => "IllegalArgument"
  | .poolTimeout _ => "PoolTimeout"
  | .poolClosed _ => "PoolClosed"
  | .messageTooLarge _ _ => "MessageTooLarge"
  | .io _ => "Io"

def message : Failure → String
  | .streamCorrupted cause => "Stream corrupted: " ++ cause.message
  | .notSerializable cause => "Not serializable: " ++ cause.message
  | .endOfStream => "End of stream: peer closed the connection"
  | .connectionClosed connection => s!"Connection {connection} is closed"
  | .connect reason => s!"Connection error: {reason}"
  | .invalidAddress fault => "Invalid address: " ++ fault.message
  | .methodNotFound method => s!"Method not found: {method}"
  | .remote failure => failure.display
  | .coercion found wanted => s!"Unable to convert {found} to {wanted}"
  | .poolTimeout milliseconds => s!"Timed out acquiring a connection after {milliseconds}ms"
  | .poolClosed pool => s!"Connection pool {pool} is closed"
  | .messageTooLarge size max => s!"Message too large: {size} bytes (max {max} bytes)"
  | .io text => s!"IO error: {text}"

/-- A connection on which this happened can no longer carry frames. Failures of encoding and of
message size come before anything is sent, so the connection survives them. -/
def isFatal : Failure → Bool
  | .streamCorrupted _ | .endOfStream | .connectionClosed _ | .io _ => true
  | _ => false

/-- The form in which a failure is sent to the caller. -/
def relayed : Failure → RemoteFailure
  | .remote failure => failure
  | .methodNotFound method => .ofKind RemoteFailure.methodNotFoundKind method
  | f => .ofKind f.kind f.message

end Failure

end RemoteCall
