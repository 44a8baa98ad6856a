import RemoteCall.Connection.Basic

/-!
# Opening a connection

Both ends send a header first and read the other's then. A header is a map with strings for keys;
null stands for an empty one. Any failure on the way leaves the connection closed.
-/

namespace RemoteCall

open Wire

namespace Header

def toValue (header : Header) : Value := .map (header.map fun (key, v) => (.string key, v))

/-- An entry of a received header. -/
def entry : Value × Value → Except Failure (String × Value)
  | (.string key, v) => .ok (key, v)
  | (other, _) => .error (.streamCorrupted (.headerKey other.label))

def ofValue : Value → Except Failure Header
  | .null => .ok []
  | .map entries => entries.mapM entry
  | other => .error (.streamCorrupted (.unexpectedValue "a header map" other.label))

end Header

namespace Connection

variable (c : Connection)

/-- The frame with which a connection opens. -/
def sendHeader (g : Registry) (header : Header) : Except Failure Frame.Sealed × Connection :=
  match c.writeFrame (valueWriter g header.toValue) with
  | (.ok sent, c) => (.ok sent, c)
  | (.error f, c) => (.error f, c.close)

/-- Takes a value received as the peer's header. -/
def acceptHeader (v : Value) : Except Failure Unit × Connection :=
  match Header.ofValue v with
  | .ok header => (.ok (), { c with peerHeader := header })
  | .error f => (.error f, c.close)

/-- Reads the peer's header; nothing while the read waits. -/
def readHeader? (g : Registry) (stream : ByteStream) : Option (Received Unit × ByteStream) :=
  (c.readFrame? g .reply Reader.value stream).map fun (received, rest) =>
    match received.result with
    | .ok v =>
      let (result, c) := received.connection.acceptHeader v
      (⟨result, c, received.registry⟩, rest)
    | .error f => (⟨.error f, received.connection.close, received.registry⟩, rest)

end Connection

end RemoteCall
