import RemoteCall.Failure.Basic
import RemoteCall.Text.Ascii
import RemoteCall.Text.Blank
import RemoteCall.Text.Split

/-!
# Addresses

A connection string lists endpoints, `host:port`, with commas between. A bare number is a port. An
empty host and `localhost` are the wildcard: a server binds every interface and a client connects
over loopback.
-/

namespace RemoteCall

structure Endpoint where
  /-- Nothing stands for the wildcard. -/
  host? : Option String
  port : UInt16
deriving DecidableEq, Repr

namespace Endpoint

def wildcard (port : UInt16) : Endpoint := ⟨none, port⟩

def isWildcard (e : Endpoint) : Bool := e.host?.isNone

def ofHost (host : String) (port : UInt16) : Endpoint :=
  if host = "" ∨ Text.equalIgnoringCase host "localhost" then wildcard port else ⟨some host, port⟩

def textWith (wildcardHost : String) (e : Endpoint) : String :=
  e.host?.getD wildcardHost ++ ":" ++ Nat.repr e.port.toNat

/-- The address a client dials. -/
def connectAddress (e : Endpoint) : String := e.textWith "127.0.0.1"

/-- The address a server binds. -/
def bindAddress (e : Endpoint) : String := e.textWith "0.0.0.0"

def display (e : Endpoint) : String := e.textWith "localhost"

/-- A host without opening brackets in front and closing brackets behind. -/
def dropBrackets (cs : List Char) : List Char :=
  ((cs.dropWhile (· == '[')).reverse.dropWhile (· == ']')).reverse

/-- The host and the port text of an entry; the port stands behind the last colon. -/
def hostAndPort (entry : String) : String × String :=
  match Text.splitLast? ':' entry with
  | some (host, port) => (String.ofList (dropBrackets host.toList), port)
  | none => ("", entry)

def parse (text : String) : Except Failure Endpoint :=
  let entry := Text.trim text
  let (host, port) := hostAndPort entry
  match Decimal.readPort (Text.trim port) with
  | .ok port => .ok (ofHost (Text.trim host) port)
  | .error fault => .error (.invalidAddress (.badPort entry fault))

/-- The entries of a connection string that are not blank. -/
def entries (text : String) : List String :=
  ((Text.split ',' text).map Text.trim).filter (· ≠ "")

/-- The endpoints of a connection string, of which there is at least one. -/
def parseAll (text : String) : Except Failure (List Endpoint) :=
  match (entries text).mapM parse with
  | .error f => .error f
  | .ok [] => .error (.invalidAddress (.noEndpoints text))
  | .ok (e :: es) => .ok (e :: es)

end Endpoint

end RemoteCall
