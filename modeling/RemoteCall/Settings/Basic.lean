import RemoteCall.Frame
import RemoteCall.Text.Blank

/-!
# Settings

What can be set for connections, for a server and for a client, and the values that hold when
nothing is set. Times are milliseconds.
-/

namespace RemoteCall

structure ConnectionSettings where
  /-- The largest frame sent or accepted. -/
  maxMessageSize : Nat
  /-- A read or write blocked for longer closes the connection. -/
  stallTimeout : Nat
  /-- The time between two warnings about a blocked read or write. -/
  warningPeriod : Nat
deriving DecidableEq, Repr

/-- The watchdog looks at each connection once in this time. -/
def checkPeriod : Nat := 100

def ConnectionSettings.default : ConnectionSettings :=
  ⟨Frame.defaultMaxSize, 10000, 1000 - checkPeriod / 2⟩

structure ServerSettings where
  bind : String
  name : String
  connection : ConnectionSettings
deriving DecidableEq, Repr

def ServerSettings.default : ServerSettings := ⟨"localhost:0", "tagrpc", .default⟩

structure PoolSettings where
  /-- The number of connections for one key. -/
  maxConnections : Nat
  acquireTimeout : Nat
deriving DecidableEq, Repr

def PoolSettings.default : PoolSettings := ⟨4, 30000⟩

structure ConnectorSettings where
  connectTimeout : Nat
  retryPause : Nat
  /-- Entries sent in the header of every connection, sorted by key. -/
  header : List (String × String)
  connection : ConnectionSettings
deriving DecidableEq, Repr

def ConnectorSettings.default : ConnectorSettings := ⟨60000, 2500, [], .default⟩

structure ClientSettings where
  pool : PoolSettings
  connector : ConnectorSettings
deriving DecidableEq, Repr

def ClientSettings.default : ClientSettings := ⟨.default, .default⟩

structure Settings where
  server : ServerSettings
  client : ClientSettings
deriving DecidableEq, Repr

namespace Settings

def default : Settings := ⟨.default, .default⟩

/-- The address given on the command line, else the one of the environment, is the one to bind. A
blank one leaves what the settings say. -/
def resolveBind (s : Settings) (flag environment : Option String) : Settings :=
  match flag.or environment with
  | some bind =>
    if Text.isBlankText bind then s else { s with server := { s.server with bind := bind } }
  | none => s

end Settings

end RemoteCall
