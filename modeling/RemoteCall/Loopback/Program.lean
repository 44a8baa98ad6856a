import RemoteCall.CommandLine
import RemoteCall.Loopback.Server

/-!
# A planned call over a link
-/

namespace RemoteCall

/-- Makes a call on a server in memory. Nothing comes of it if the headers cannot be exchanged. -/
def PlannedCall.overLink? (p : PlannedCall) (v : Server) (peer : PeerAddress) :
    Option CallOutcome :=
  let c := Connection.new syncKey peer p.dialer.settings.connection 1
  (Served.connect? v .initial (.new c) p.dialer.header).map fun s =>
    (s.invoke p.client p.method p.args).1

end RemoteCall
