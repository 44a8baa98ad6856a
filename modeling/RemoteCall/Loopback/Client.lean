import RemoteCall.Loopback.Pool

/-!
# A client over links

The calls of a client whose connections are links. The far end of a link reads each call and acts on
it as it is told.
-/

namespace RemoteCall

structure LinkClient where
  client : Client
  pool : LinkPool
  /-- The connections and the sequence numbers of the asynchronous calls sent so far. A callback is
  known by the position of its call. -/
  sent : List (Nat × UInt64)

/-- The call that a peer read, and the connection it came over. -/
structure SeenCall where
  connection : Nat
  call : Call

namespace LinkClient

variable (k : LinkClient)

def isClosed : Bool := k.client.isClosedOver k.pool.run.pool

def setLink (c : Nat) (link : Link) : LinkClient := { k with pool := k.pool.setLink c link }

def recycle (c : Nat) : LinkClient := { k with pool := k.pool.recycle c }

def close : LinkClient :=
  let (client, run) := k.client.close k.pool.run
  { k with client := client, pool := { k.pool with run := run }.settle }

def lease (key : String) : LinkGrant × LinkClient :=
  if k.isClosed then (.failed k.client.closedFailure, k)
  else
    let (granted, pool) := k.pool.acquire key
    (granted, { k with pool := pool })

/-- Makes a synchronous call on a leased connection and hands the connection back. -/
def invokeOn (c : Nat) (method : String) (args : List Value) (action : Call → PeerAction) :
    CallOutcome × Option SeenCall × LinkClient :=
  match k.pool.links[c]? with
  | none => (.error k.client.closedFailure, none, k)
  | some link =>
    let call : Call := ⟨syncSequence, method, args⟩
    match link.sendFrame (link.near.connection.writeCall link.near.registry call) with
    | (.error f, link) => (.error f, none, (k.setLink c link).recycle c)
    | (.ok _, link) =>
      let (seen, link) := link.takeCall?
      match (link.act (action call)).read? .reply Reply.syncReader with
      | none => (.error .endOfStream, seen.map (⟨c, ·⟩), (k.setLink c link.close).recycle c)
      | some (received, link) =>
        (received.result.bind (k.client.syncOutcome received.connection method),
          seen.map (⟨c, ·⟩), (k.setLink c link).recycle c)

/-- Sends an asynchronous call on a leased connection and hands the connection back. -/
def sendOn (c : Nat) (method : String) (args : List Value) :
    Except Failure Unit × Option SeenCall × LinkClient :=
  match k.pool.links[c]? with
  | none => (.error k.client.closedFailure, none, k)
  | some link =>
    match link.near.connection.sendAsync link.near.registry method args k.sent.length 0 with
    | (.error f, near) => (.error f, none, (k.setLink c (link.setNear near)).recycle c)
    | (.ok (sequence, frame?), near) =>
      let (seen, link) := ((link.setNear near).send ((frame?.map (·.bytes)).getD [])).takeCall?
      let k := { k with sent := k.sent ++ [(c, sequence)] }
      (.ok (), seen.map (⟨c, ·⟩), (k.setLink c link).recycle c)

/-- A peer acts on an asynchronous call, and the reader of its connection takes in what comes. -/
def reply (c : Nat) (action : PeerAction) : LinkClient :=
  match k.pool.links[c]? with
  | none => k
  | some link =>
    let link := link.act action
    match link.read? .idle Reply.reader with
    | none => k.setLink c link
    | some (received, link) => k.setLink c (link.setNear (k.client.routeReceived received))

/-- What callbacks have heard so far. -/
def heard : List (Nat × CallOutcome) := k.pool.links.flatMap (·.near.connection.heard)

end LinkClient

end RemoteCall
