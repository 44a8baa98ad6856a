import RemoteCall.Loopback.Server
import RemoteCall.Proofs.Call
import RemoteCall.Proofs.Server.Session

/-!
# Calls over a connection come to what they come to locally

Once the headers are exchanged, both directions of a connection are ready for a frame, and a
synchronous call leaves them so. By induction on the calls, each of them returns the outcome of the
same call made next to the table of the server.
-/

namespace RemoteCall

open Wire Connection Parcel

def Call.ofSync (call : String × List Value) : Call := ⟨syncSequence, call.1, call.2⟩

def MethodTable.syncReply (t : MethodTable) (call : String × List Value) : Reply :=
  .ofOutcome syncSequence (t.relayed call.1 call.2)

namespace Served

/-- Both directions are ready for a frame, and the session answers by the table. The server knows
the types of the one registry, the client those of the other. -/
structure Ready (gs gc : Registry) (limit : Nat) (table : MethodTable) (peer : PeerAddress)
    (s : Served) (t : Session) : Prop where
  service_eq : s.service = .serving t
  table_eq : t.table = table
  peer_eq : s.client.connection.peer = peer
  up : Feeds gs limit s.client.connection t.connection t.registry s.incoming
  down : Feeds gc limit t.connection s.client.connection s.client.registry s.client.incoming

variable {gs gc : Registry} {limit : Nat} {table : MethodTable} {peer : PeerAddress} {s : Served}
  {t : Session}

theorem send_replied (hservice : s.service = .serving t) {t' : Session} {bytes : List UInt8}
    {rest : ByteStream} {c : Connection} {known : Registry} {reply : Reply} {frame : Frame.Sealed}
    (hserve : t.serve (s.incoming.push bytes) = (t', rest))
    (hreplied : t.Replied t' c known reply frame) (hopen : c.isClosed = false) :
    s.send bytes = { s with
      service := .serving t'
      incoming := rest
      client := s.client.push frame.bytes } := by
  have hisOpen : t'.isOpen = true := by
    rw [Session.isOpen, hreplied.connection_eq, hopen, Bool.not_false]
  have hsent : (t'.sent.drop t.sent.length).map (·.2.bytes) = [frame.bytes] := by
    rw [hreplied.sent_eq, List.drop_left' rfl]
    rfl
  simp only [send, pump, hservice, Service.receive, Service.serve, hserve, Service.sent,
    Service.session?, Option.map_some, Option.getD_some, hsent, Service.isOpen, hisOpen]
  rfl

theorem invoke_of_read {k : Client} {method : String} {args : List Value} {frame : Frame.Sealed}
    {c c' : Connection} {known : Registry} {reply : Reply} {body : List UInt8} {s' : Served}
    {rest : ByteStream}
    (hwrite : s.client.connection.writeCall s.client.registry (Call.ofSync (method, args)) =
      (.ok frame, c))
    (hsend : Served.send { s with client := { s.client with connection := c } } frame.bytes = s')
    (hopen : s'.client.connection.isClosed = false)
    (htake : s'.client.incoming.takeFrame? s'.client.connection.settings.maxMessageSize .reply =
      some (.ok (body, rest)))
    (hdecode : s'.client.connection.decodeBody s'.client.registry Reply.syncReader body =
      ⟨.ok reply, c', known⟩) :
    s.invoke k method args = (reply.outcome c'.peer (k.invokeSite method),
      { s' with client := ⟨c', known, rest⟩ }) := by
  have hread := readFrame?_of_takeFrame? s'.client.registry Reply.syncReader hopen htake
  unfold Call.ofSync at hwrite
  simp only [invoke, hwrite, sendFrame, hsend, read?, hread, hdecode, Option.map_some]
  rfl

/-- A call returns what the reply to it says, and leaves the connection ready for the next one. -/
theorem Ready.invoke (h : Ready gs gc limit table peer s t) (hgs : gs.Reachable)
    (hgc : gc.Reachable) (k : Client) {call : String × List Value}
    (hup : (Parcel.call gc (.ofSync call)).Crosses limit gs s.client.connection.encoder.names)
    (hdown : (Parcel.reply gs (table.syncReply call)).Crosses limit gc t.connection.encoder.names) :
    ∃ s' t', s.invoke k call.1 call.2 =
        ((table.syncReply call).outcome peer (k.invokeSite call.1), s') ∧
      Ready gs gc limit table peer s' t' ∧
      s'.client.connection.encoder.names =
        ((Call.ofSync call).writer gc s.client.connection.encoder.names).names ∧
      t'.connection.encoder.names =
        ((table.syncReply call).writer gs t.connection.encoder.names).names := by
  obtain ⟨hservice, rfl, rfl, up, down⟩ := h
  obtain ⟨frame, body, rest, decoder, known, hwrite, htake, hdecode, up'⟩ :=
    up.exchange hgs (call_isPaced gc _) hup .idle
  have hcall : s.client.connection.writeCall s.client.registry (.ofSync call) =
      (.ok frame, s.client.connection.sending ((Call.ofSync call).writer gc)) := by
    rw [writeCall, Call.writer_congr down.resolves.lookup?_eq]
    exact hwrite
  have hready : Feeds gc limit (t.connection.receiving decoder)
      (s.client.connection.sending ((Call.ofSync call).writer gc)) s.client.registry
      s.client.incoming := down.congr rfl rfl
  obtain ⟨frame', body', rest', decoder', known', hwrite', htake', hdecode', down'⟩ :=
    hready.exchange hgc (reply_isPaced gs _) hdown .reply
  have hreply : (t.connection.receiving decoder).writeFrame
      ((t.replyTo (.ofSync call)).writer known) =
      (.ok frame', (t.connection.receiving decoder).sending
        ((t.table.syncReply call).writer gs)) := by
    rw [Reply.writer_congr up'.resolves.lookup?_eq]
    exact hwrite'
  obtain ⟨t', hserve, hreplied⟩ :=
    Session.serve_call up.isClosed_receiver htake hdecode hreply up'.drained
  let c := s.client.connection.sending ((Call.ofSync call).writer gc)
  have hsend := send_replied (s := { s with client := { s.client with connection := c } })
    hservice hserve hreplied down'.isClosed_sender
  have hinvoke := invoke_of_read (k := k) hcall hsend down'.isClosed_receiver htake' hdecode'
  refine ⟨_, t', hinvoke, ⟨rfl, hreplied.table_eq, rfl, ?_, ?_⟩, ?_, ?_⟩
  · rw [hreplied.registry_eq, hreplied.connection_eq]
    exact up'.congr rfl rfl
  · rw [hreplied.connection_eq]
    exact down'
  · rfl
  · rw [hreplied.connection_eq]
    rfl

/-- By induction on the calls, which leave the connection ready for the next one. -/
theorem Ready.invokeAll (h : Ready gs gc limit table peer s t) (hgs : gs.Reachable)
    (hgc : gc.Reachable) (k : Client) {calls : List (String × List Value)}
    (hup : AllCross limit gs s.client.connection.encoder.names
      (calls.map fun call => Parcel.call gc (.ofSync call)))
    (hdown : AllCross limit gc t.connection.encoder.names
      (calls.map fun call => Parcel.reply gs (table.syncReply call))) :
    (s.invokeAll k calls).1 = calls.map fun call => table.localOutcome
      [RemoteFailure.spliceMarker peer.host peer.port, k.invokeSite call.1] call.1 call.2 := by
  induction calls generalizing s t with
  | nil => rfl
  | cons call calls ih =>
    obtain ⟨s', t', hinvoke, hready, hnames, hnames'⟩ := h.invoke hgs hgc k hup.1 hdown.1
    have hrest := ih hready (by rw [hnames]; exact hup.2) (by rw [hnames']; exact hdown.2)
    rw [MethodTable.syncReply, MethodTable.outcome_relayed] at hinvoke
    obtain ⟨method, args⟩ := call
    simp only [Served.invokeAll, hinvoke, hrest, List.map_cons]

/-- A header from the client makes the server open a session, which sends nothing yet. -/
theorem send_header {d d' : Connection} (hservice : s.service = .greeting d)
    (bytes : List UInt8) {rest : ByteStream} {known : Registry}
    (hread : d.readHeader? s.registry (s.incoming.push bytes) = some (⟨.ok (), d', known⟩, rest))
    (hrest : rest.Drained) (hopen : d'.isClosed = false) :
    s.send bytes = { s with
      service := .serving (s.server.session known d')
      incoming := rest } := by
  have hserve := Session.serve_of_drained (s := s.server.session known d') hrest
  have hisOpen : (s.server.session known d').isOpen = true := by
    rw [Session.isOpen, Server.session, hopen, Bool.not_false]
  simp only [send, pump, hservice, Service.receive, Service.greet, hread, Service.serve, hserve,
    Service.isOpen, hisOpen]
  rfl

theorem acceptEnd_of_writeFrame {v : Server} {client : LinkEnd} {c : Connection}
    {frame : Frame.Sealed}
    (h : (v.accept client.connection.peer 1).writeFrame (valueWriter gs v.header.toValue) =
      (.ok frame, c)) :
    acceptEnd v gs client = ⟨v, gs, .greeting c, .empty, client.push frame.bytes⟩ := by
  simp only [acceptEnd, Service.start, sendHeader, h]

/-- After the headers are exchanged both directions are ready for a frame. -/
theorem connect?_ready (v : Server) (hgs : gs.Reachable) (hgc : gc.Reachable) (name : String)
    (peer : PeerAddress) (settings : ConnectionSettings) (seed : UInt64) {header : Header}
    (hlimit : limit ≤ settings.maxMessageSize)
    (hlimit' : limit ≤ v.settings.connection.maxMessageSize)
    (hup : (Parcel.header gc header).Crosses limit gs .empty)
    (hdown : (Parcel.header gs v.header).Crosses limit gc .empty) :
    ∃ s t, connect? v gs ⟨.new name peer settings seed, gc, .empty⟩ header = some s ∧
      Ready gs gc limit v.table peer s t ∧
      s.client.connection.encoder.names = (valueWriter gc header.toValue .empty).names ∧
      t.connection.encoder.names = (valueWriter gs v.header.toValue .empty).names := by
  let c : Connection := .new name peer settings seed
  let d := v.accept peer 1
  have up : Feeds gs limit c (d.sending (valueWriter gs v.header.toValue)) gs .empty :=
    ⟨rfl, rfl, hlimit, hlimit', .new, .refl, rfl, rfl⟩
  have down : Feeds gc limit d (c.sending (valueWriter gc header.toValue)) gc .empty :=
    ⟨rfl, rfl, hlimit', hlimit, .new, .refl, rfl, rfl⟩
  obtain ⟨frame, body, rest, decoder, known, hwrite, htake, hdecode, up'⟩ :=
    up.exchange hgs (header_isPaced gc header) hup .reply
  obtain ⟨frame', body', rest', decoder', known', hwrite', htake', hdecode', down'⟩ :=
    down.exchange hgc (header_isPaced gs v.header) hdown .reply
  have hread := readHeader?_of_takeFrame? up.isClosed_receiver htake hdecode
  have hread' := readHeader?_of_takeFrame? down.isClosed_receiver htake' hdecode'
  let c' := c.sending (valueWriter gc header.toValue)
  let d' := d.sending (valueWriter gs v.header.toValue)
  let s : Served := ⟨v, gs, .greeting d', .empty, ⟨c', gc, ByteStream.empty.push frame'.bytes⟩⟩
  have haccept : acceptEnd v gs ⟨c', gc, .empty⟩ = s := acceptEnd_of_writeFrame hwrite'
  have hsend := send_header (s := s) rfl frame.bytes hread up'.drained up'.isClosed_receiver
  have hsent : c.sendHeader gc header = (.ok frame, c') := by
    have hwrite : c.writeFrame (valueWriter gc header.toValue) = (.ok frame, c') := hwrite
    simp only [sendHeader, hwrite]
  refine ⟨⟨v, gs, .serving (v.session known ((d'.receiving decoder).greeted header)), rest,
    ⟨(c'.receiving decoder').greeted v.header, known', rest'⟩⟩, _, ?_,
    ⟨rfl, rfl, rfl, up'.congr rfl rfl, down'.congr rfl rfl⟩, rfl, rfl⟩
  change connect? v gs ⟨c, gc, .empty⟩ header = _
  simp only [connect?, hsent]
  rw [haccept, hsend]
  simp only [s, c', d', hread']

end Served

/-- On a new connection every synchronous call returns what the call comes to next to the table of
the server, if headers, calls and replies survive being encoded and their frames are not too large
for either end. -/
theorem invokeAll_eq_localOutcome (v : Server) (k : Client) {gs gc : Registry} (hgs : gs.Reachable)
    (hgc : gc.Reachable) (name : String) (peer : PeerAddress) (settings : ConnectionSettings)
    (seed : UInt64) {header : Header} {calls : List (String × List Value)} {limit : Nat}
    (hlimit : limit = min settings.maxMessageSize v.settings.connection.maxMessageSize)
    (hup : AllCross limit gs .empty (Parcel.header gc header ::
      calls.map fun call => Parcel.call gc (.ofSync call)))
    (hdown : AllCross limit gc .empty (Parcel.header gs v.header ::
      calls.map fun call => Parcel.reply gs (v.table.syncReply call))) :
    ∃ s, Served.connect? v gs ⟨.new name peer settings seed, gc, .empty⟩ header = some s ∧
      (s.invokeAll k calls).1 = calls.map fun call => v.table.localOutcome
        [RemoteFailure.spliceMarker peer.host peer.port, k.invokeSite call.1] call.1 call.2 := by
  obtain ⟨s, t, hconnect, hready, hnames, hnames'⟩ := Served.connect?_ready v hgs hgc name peer
    settings seed (hlimit ▸ Nat.min_le_left ..) (hlimit ▸ Nat.min_le_right ..) hup.1 hdown.1
  refine ⟨s, hconnect, hready.invokeAll hgs hgc k ?_ ?_⟩
  · rw [hnames]
    exact hup.2
  · rw [hnames']
    exact hdown.2

/-- A result, a failure of a method and a call that no method matches. -/
theorem invokeAll_eq_localOutcome_halve :
    let halve : List Value → MethodOutcome
      | [.int 8] => .value (.int 4)
      | _ => .failure ⟨"Odd", "not even", ["check"]⟩
    let table : MethodTable := ⟨"Job", [⟨"halve", [.int], false, halve⟩]⟩
    ∃ s, Served.connect? ⟨table, .default⟩ .initial
        ⟨.new "job" ⟨"0.0.0.0", 9⟩ .default 1, .initial, .empty⟩ [] = some s ∧
      (s.invokeAll ⟨"cli", false, false⟩
        [("halve", [.int 8]), ("halve", [.int 7]), ("halve", [])]).1 = [.ok (.int 4),
          .error (.remote ⟨"Odd", "not even", ["check", "Job.halve",
            "~ call to server ~.call(localhost:9)", "cli.invoke(halve)"]⟩),
          .error (.methodNotFound "halve/0")] := by
  intro halve table
  have hg := Registry.Grown.initial
  have hnone : ∀ w ∈ ([] : List Value), w.AllFit .initial := fun w hw => by cases hw
  have hint : ∀ n : Int32, (Value.int n).AllFit .initial := fun _ => .leaf rfl trivial
  have hargs : ∀ args : List Value, (∀ v ∈ args, v.AllFit .initial) → args.length ≤ 1 →
      (Value.array Value.anyComponent args).AllFit .initial := fun args hall hlength =>
    .intro ⟨by decide +kernel, hlength.trans (by decide)⟩ hall
  have hname : ∀ w ∈ [Value.string "name", .string "tagrpc"], w.AllFit .initial :=
    List.forall_mem_cons.mpr ⟨.leaf rfl (by decide +kernel : IsShort "name"),
      List.forall_mem_singleton.mpr (.leaf rfl (by decide +kernel : IsShort "tagrpc"))⟩
  have hmethod : IsShort "halve" := by decide +kernel
  refine invokeAll_eq_localOutcome ⟨table, .default⟩ ⟨"cli", false, false⟩ .initial .initial "job"
    ⟨"0.0.0.0", 9⟩ .default 1 rfl (AllCross.of_carries hg.isCurrent ?_ (by decide +kernel))
    (AllCross.of_carries hg.isCurrent ?_ (by decide +kernel))
  · have hone : ∀ n : Int32, ∀ w ∈ [Value.int n], w.AllFit .initial :=
      fun n => List.forall_mem_singleton.mpr (hint n)
    have hheader : (Header.toValue []).Portable .initial :=
      ⟨.intro (Nat.zero_le _) hnone, by decide⟩
    refine List.forall_mem_cons.mpr ⟨header_carries rfl hheader, List.forall_mem_cons.mpr
      ⟨call_carries rfl ⟨hmethod, hargs _ (hone 8) (by decide), by decide⟩, List.forall_mem_cons.mpr
        ⟨call_carries rfl ⟨hmethod, hargs _ (hone 7) (by decide), by decide⟩, ?_⟩⟩⟩
    exact List.forall_mem_singleton.mpr
      (call_carries rfl ⟨hmethod, hargs _ hnone (by decide), by decide⟩)
  · have hentry : 1 ≤ Reader.maxLength := by decide
    refine List.forall_mem_cons.mpr ⟨header_carries rfl ⟨.intro hentry hname, by decide⟩, ?_⟩
    refine List.forall_mem_cons.mpr ⟨reply_carries rfl ⟨hint 4, by decide⟩ rfl, ?_⟩
    have hfailure : ∀ f : RemoteFailure, f.Fits → f.toValue.Portable .initial :=
      fun f hf => hf.toValue_portable hg
    exact List.forall_mem_cons.mpr ⟨reply_carries rfl (hfailure _ (by decide +kernel)) rfl,
      List.forall_mem_singleton.mpr (reply_carries rfl (hfailure _ (by decide +kernel)) rfl)⟩

end RemoteCall
