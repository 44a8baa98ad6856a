import RemoteCall.Proofs.Connection.Exchange
import RemoteCall.Proofs.Method.Table
import RemoteCall.Server.Session

/-!
# What a session does with a call

A session answers a call with what its table relays. If the reply can be written, nothing else
changes on the wire.
-/

namespace RemoteCall

def MethodTable.running (t : MethodTable) (call : ResolvedCall) : Activity :=
  .ran call (t.invoke call)

namespace Session

variable {s : Session} {call : Call}

def replyTo (s : Session) (call : Call) : Reply :=
  .ofOutcome call.sequence (s.table.relayed call.method call.args)

structure Replied (s t : Session) (c : Connection) (known : Registry) (reply : Reply)
    (frame : Frame.Sealed) : Prop where
  table_eq : t.table = s.table
  registry_eq : t.registry = known
  connection_eq : t.connection = c
  sent_eq : t.sent = s.sent ++ [(reply, frame)]

theorem activity_close {s : Session} (hopen : s.isOpen = true) :
    s.close.activity = s.activity ++ [.closed] := by
  rw [close, if_pos hopen]
  rfl

theorem isOpen_close (s : Session) : s.close.isOpen = false := by
  unfold close
  split_ifs with hopen
  · rw [isOpen, Bool.not_eq_true'] at hopen
    simp [isOpen, note, Connection.close, hopen, Connection.markClosed, Connection.drainCallbacks]
  · exact Bool.eq_false_iff.mpr hopen

theorem encoder_close (s : Session) : s.close.connection.encoder = s.connection.encoder := by
  unfold close
  split_ifs with hopen
  · unfold Connection.close
    split_ifs <;> rfl
  · rfl

@[simp] theorem hooks_close (s : Session) : s.close.hooks = s.hooks := by
  unfold close
  split_ifs <;> rfl

theorem sent_invoke (s : Session) (call : ResolvedCall) : (s.invoke call).2.sent = s.sent := by
  simp [sent, invoke, note, List.filterMap_append]

theorem sent_note_sent (s : Session) (reply : Reply) (frame : Frame.Sealed) :
    (s.note (.sent reply frame)).sent = s.sent ++ [(reply, frame)] := by
  simp [sent, note, List.filterMap_append]

theorem answer_eq (s : Session) (call : Call) :
    ∃ t, s.answer call = (s.table.relayed call.method call.args, t) ∧ t.table = s.table ∧
      t.registry = s.registry ∧ t.connection = s.connection ∧ t.sent = s.sent := by
  unfold answer MethodTable.relayed
  cases hresolve : s.table.resolve call.method call.args with
  | error f => exact ⟨s, rfl, rfl, rfl, rfl, rfl⟩
  | ok resolved =>
    cases hhook : s.table.isHook resolved with
    | true =>
      refine ⟨s.queue resolved, ?_, ?_⟩
      · simp [hhook]
      · unfold queue
        split <;> exact ⟨rfl, rfl, rfl, rfl⟩
    | false =>
      refine ⟨(s.invoke resolved).2, ?_, rfl, rfl, rfl, sent_invoke s resolved⟩
      simp [hhook, invoke]

theorem dispatch_replied {c : Connection} {frame : Frame.Sealed}
    (h : s.connection.writeFrame ((s.replyTo call).writer s.registry) = (.ok frame, c)) :
    s.Replied (s.dispatch call true) c s.registry (s.replyTo call) frame := by
  obtain ⟨t, hanswer, htable, hregistry, hconnection, hsent⟩ := answer_eq s call
  have hwrite : t.connection.writeFrame ((s.replyTo call).writer t.registry) = (.ok frame, c) := by
    rw [hconnection, hregistry, h]
  have hdispatch : s.dispatch call true =
      { t with connection := c }.note (.sent (s.replyTo call) frame) := by
    unfold replyTo at hwrite ⊢
    simp only [dispatch, hanswer, sendOutcome, sendReply, hwrite, if_true]
  rw [hdispatch]
  refine ⟨htable, hregistry, rfl, ?_⟩
  rw [sent_note_sent, ← hsent]
  rfl

theorem receive_of_ok {body : List UInt8} {c : Connection} {known : Registry}
    (h : s.connection.decodeBody s.registry Call.reader body = ⟨.ok call, c, known⟩) :
    s.receive body true = { s with registry := known, connection := c }.dispatch call true := by
  simp only [receive, h]

theorem serve_of_takeFrame? (hopen : s.connection.isClosed = false) {stream rest : ByteStream}
    {body : List UInt8}
    (h : stream.takeFrame? s.connection.settings.maxMessageSize .idle = some (.ok (body, rest))) :
    s.serve stream = (s.receive body true).serve rest := by
  have hopen : s.isOpen = true := by rw [isOpen, hopen, Bool.not_false]
  rw [serve, if_pos hopen]
  split
  · rename_i hnone
    rw [h] at hnone
    cases hnone
  · rename_i hfailed
    rw [h] at hfailed
    cases hfailed
  · rename_i htaken
    rw [h] at htaken
    cases htaken
    rfl

theorem serve_of_drained {stream : ByteStream} (h : stream.Drained) :
    s.serve stream = (s, stream) := by
  have hnone := ByteStream.takeFrame?_of_nil s.connection.settings.maxMessageSize .idle h.chunks
    h.isEnded
  rw [serve]
  split
  · split
    · rfl
    · rename_i hfailed
      rw [hnone] at hfailed
      cases hfailed
    · rename_i htaken
      rw [hnone] at htaken
      cases htaken
  · rfl

theorem serve_call (hopen : s.connection.isClosed = false) {stream rest : ByteStream}
    {body : List UInt8} {c c' : Connection} {known : Registry} {frame : Frame.Sealed}
    (htake : stream.takeFrame? s.connection.settings.maxMessageSize .idle = some (.ok (body, rest)))
    (hdecode : s.connection.decodeBody s.registry Call.reader body = ⟨.ok call, c, known⟩)
    (hwrite : c.writeFrame ((s.replyTo call).writer known) = (.ok frame, c'))
    (hrest : rest.Drained) :
    ∃ t, s.serve stream = (t, rest) ∧ s.Replied t c' known (s.replyTo call) frame := by
  have hreplied := dispatch_replied (s := { s with registry := known, connection := c }) hwrite
  refine ⟨_, ?_, hreplied.table_eq, hreplied.registry_eq, hreplied.connection_eq, hreplied.sent_eq⟩
  rw [serve_of_takeFrame? hopen htake, receive_of_ok hdecode, serve_of_drained hrest]

end Session

end RemoteCall
