import RemoteCall.Proofs.Connection.Bodies
import RemoteCall.Proofs.Server.Opening
import RemoteCall.Proofs.Server.Session
import RemoteCall.Proofs.Wire.Refusals

/-!
# Replies that can be sent

A reply has a frame unless its value cannot be written or the frame would be too large. A call is
answered with what it came to, or in its place with the failure that kept this from being sent. Only
a call for which neither has a frame is not answered, and ends its session. A reply that has no
frame leaves no name behind.
-/

namespace RemoteCall

open Wire

namespace Reply

section

variable (g : Registry) (max : Nat) (e : NameIndex) (r : Reply)

structure HasFrame (frame : Frame.Sealed) : Prop where
  failure?_eq : (r.writer g e).failure? = none
  close_eq : Frame.close max (r.writer g e).bytes = .ok frame

inductive IsUnsendable : Failure → Prop
  | notSerializable {cause : Unserializable}
    (h : (r.writer g e).failure? = some (.notSerializable cause)) :
    IsUnsendable (.notSerializable cause)
  | tooLarge (h : (r.writer g e).failure? = none)
    (hlt : max < Frame.lengthOf (r.writer g e).bytes) :
    IsUnsendable (.messageTooLarge (Frame.lengthOf (r.writer g e).bytes) max)

theorem writer_onlyRefuses : (r.writer g).OnlyRefuses :=
  .append (.emit _) (.append (.emit _) (valueWriter_onlyRefuses r.value))

theorem writer_grows : (r.writer g).Grows :=
  (Writer.Grows.emit _).append ((Writer.Grows.emit _).append (valueWriter_isItem r.value).grows)

theorem hasFrame_or_isUnsendable :
    (∃ frame, r.HasFrame g max e frame) ∨ ∃ f, r.IsUnsendable g max e f := by
  cases hf : (r.writer g e).failure? with
  | some f =>
    obtain ⟨cause, rfl⟩ := r.writer_onlyRefuses g e f hf
    exact .inr ⟨_, .notSerializable hf⟩
  | none =>
    by_cases hlt : max < Frame.lengthOf (r.writer g e).bytes
    · exact .inr ⟨_, .tooLarge hf hlt⟩
    · exact .inl ⟨_, hf, by simp only [Frame.close, if_neg hlt]; rfl⟩

end

variable {g : Registry} {max : Nat} {e : NameIndex} {r : Reply} {f : Failure}

theorem IsUnsendable.isFatal_eq (h : r.IsUnsendable g max e f) : f.isFatal = false := by
  cases h <;> rfl

theorem HasFrame.frame_eq {e : Encoder} {frame : Frame.Sealed}
    (h : r.HasFrame g max e.names frame) :
    e.frame max (r.writer g) = (.ok frame, (e.write (r.writer g)).encoder) := by
  simp only [Encoder.frame, Encoder.write, Writer.run, h.failure?_eq, h.close_eq]

theorem IsUnsendable.frame_fst {e : Encoder} (h : r.IsUnsendable g max e.names f) :
    (e.frame max (r.writer g)).1 = .error f := by
  cases h with
  | notSerializable hf =>
    simp only [Encoder.frame, Encoder.write, Writer.run, hf]
    rfl
  | tooLarge hf hlt =>
    simp only [Encoder.frame, Encoder.write, Writer.run, hf, Frame.close, if_pos hlt]
    rfl

end Reply

namespace Connection

variable {c : Connection} {g : Registry} {r : Reply}

theorem writeFrame_of_hasFrame (hopen : c.isClosed = false) {frame : Frame.Sealed}
    (h : r.HasFrame g c.settings.maxMessageSize c.encoder.names frame) :
    c.writeFrame (r.writer g) = (.ok frame, c.sending (r.writer g)) := by
  simp [writeFrame, hopen, h.frame_eq, sending]

/-- The names of a reply that is not sent are forgotten. -/
theorem writeFrame_of_isUnsendable (hopen : c.isClosed = false) (hdense : c.encoder.names.Dense)
    (hsize : (c.encoder.write (r.writer g)).encoder.interned ≤ maxNames) {f : Failure}
    (h : r.IsUnsendable g c.settings.maxMessageSize c.encoder.names f) :
    c.writeFrame (r.writer g) = (.error f, c) := by
  have hresult := h.frame_fst
  cases hframe : c.encoder.frame c.settings.maxMessageSize (r.writer g) with
  | mk result e' =>
    rw [hframe] at hresult
    obtain rfl : result = .error f := hresult
    obtain rfl := Encoder.frame_error hdense (r.writer_grows g) hsize hframe
    rw [writeFrame, if_neg (by rw [hopen]; decide), hframe]

end Connection

namespace MethodTable

variable (t : MethodTable) (call : Call)

def reply : Reply := .ofOutcome call.sequence (t.relayed call.method call.args)

def substitute (f : Failure) : Reply :=
  ⟨call.sequence, false, RemoteFailure.toValue ⟨f.kind, f.message, [t.frame call.method]⟩⟩

def runs : List ResolvedCall :=
  ((t.resolve call.method call.args).toOption.filter fun r => !t.isHook r).toList

inductive Answers (g : Registry) (max : Nat) (e : NameIndex) : Reply → Frame.Sealed → Prop
  | own {frame : Frame.Sealed} (h : (t.reply call).HasFrame g max e frame) :
    Answers g max e (t.reply call) frame
  | substitute {f : Failure} {frame : Frame.Sealed} (hf : (t.reply call).IsUnsendable g max e f)
    (h : (t.substitute call f).HasFrame g max e frame) :
    Answers g max e (t.substitute call f) frame

def Unanswerable (g : Registry) (max : Nat) (e : NameIndex) : Prop :=
  ∃ f f', (t.reply call).IsUnsendable g max e f ∧ (t.substitute call f).IsUnsendable g max e f'

/-- However much of the replies to calls is written, sent or given up, the names fit the indexes. -/
def namesFit (g : Registry) (max : Nat) : Encoder → List Call → Bool
  | e, [] => e.interned ≤ maxNames
  | e, call :: calls =>
    let own := (t.reply call).writer g
    (e.write own).encoder.interned ≤ maxNames &&
      match (e.frame max own).1 with
      | .ok _ => namesFit g max (e.write own).encoder calls
      | .error f =>
        let other := (t.substitute call f).writer g
        (e.write other).encoder.interned ≤ maxNames &&
          match (e.frame max other).1 with
          | .ok _ => namesFit g max (e.write other).encoder calls
          | .error _ => true

variable {t call} {g : Registry} {max : Nat} {e : NameIndex}

theorem answers_or_unanswerable (t : MethodTable) (call : Call) (g : Registry) (max : Nat)
    (e : NameIndex) :
    (∃ reply frame, t.Answers call g max e reply frame) ∨ t.Unanswerable call g max e := by
  obtain ⟨frame, h⟩ | ⟨f, hf⟩ := (t.reply call).hasFrame_or_isUnsendable g max e
  · exact .inl ⟨_, frame, .own h⟩
  · obtain ⟨frame, h⟩ | ⟨f', hf'⟩ := (t.substitute call f).hasFrame_or_isUnsendable g max e
    · exact .inl ⟨_, frame, .substitute hf h⟩
    · exact .inr ⟨f, f', hf, hf'⟩

theorem Answers.sequence_eq {reply : Reply} {frame : Frame.Sealed}
    (h : t.Answers call g max e reply frame) : reply.sequence = call.sequence := by
  cases h with
  | own =>
    unfold reply Reply.ofOutcome
    split <;> rfl
  | substitute => rfl

theorem Answers.hasFrame {reply : Reply} {frame : Frame.Sealed}
    (h : t.Answers call g max e reply frame) : reply.HasFrame g max e frame := by
  cases h <;> assumption

section NamesFit

variable {e : Encoder} {calls : List Call} {reply : Reply} {frame : Frame.Sealed} {f : Failure}

variable (h : t.namesFit g max e (call :: calls) = true)

include h

theorem reply_interned_le :
    (e.write ((t.reply call).writer g)).encoder.interned ≤ maxNames := by
  rw [namesFit, Bool.and_eq_true, decide_eq_true_eq] at h
  exact h.1

theorem substitute_interned_le (hf : (t.reply call).IsUnsendable g max e.names f) :
    (e.write ((t.substitute call f).writer g)).encoder.interned ≤ maxNames := by
  simp only [namesFit, hf.frame_fst, Bool.and_eq_true, decide_eq_true_eq] at h
  exact h.2.1

theorem Answers.namesFit (hanswers : t.Answers call g max e.names reply frame) :
    t.namesFit g max (e.write (reply.writer g)).encoder calls = true ∧
      (e.write (reply.writer g)).encoder.interned ≤ maxNames := by
  have hown := reply_interned_le h
  cases hanswers with
  | own hframe =>
    simp only [MethodTable.namesFit, hframe.frame_eq, Bool.and_eq_true] at h
    exact ⟨h.2, hown⟩
  | substitute hf hframe =>
    have hother := substitute_interned_le h hf
    simp only [MethodTable.namesFit, hf.frame_fst, hframe.frame_eq, Bool.and_eq_true] at h
    exact ⟨h.2.2, hother⟩

end NamesFit

/-- The failure of a reply that is not sent is relayed with its own kind and message. -/
theorem ofOutcome_resolutionFailure {r : Reply} {f : Failure} (h : r.IsUnsendable g max e f) :
    Reply.ofOutcome call.sequence (.error (t.resolutionFailure call.method f)) =
      t.substitute call f := by
  cases h <;> rfl

end MethodTable

namespace Session

variable {s : Session} {call : Call}

theorem activity_answer (s : Session) (call : Call) :
    (s.answer call).2.activity = s.activity ++ (s.table.runs call).map s.table.running := by
  unfold answer MethodTable.runs
  cases hresolve : s.table.resolve call.method call.args with
  | error f => simp [Except.toOption]
  | ok r =>
    cases hhook : s.table.isHook r with
    | true =>
      simp only [queue]
      split_ifs <;> simp [Except.toOption, Option.filter, hhook]
    | false => simp [Except.toOption, Option.filter, hhook, invoke, note, MethodTable.running]

/-- The session is between two frames of an open connection and knows the types of a registry. -/
structure IsReady (s : Session) (g : Registry) : Prop where
  isClosed_eq : s.connection.isClosed = false
  dense : s.connection.encoder.names.Dense
  lookup?_eq : s.registry.lookup? = g.lookup?

namespace IsReady

variable {g : Registry} {reply : Reply} {frame : Frame.Sealed} {f : Failure}

theorem isOpen_eq (hs : s.IsReady g) : s.isOpen = true := by
  rw [isOpen, hs.isClosed_eq, Bool.not_false]

theorem sendReply_of_hasFrame (hs : s.IsReady g)
    (h : reply.HasFrame g s.connection.settings.maxMessageSize s.connection.encoder.names frame) :
    s.sendReply reply true =
      (.ok (), { s with
        connection := s.connection.sending (reply.writer g)
        activity := s.activity ++ [.sent reply frame] }) := by
  simp only [sendReply, Reply.writer_congr hs.lookup?_eq,
    Connection.writeFrame_of_hasFrame hs.isClosed_eq h]
  rfl

theorem sendReply_of_isUnsendable (hs : s.IsReady g)
    (hsize : (s.connection.encoder.write (reply.writer g)).encoder.interned ≤ maxNames)
    (h : reply.IsUnsendable g s.connection.settings.maxMessageSize s.connection.encoder.names f) :
    s.sendReply reply true = (.error f, s) := by
  simp only [sendReply, Reply.writer_congr hs.lookup?_eq,
    Connection.writeFrame_of_isUnsendable hs.isClosed_eq hs.dense hsize h]

theorem sendOutcome_of_answers (hs : s.IsReady g)
    (hsize : (s.connection.encoder.write ((s.table.reply call).writer g)).encoder.interned ≤
      maxNames)
    (h : s.table.Answers call g s.connection.settings.maxMessageSize s.connection.encoder.names
      reply frame) :
    s.sendOutcome call (s.table.relayed call.method call.args) true =
      (.ok (), { s with
        connection := s.connection.sending (reply.writer g)
        activity := s.activity ++ [.sent reply frame] }) := by
  cases h with
  | own h =>
    have hsend := hs.sendReply_of_hasFrame h
    rw [MethodTable.reply] at hsend
    simp only [sendOutcome, hsend, MethodTable.reply]
  | substitute hf h =>
    have hfirst := hs.sendReply_of_isUnsendable hsize hf
    rw [MethodTable.reply] at hfirst
    simp only [sendOutcome, hfirst, hf.isFatal_eq, MethodTable.ofOutcome_resolutionFailure hf]
    exact hs.sendReply_of_hasFrame h

theorem sendOutcome_of_unanswerable (hs : s.IsReady g) {calls : List Call}
    (hfit : s.table.namesFit g s.connection.settings.maxMessageSize s.connection.encoder
      (call :: calls) = true)
    (h : s.table.Unanswerable call g s.connection.settings.maxMessageSize
      s.connection.encoder.names) :
    ∃ f, s.sendOutcome call (s.table.relayed call.method call.args) true = (.error f, s) := by
  obtain ⟨f, f', hf, hf'⟩ := h
  have hfirst := hs.sendReply_of_isUnsendable (MethodTable.reply_interned_le hfit) hf
  rw [MethodTable.reply] at hfirst
  refine ⟨f', ?_⟩
  simp only [sendOutcome, hfirst, hf.isFatal_eq, MethodTable.ofOutcome_resolutionFailure hf]
  exact hs.sendReply_of_isUnsendable (MethodTable.substitute_interned_le hfit hf) hf'

/-- Answering a call leaves the session ready to send the reply. -/
theorem answer (hs : s.IsReady g) (call : Call) :
    ∃ t, s.answer call = (t.table.relayed call.method call.args, t) ∧ t.IsReady g ∧
      t.table = s.table ∧ t.registry = s.registry ∧ t.connection = s.connection ∧
      t.activity = s.activity ++ (s.table.runs call).map s.table.running := by
  obtain ⟨t, hanswer, htable, hregistry, hconnection, -⟩ := answer_eq s call
  have hactivity := activity_answer s call
  rw [hanswer] at hactivity
  refine ⟨t, by rw [hanswer, htable], ⟨?_, ?_, ?_⟩, htable, hregistry, hconnection, hactivity⟩
  · rw [hconnection, hs.isClosed_eq]
  · rw [hconnection]
    exact hs.dense
  · rw [hregistry, hs.lookup?_eq]

/-- A call that can be answered is run and answered. -/
theorem dispatch_of_answers (hs : s.IsReady g) {calls : List Call}
    (hfit : s.table.namesFit g s.connection.settings.maxMessageSize s.connection.encoder
      (call :: calls) = true)
    (h : s.table.Answers call g s.connection.settings.maxMessageSize s.connection.encoder.names
      reply frame) :
    (s.dispatch call true).IsReady g ∧ (s.dispatch call true).table = s.table ∧
      (s.dispatch call true).registry = s.registry ∧
      (s.dispatch call true).connection = s.connection.sending (reply.writer g) ∧
      (s.dispatch call true).activity =
        s.activity ++ ((s.table.runs call).map s.table.running ++ [.sent reply frame]) := by
  obtain ⟨t, hanswer, ht, htable, hregistry, hconnection, hactivity⟩ := hs.answer call
  rw [← htable, ← hconnection] at hfit h
  simp only [dispatch, hanswer, ht.sendOutcome_of_answers (MethodTable.reply_interned_le hfit) h]
  have hdense := (reply.writer_grows g).dense ht.dense (h.namesFit hfit).2
  refine ⟨⟨ht.isClosed_eq, hdense, ht.lookup?_eq⟩, htable, hregistry, by rw [hconnection], ?_⟩
  rw [hactivity, List.append_assoc]

/-- A call that cannot be answered is run, and the session ends. -/
theorem dispatch_of_unanswerable (hs : s.IsReady g) {calls : List Call}
    (hfit : s.table.namesFit g s.connection.settings.maxMessageSize s.connection.encoder
      (call :: calls) = true)
    (h : s.table.Unanswerable call g s.connection.settings.maxMessageSize
      s.connection.encoder.names) :
    (s.dispatch call true).isOpen = false ∧
      (s.dispatch call true).connection.encoder = s.connection.encoder ∧
      (s.dispatch call true).activity =
        s.activity ++ ((s.table.runs call).map s.table.running ++ [.closed]) := by
  obtain ⟨t, hanswer, ht, htable, -, hconnection, hactivity⟩ := hs.answer call
  rw [← htable, ← hconnection] at hfit h
  obtain ⟨f, hfailed⟩ := ht.sendOutcome_of_unanswerable hfit h
  simp only [dispatch, hanswer, hfailed]
  refine ⟨isOpen_close t, by rw [encoder_close, hconnection], ?_⟩
  rw [activity_close ht.isOpen_eq, hactivity, List.append_assoc]

end IsReady

end Session

end RemoteCall
