import RemoteCall.Proofs.Server.Answers
import RemoteCall.Proofs.Server.Hooks

/-!
# One reply for each call

Whatever bytes a client sends, they hold calls up to the first frame that is cut off, refused or no
call. A session answers these calls one after another, each once, and stops for good at the first
that cannot be answered. What it sends keeps in step with the names of whoever reads it.
-/

namespace RemoteCall

open Wire

/-- The calls that the bodies of frames hold, up to the first that is no call. -/
def Call.readAll (d : Decoder) (g : Registry) : List (List UInt8) → List Call
  | [] => []
  | body :: bodies =>
    let reading := d.read g Call.reader body
    match reading.result with
    | .ok (call, _) => call :: readAll reading.decoder reading.registry bodies
    | .error _ => []

def Reply.namesAfter (g : Registry) (e : NameIndex) (sent : List (Reply × Frame.Sealed)) :
    NameIndex :=
  sent.foldl (fun e p => (p.1.writer g e).names) e

namespace MethodTable

variable (t : MethodTable)

/-- The replies sent for calls, each written after the names of those before it. The first call that
cannot be answered has none, nor have the calls behind it. -/
inductive Replies (g : Registry) (max : Nat) :
    NameIndex → List Call → List (Reply × Frame.Sealed) → Prop
  | done (e : NameIndex) : Replies g max e [] []
  | stuck {e : NameIndex} {call : Call} (calls : List Call) (h : t.Unanswerable call g max e) :
    Replies g max e (call :: calls) []
  | answered {e : NameIndex} {call : Call} {calls : List Call} {reply : Reply}
    {frame : Frame.Sealed} {sent : List (Reply × Frame.Sealed)}
    (h : t.Answers call g max e reply frame)
    (hrest : Replies g max (reply.writer g e).names calls sent) :
    Replies g max e (call :: calls) ((reply, frame) :: sent)

/-- What is done for calls with these replies: a method runs before the reply is sent, also if then
there is none. -/
def log : List Call → List (Reply × Frame.Sealed) → List Activity
  | [], _ => []
  | call :: _, [] => (t.runs call).map t.running
  | call :: calls, (reply, frame) :: sent =>
    (t.runs call).map t.running ++ .sent reply frame :: log calls sent

namespace Replies

variable {t} {g : Registry} {max : Nat} {e : NameIndex} {calls : List Call}
  {sent : List (Reply × Frame.Sealed)}

theorem length_le (h : t.Replies g max e calls sent) : sent.length ≤ calls.length := by
  induction h with
  | done | stuck => exact Nat.zero_le _
  | answered _ _ ih => exact Nat.succ_le_succ ih

/-- Each reply answers the call at its place, after the names of the replies before it. -/
theorem answers (h : t.Replies g max e calls sent) {k : Nat} {reply : Reply} {frame : Frame.Sealed}
    (hk : sent[k]? = some (reply, frame)) :
    ∃ call, calls[k]? = some call ∧
      t.Answers call g max (Reply.namesAfter g e (sent.take k)) reply frame := by
  induction h generalizing k with
  | done | stuck => cases hk
  | @answered e call calls _ _ _ h _ ih =>
    cases k with
    | zero =>
      cases hk
      exact ⟨call, rfl, h⟩
    | succ k => exact ih hk

end Replies

end MethodTable

namespace Session

/-- What has become of a session that was brought so many bodies, which hold these calls. More may
come unless it is over. -/
structure HasServed (s t : Session) (g : Registry) (calls : List Call) (count : Nat)
    (isOver : Bool) (sent : List (Reply × Frame.Sealed)) : Prop where
  replies : s.table.Replies g s.connection.settings.maxMessageSize s.connection.encoder.names
    calls sent
  activity_eq : t.activity =
    s.activity ++ (s.table.log calls sent ++ if t.isOpen then [] else [.closed])
  names_eq : t.connection.encoder.names = Reply.namesAfter g s.connection.encoder.names sent
  isOpen_iff : t.isOpen = true ↔ sent.length = count ∧ isOver = false

theorem serve_of_closed {s : Session} (h : s.isOpen = false) (stream : ByteStream) :
    s.serve stream = (s, stream) := by
  rw [serve, if_neg (by rw [h]; decide)]

namespace IsReady

variable {s t : Session} {g : Registry} {call : Call} {calls : List Call} {count : Nat}
  {isOver : Bool}

theorem hasServed_self (hs : s.IsReady g) : s.HasServed s g [] 0 false [] where
  replies := .done _
  activity_eq := by
    rw [hs.isOpen_eq]
    exact (List.append_nil _).symm
  names_eq := rfl
  isOpen_iff := ⟨fun _ => ⟨rfl, rfl⟩, fun _ => hs.isOpen_eq⟩

theorem hasServed_close (hs : s.IsReady g) (hover : count = 0 → isOver = true) :
    s.HasServed s.close g [] count isOver [] where
  replies := .done _
  activity_eq := by
    rw [isOpen_close, activity_close hs.isOpen_eq]
    rfl
  names_eq := congrArg Encoder.names s.encoder_close
  isOpen_iff := by
    rw [isOpen_close]
    refine ⟨(nomatch ·), fun ⟨hcount, hmore⟩ => ?_⟩
    rw [hover hcount.symm] at hmore
    cases hmore

theorem hasServed_stuck (hs : s.IsReady g)
    (hfit : s.table.namesFit g s.connection.settings.maxMessageSize s.connection.encoder
      (call :: calls) = true)
    (h : s.table.Unanswerable call g s.connection.settings.maxMessageSize
      s.connection.encoder.names) :
    s.HasServed (s.dispatch call true) g (call :: calls) (count + 1) isOver [] := by
  obtain ⟨hclosed, hencoder, hactivity⟩ := hs.dispatch_of_unanswerable hfit h
  refine ⟨.stuck calls h, ?_, congrArg Encoder.names hencoder, ?_⟩
  · rw [hclosed, hactivity]
    rfl
  · rw [hclosed]
    exact ⟨(nomatch ·), fun ⟨hcount, _⟩ => nomatch hcount⟩

theorem hasServed_answered (hs : s.IsReady g) {reply : Reply} {frame : Frame.Sealed}
    {sent : List (Reply × Frame.Sealed)}
    (hfit : s.table.namesFit g s.connection.settings.maxMessageSize s.connection.encoder
      (call :: calls) = true)
    (h : s.table.Answers call g s.connection.settings.maxMessageSize s.connection.encoder.names
      reply frame)
    (hrest : (s.dispatch call true).HasServed t g calls count isOver sent) :
    s.HasServed t g (call :: calls) (count + 1) isOver ((reply, frame) :: sent) := by
  obtain ⟨-, htable, -, hconnection, hactivity⟩ := hs.dispatch_of_answers hfit h
  have hreplies := hrest.replies
  have hlog := hrest.activity_eq
  have hnames := hrest.names_eq
  rw [htable, hconnection] at hreplies
  rw [htable, hactivity] at hlog
  rw [hconnection] at hnames
  refine ⟨.answered h hreplies, ?_, hnames, ?_⟩
  · rw [hlog, MethodTable.log]
    simp only [List.append_assoc, List.cons_append, List.nil_append]
  · rw [hrest.isOpen_iff, List.length_cons, Nat.succ_inj]

/-- A session stays ready whatever it learns of signatures from a body. -/
theorem read (hs : s.IsReady g) (body : List UInt8) :
    ({ s with registry := (s.connection.decoder.read s.registry Call.reader body).registry } :
      Session).IsReady g where
  isClosed_eq := hs.isClosed_eq
  dense := hs.dense
  lookup?_eq := by
    have hkeeps := Call.reader_keeps (Parcel.resolves_policy s.registry)
    exact (s.connection.decoder.lookup?_read hkeeps body).trans hs.lookup?_eq

/-- A session that reads a call is ready to answer it. -/
theorem receive_of_ok (hs : s.IsReady g) {body left : List UInt8}
    (hresult : (s.connection.decoder.read s.registry Call.reader body).result = .ok (call, left)) :
    ∃ s' : Session, s.receive body true = s'.dispatch call true ∧ s'.IsReady g ∧
      (∀ {t calls count isOver sent}, s'.HasServed t g calls count isOver sent →
        s.HasServed t g calls count isOver sent) ∧
      s'.table = s.table ∧ s'.connection.settings = s.connection.settings ∧
      s'.connection.encoder = s.connection.encoder ∧
      ∀ bodies, Call.readAll s.connection.decoder s.registry (body :: bodies) =
        call :: Call.readAll s'.connection.decoder s'.registry bodies := by
  have hdecode : s.connection.decodeBody s.registry Call.reader body =
      ⟨.ok call, s.connection.receiving (s.connection.decoder.read s.registry Call.reader
        body).decoder, (s.connection.decoder.read s.registry Call.reader body).registry⟩ := by
    simp only [Connection.decodeBody, hresult, Connection.receiving]
  refine ⟨_, Session.receive_of_ok hdecode, ⟨hs.isClosed_eq, hs.dense, ?_⟩, fun h => ?_, rfl, rfl,
    rfl, fun bodies => ?_⟩
  · exact (hs.read body).lookup?_eq
  · exact ⟨h.replies, h.activity_eq, h.names_eq, h.isOpen_iff⟩
  · simp only [Call.readAll, hresult, Connection.receiving]

/-- What a session does with a stream. The induction is on the frames that it takes. -/
theorem serve (hs : s.IsReady g) (stream : ByteStream)
    (hfit : s.table.namesFit g s.connection.settings.maxMessageSize s.connection.encoder
      (Call.readAll s.connection.decoder s.registry
        (Frame.split s.connection.settings.maxMessageSize stream.chunks.flatten).1) = true) :
    ∃ sent, s.HasServed (s.serve stream).1 g
      (Call.readAll s.connection.decoder s.registry
        (Frame.split s.connection.settings.maxMessageSize stream.chunks.flatten).1)
      (Frame.split s.connection.settings.maxMessageSize stream.chunks.flatten).1.length
      ((Frame.split s.connection.settings.maxMessageSize stream.chunks.flatten).2 ||
        stream.isEnded) sent := by
  fun_induction Session.serve s stream with
  | case1 s stream hopen htake =>
    obtain ⟨hsplit, hended⟩ := ByteStream.split_of_takeFrame?_eq_none htake
    rw [hsplit, hended]
    exact ⟨[], hs.hasServed_self⟩
  | case2 s stream hopen f htake =>
    obtain ⟨hbodies, hover⟩ := ByteStream.split_of_takeFrame?_eq_error htake
    rw [hbodies]
    exact ⟨[], hs.hasServed_close fun _ => hover⟩
  | case3 s stream hopen body rest htake ih =>
    obtain ⟨hfirst, hended⟩ := ByteStream.first?_of_takeFrame?_eq_ok htake
    rw [Frame.split_of_ok hfirst] at hfit ⊢
    rw [← hended]
    dsimp only at hfit ⊢
    cases hresult : (s.connection.decoder.read s.registry Call.reader body).result with
    | error f =>
      have hreceive : s.receive body true = ({ s with registry :=
          (s.connection.decoder.read s.registry Call.reader body).registry } : Session).close := by
        simp only [receive, Connection.decodeBody, hresult]
        rfl
      have hcalls : ∀ bodies, Call.readAll s.connection.decoder s.registry (body :: bodies) = [] :=
        fun bodies => by simp only [Call.readAll, hresult]
      rw [hreceive, serve_of_closed (isOpen_close _), hcalls, List.length_cons]
      obtain ⟨hreplies, hactivity, hnames, hopen⟩ := (hs.read body).hasServed_close (g := g)
        fun hzero => absurd hzero (Nat.succ_ne_zero _)
      exact ⟨[], hreplies, hactivity, hnames, hopen⟩
    | ok p =>
      obtain ⟨s', hreceive, hs', hback, htable, hsettings, hencoder, hcalls⟩ :=
        hs.receive_of_ok hresult
      rw [hcalls, ← htable, ← hsettings, ← hencoder] at hfit
      rw [hreceive] at ih ⊢
      rw [hcalls, List.length_cons, ← hsettings]
      obtain ⟨reply, frame, hanswers⟩ | hstuck := s'.table.answers_or_unanswerable p.1 g
        s'.connection.settings.maxMessageSize s'.connection.encoder.names
      · obtain ⟨ht, httable, htregistry, htconnection, -⟩ := hs'.dispatch_of_answers hfit hanswers
        rw [httable, htregistry, htconnection] at ih
        obtain ⟨sent, hsent⟩ := ih ht (hanswers.namesFit hfit).1
        exact ⟨(reply, frame) :: sent, hback (hs'.hasServed_answered hfit hanswers hsent)⟩
      · rw [serve_of_closed (hs'.dispatch_of_unanswerable hfit hstuck).1]
        exact ⟨[], hback (hs'.hasServed_stuck hfit hstuck)⟩
  | case4 s stream hclosed => exact absurd hs.isOpen_eq hclosed

end IsReady

end Session

/-! ## Reading the replies -/

/-- Whoever passes the items of a frame stays in step with its writer. -/
theorem Wire.Paired.read_items {e : NameIndex} {d : Decoder} (h : Paired ⟨e⟩ d) {ws : List Writer}
    (hitems : ∀ w ∈ ws, IsItem w) (hf : (Writer.concat ws e).failure? = none)
    (hsize : (Writer.concat ws e).names.size ≤ maxNames)
    (hlt : (Writer.concat ws e).bytes.length < 2 ^ 64) {known : Registry}
    (hknown : known.Reachable) {α : Type} {reader : Nat → Reader α}
    (hreader : Consumes ws.length (reader maxNesting)) {p : α × List UInt8}
    (hresult : (d.read known reader (Writer.concat ws e).bytes).result = .ok p) :
    Paired ⟨(Writer.concat ws e).names⟩
      (d.read known reader (Writer.concat ws e).bytes).decoder := by
  have hbudget : d.budget = maxNesting := by
    rw [Decoder.budget, h.depth_eq, Nat.sub_zero]
  have hahead : Ahead ws e (Writer.concat ws e).names
      ⟨d.names, known, (Writer.concat ws e).bytes⟩ :=
    ⟨hitems, h.agrees, hknown.keepsSlots, rfl, hf, rfl, hsize, hlt⟩
  unfold Decoder.read at hresult ⊢
  split at hresult
  · rename_i hrun
    rw [hbudget] at hrun
    exact ⟨hreader.all hahead hrun, h.depth_eq⟩
  · cases hresult

/-- A client that read the frame of a reply knows the names that were written. -/
theorem Reply.HasFrame.read {g : Registry} {max : Nat} {e : NameIndex} {r : Reply}
    {frame : Frame.Sealed} (h : r.HasFrame g max e frame) (hmax : max < 2 ^ 64)
    (hsize : (r.writer g e).names.size ≤ maxNames) {d : Decoder} (hpaired : Paired ⟨e⟩ d)
    {known : Registry} (hknown : known.Reachable) {p : Reply × List UInt8}
    (hresult : (d.read known Reply.reader frame.body).result = .ok p) :
    Paired ⟨(r.writer g e).names⟩ (d.read known Reply.reader frame.body).decoder := by
  obtain ⟨hbody, hlength⟩ := Frame.body_of_close h.close_eq
  have hwriter : r.writer g = .concat
      [.number r.sequence.toInt64, .emit (boolBytes r.success), valueWriter g r.value] := by
    rw [Writer.concat_cons, Writer.concat_cons, Writer.concat_singleton]
    rfl
  have hitems : ∀ w ∈ [Writer.number r.sequence.toInt64, .emit (boolBytes r.success),
      valueWriter g r.value], IsItem w := by
    simpa using ⟨IsItem.number _, IsItem.bool _, valueWriter_isItem _⟩
  have hf := h.failure?_eq
  rw [hbody] at hresult ⊢
  rw [hwriter] at hf hsize hlength hresult ⊢
  exact hpaired.read_items hitems hf hsize (by omega) hknown Reply.reader_consumes hresult

def Wire.Decoder.readReplies? (d : Decoder) : List (Registry × Frame.Sealed) → Option Decoder
  | [] => some d
  | (known, frame) :: frames =>
    let reading := d.read known Reply.reader frame.body
    match reading.result with
    | .ok _ => reading.decoder.readReplies? frames
    | .error _ => none

namespace MethodTable.Replies

variable {t : MethodTable} {g : Registry} {max : Nat} {e : NameIndex} {calls : List Call}
  {sent : List (Reply × Frame.Sealed)}

/-- A client that could read so many of the replies has the names of the server. -/
theorem paired (h : t.Replies g max e calls sent) (hmax : max < 2 ^ 64)
    (hfit : t.namesFit g max ⟨e⟩ calls = true) {d d' : Decoder} (hpaired : Paired ⟨e⟩ d) (k : Nat)
    {frames : List (Registry × Frame.Sealed)}
    (hframes : frames.map Prod.snd = (sent.take k).map Prod.snd)
    (hknown : ∀ p ∈ frames, p.1.Reachable) (hread : d.readReplies? frames = some d') :
    Paired ⟨Reply.namesAfter g e (sent.take k)⟩ d' := by
  induction h generalizing k d frames with
  | done | stuck =>
    rw [List.take_nil, List.map_nil, List.map_eq_nil_iff] at hframes
    subst hframes
    cases hread
    rwa [List.take_nil]
  | @answered e _ _ reply frame _ h _ ih =>
    obtain _ | k := k
    · rw [List.take_zero, List.map_nil, List.map_eq_nil_iff] at hframes
      subst hframes
      cases hread
      exact hpaired
    obtain _ | ⟨⟨known, frame'⟩, frames⟩ := frames
    · cases hframes
    · obtain ⟨hframe, hothers⟩ := List.cons.inj hframes
      obtain rfl : frame' = frame := hframe
      obtain ⟨hfirst, hknown⟩ := List.forall_mem_cons.mp hknown
      obtain ⟨hrest, hsize⟩ := h.namesFit hfit
      unfold Decoder.readReplies? at hread
      dsimp only at hread
      split at hread
      · rename_i hresult
        have hnext := h.hasFrame.read hmax hsize hpaired hfirst hresult
        exact ih hrest hnext k hothers hknown hread
      · cases hread

end MethodTable.Replies

namespace Service

variable {v : Server} {g : Registry} {client : PeerAddress} {seed : UInt64}
  {hello : Frame.Sealed} {c : Connection} {stream rest : ByteStream} {s : Session}

end Service

end RemoteCall
