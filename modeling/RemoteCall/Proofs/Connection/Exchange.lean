import RemoteCall.Connection.Handshake
import RemoteCall.Proofs.Call
import RemoteCall.Proofs.Connection.Arrivals
import RemoteCall.Proofs.Connection.Drafts
import RemoteCall.Proofs.Wire.Failures

/-!
# Frames from one end to the other

One direction of a connection that is open at both ends feeds its receiver: what the sender writes
arrives as the receiver reads it, if it survives being encoded and its frame is not too large for
either end. The direction is ready for the next frame then, since a reader that succeeds has learned
the names that were written and has changed the registry only by resolving signatures.
-/

namespace RemoteCall

open Wire

theorem Reply.reader_consumes : Consumes 3 (Reply.reader maxNesting) :=
  Reader.number_headed.consumes.bind fun _ => Reader.bool_headed.consumes.bind fun _ =>
    (Reader.value_consumes maxNesting).map _

structure Parcel where
  {α : Type}
  writer : Writer
  reader : Nat → Reader α
  content : α

namespace Parcel

def header (g : Registry) (header : Header) : Parcel :=
  ⟨valueWriter g header.toValue, Reader.value, header.toValue⟩

def call (g : Registry) (c : Call) : Parcel := ⟨c.writer g, Call.reader, c⟩

def reply (g : Registry) (r : Reply) : Parcel := ⟨r.writer g, Reply.syncReader, r⟩

/-- Written after these names, the content has a frame within the limit, the names fit the indexes,
and who knows the same names and types reads the content from it. -/
structure Crosses (limit : Nat) (g : Registry) (e : NameIndex) (p : Parcel) : Prop where
  failure?_eq : (p.writer e).failure? = none
  fits : Frame.Fits limit (p.writer e).bytes
  size_le : (p.writer e).names.size ≤ maxNames
  read : ∀ d known, e.Agrees d → g.Resolves known →
    ∃ t, p.reader maxNesting ⟨d, known, (p.writer e).bytes⟩ = .ok p.content t

def AllCross (limit : Nat) (g : Registry) : NameIndex → List Parcel → Prop
  | _, [] => True
  | e, p :: ps => p.Crosses limit g e ∧ AllCross limit g (p.writer e).names ps

/-- The reader passes the items that the writer appends and only resolves signatures. -/
structure IsPaced (p : Parcel) : Prop where
  consumes : ∃ ws, (∀ w ∈ ws, IsItem w) ∧ p.writer = .concat ws ∧
    Consumes ws.length (p.reader maxNesting)
  keeps : ∀ g : Registry, Reader.Keeps g.Resolves (fun _ => True) (p.reader maxNesting)

theorem resolves_policy (g : Registry) : ReadPolicy g.Resolves fun _ => True where
  corrupted _ := trivial
  resolve signature h := .resolve signature h
  setInt _ _ _ _ := trivial

theorem header_isPaced (g : Registry) (header : Header) : (Parcel.header g header).IsPaced where
  consumes := ⟨[valueWriter g header.toValue], by simpa using valueWriter_isItem _,
    (Writer.concat_singleton _).symm, Reader.value_consumes maxNesting⟩
  keeps g := .value (resolves_policy g) maxNesting

theorem call_isPaced (g : Registry) (c : Call) : (call g c).IsPaced where
  consumes := by
    refine ⟨[.number c.sequence.toInt64, .name c.method, arrayWriter g Value.anyComponent c.args],
      ?_, ?_, ?_⟩
    · simpa using ⟨IsItem.number _, IsItem.name _, valueWriter_isItem _⟩
    · rw [Writer.concat_cons, Writer.concat_cons, Writer.concat_singleton]
      rfl
    · have hvalue := Reader.value_consumes maxNesting
      exact Reader.number_headed.consumes.bind fun _ => hvalue.stringIn.bind fun _ =>
        hvalue.arrayIn.map _
  keeps g := Call.reader_keeps (resolves_policy g) maxNesting

theorem reply_isPaced (g : Registry) (r : Reply) : (reply g r).IsPaced where
  consumes := by
    refine ⟨[.number r.sequence.toInt64, .emit (boolBytes r.success), valueWriter g r.value],
      ?_, ?_, ?_⟩
    · simpa using ⟨IsItem.number _, IsItem.bool _, valueWriter_isItem _⟩
    · rw [Writer.concat_cons, Writer.concat_cons, Writer.concat_singleton]
      rfl
    · refine Reply.reader_consumes.andThen fun reply => ?_
      split
      · exact .pure reply
      · exact .throw _
  keeps g := Reply.syncReader_keeps (resolves_policy g) maxNesting

/-- The frames of what is written one after another are within the limit, and the names after each
of them can be told apart by their indexes. -/
def FramesFit (limit : Nat) : NameIndex → List Writer → Prop
  | _, [] => True
  | e, w :: ws => (Frame.Fits limit (w e).bytes ∧ (w e).names.size ≤ maxNames) ∧
    FramesFit limit (w e).names ws

instance FramesFit.decidable (limit : Nat) : ∀ e ws, Decidable (FramesFit limit e ws)
  | _, [] => inferInstanceAs (Decidable True)
  | e, w :: ws =>
    have := FramesFit.decidable limit (w e).names ws
    inferInstanceAs (Decidable ((Frame.Fits limit (w e).bytes ∧ (w e).names.size ≤ maxNames) ∧
      FramesFit limit (w e).names ws))

/-- Whatever is carried crosses in frames that fit. -/
theorem AllCross.of_carries {g : Registry} (hg : g.IsCurrent) {limit : Nat} {ps : List Parcel}
    (h : ∀ p ∈ ps, Carries (·.ReadsFor g) p.writer (p.reader maxNesting) p.content) {e : NameIndex}
    (hfits : FramesFit limit e (ps.map Parcel.writer)) : AllCross limit g e ps := by
  induction ps generalizing e with
  | nil => trivial
  | cons p ps ih =>
    obtain ⟨⟨hbody, hsize⟩, hrest⟩ := hfits
    have hp := h p (List.mem_cons_self ..)
    refine ⟨⟨hp.failure?_eq e, hbody, hsize, fun d known hd hknown => ?_⟩,
      ih (fun q hq => h q (List.mem_cons_of_mem _ hq)) hrest⟩
    obtain ⟨d', known', hread, -, -⟩ := hp.read e d known [] hd (hknown.readsFor hg) hsize
    rw [List.append_nil] at hread
    exact ⟨_, hread⟩

section Portable

variable {g g' : Registry} (h : g'.lookup? = g.lookup?)

include h

theorem header_carries {header : Header} (hv : header.toValue.Portable g) :
    Carries (·.ReadsFor g) (Parcel.header g' header).writer (Reader.value maxNesting) header.toValue := by
  have hcarries := Carries.value hv.allFit hv.wireDepth_le
  rwa [← valueWriter_congr h] at hcarries

theorem call_carries {c : Call} (hc : c.Portable g) :
    Carries (·.ReadsFor g) (call g' c).writer (Call.reader maxNesting) c := by
  have hcarries := Call.carries hc
  rwa [← Call.writer_congr h] at hcarries

theorem reply_carries {r : Reply} (hr : r.value.Portable g) (hsync : r.sequence = syncSequence) :
    Carries (·.ReadsFor g) (reply g' r).writer (Reply.syncReader maxNesting) r := by
  have hcarries := Reply.carries_sync hr hsync
  rwa [← Reply.writer_congr h] at hcarries

end Portable

end Parcel

theorem Frame.Fits.mono {limit limit' : Nat} {body : List UInt8} (h : Fits limit body)
    (hle : limit ≤ limit') : Fits limit' body :=
  ⟨h.length_le.trans hle, h.length_lt⟩

structure ByteStream.Drained (s : ByteStream) : Prop where
  chunks : s.chunks.flatten = []
  isEnded : s.isEnded = false

theorem ByteStream.Drained.push {s : ByteStream} (h : s.Drained) (bytes : List UInt8) :
    (s.push bytes).chunks.flatten = bytes ++ [] := by
  rw [ByteStream.push, List.flatten_append, h.chunks, List.nil_append, List.flatten_singleton,
    List.append_nil]

namespace Connection

def sending (c : Connection) (w : Writer) : Connection :=
  { c with encoder := (c.encoder.write w).encoder }

def receiving (c : Connection) (d : Decoder) : Connection := { c with decoder := d }

/-- One direction of a connection, with nothing under way. The receiver knows the types of a
registry. -/
structure Feeds (g : Registry) (limit : Nat) (c d : Connection) (known : Registry)
    (stream : ByteStream) : Prop where
  isClosed_sender : c.isClosed = false
  isClosed_receiver : d.isClosed = false
  limit_le_sender : limit ≤ c.settings.maxMessageSize
  limit_le_receiver : limit ≤ d.settings.maxMessageSize
  paired : Paired c.encoder d.decoder
  resolves : g.Resolves known
  drained : stream.Drained

theorem Feeds.congr {g known : Registry} {limit : Nat} {c c' d d' : Connection}
    {stream : ByteStream} (h : Feeds g limit c d known stream)
    (hc : (c'.isClosed, c'.settings, c'.encoder) = (c.isClosed, c.settings, c.encoder))
    (hd : (d'.isClosed, d'.settings, d'.decoder) = (d.isClosed, d.settings, d.decoder)) :
    Feeds g limit c' d' known stream := by
  simp only [Prod.mk.injEq] at hc hd
  obtain ⟨hc₁, hc₂, hc₃⟩ := hc
  obtain ⟨hd₁, hd₂, hd₃⟩ := hd
  exact ⟨hc₁ ▸ h.isClosed_sender, hd₁ ▸ h.isClosed_receiver, hc₂ ▸ h.limit_le_sender,
    hd₂ ▸ h.limit_le_receiver, hc₃ ▸ hd₃ ▸ h.paired, h.resolves, h.drained⟩

variable {g known : Registry} {limit : Nat} {c d : Connection} {stream : ByteStream} {p : Parcel}

theorem writeFrame_of_crosses (hopen : c.isClosed = false) (h : p.Crosses limit g c.encoder.names)
    (hlimit : limit ≤ c.settings.maxMessageSize) :
    ∃ frame, Frame.close c.settings.maxMessageSize (p.writer c.encoder.names).bytes = .ok frame ∧
      c.writeFrame p.writer = (.ok frame, c.sending p.writer) := by
  obtain ⟨frame, hclose⟩ : ∃ frame, Frame.close c.settings.maxMessageSize
      (p.writer c.encoder.names).bytes = .ok frame :=
    ⟨_, Frame.close_of_fits (h.fits.mono hlimit)⟩
  refine ⟨frame, hclose, ?_⟩
  have hframe : c.encoder.frame c.settings.maxMessageSize p.writer =
      (.ok frame, (c.encoder.write p.writer).encoder) := by
    simp only [Encoder.frame, Encoder.write, Writer.run, h.failure?_eq, hclose]
  simp [writeFrame, hopen, hframe, sending]

theorem decodeBody_of_crosses (hp : p.IsPaced) (hg : g.Reachable) (hknown : g.Resolves known)
    {e : Encoder} (hpair : Paired e d.decoder) (h : p.Crosses limit g e.names) :
    ∃ decoder known', d.decodeBody known p.reader (p.writer e.names).bytes =
        ⟨.ok p.content, d.receiving decoder, known'⟩ ∧
      Paired (e.write p.writer).encoder decoder ∧ g.Resolves known' := by
  obtain ⟨t, hread⟩ := h.read d.decoder.names known hpair.agrees hknown
  have hkept := (hp.keeps g).ok hknown hread
  obtain ⟨ws, hitems, hwriter, hconsumes⟩ := hp.consumes
  have hlt := h.fits.length_lt
  rw [Frame.lengthOf, Frame.lengthLimit] at hlt
  have hahead : Ahead ws e.names (p.writer e.names).names
      ⟨d.decoder.names, known, (p.writer e.names).bytes⟩ := by
    refine ⟨hitems, hpair.agrees, (hknown.reachable hg).keepsSlots, ?_, ?_, ?_, h.size_le, ?_⟩
    · rw [hwriter]
    · rw [← hwriter]
      exact h.failure?_eq
    · rw [hwriter]
    · dsimp only
      omega
  have hagrees := hconsumes.all hahead hread
  rw [← hpair.budget_eq] at hread
  have hdecoded := Decoder.read_of_ok hread
  refine ⟨⟨t.names, d.decoder.depth⟩, t.registry, ?_, ⟨hagrees, hpair.depth_eq⟩, hkept⟩
  simp only [decodeBody, hdecoded, receiving]

/-- A frame goes from the sender to the receiver, which reads what was written. -/
theorem Feeds.exchange (h : Feeds g limit c d known stream) (hg : g.Reachable) (hp : p.IsPaced)
    (hcross : p.Crosses limit g c.encoder.names) (mode : ReadMode) :
    ∃ frame body rest decoder known', c.writeFrame p.writer = (.ok frame, c.sending p.writer) ∧
      (stream.push frame.bytes).takeFrame? d.settings.maxMessageSize mode =
        some (.ok (body, rest)) ∧
      d.decodeBody known p.reader body = ⟨.ok p.content, d.receiving decoder, known'⟩ ∧
      Feeds g limit (c.sending p.writer) (d.receiving decoder) known' rest := by
  obtain ⟨frame, hclose, hwrite⟩ :=
    writeFrame_of_crosses h.isClosed_sender hcross h.limit_le_sender
  obtain ⟨chunks, htake, hchunks⟩ := ByteStream.takeFrame?_of_fits hclose
    (hcross.fits.mono h.limit_le_receiver) mode (h.drained.push frame.bytes)
  obtain ⟨decoder, known', hdecode, hpair, hknown⟩ :=
    decodeBody_of_crosses hp hg h.resolves h.paired hcross
  exact ⟨frame, _, _, decoder, known', hwrite, htake, hdecode, h.isClosed_sender,
    h.isClosed_receiver, h.limit_le_sender, h.limit_le_receiver, hpair, hknown,
    ⟨hchunks, h.drained.isEnded⟩⟩

theorem readFrame?_of_takeFrame? {α : Type} (known : Registry) (r : Nat → Reader α)
    (hopen : d.isClosed = false) {mode : ReadMode} {body : List UInt8} {rest : ByteStream}
    (h : stream.takeFrame? d.settings.maxMessageSize mode = some (.ok (body, rest))) :
    d.readFrame? known mode r stream = some (d.decodeBody known r body, rest) := by
  simp [readFrame?, hopen, h]

end Connection

/-! ## Headers -/

theorem Header.ofValue_toValue (header : Header) : ofValue header.toValue = .ok header := by
  change (header.map fun field => (Value.string field.1, field.2)).mapM entry = .ok header
  induction header with
  | nil => rfl
  | cons field header ih =>
    rw [List.map_cons, List.mapM_cons, ih]
    rfl

namespace Connection

variable {known : Registry} {d d' : Connection} {stream rest : ByteStream} {body : List UInt8}

def greeted (c : Connection) (header : Header) : Connection := { c with peerHeader := header }

theorem readHeader?_of_takeFrame? {header : Header} {known' : Registry}
    (hopen : d.isClosed = false)
    (htake : stream.takeFrame? d.settings.maxMessageSize .reply = some (.ok (body, rest)))
    (hdecode : d.decodeBody known Reader.value body = ⟨.ok header.toValue, d', known'⟩) :
    d.readHeader? known stream = some (⟨.ok (), d'.greeted header, known'⟩, rest) := by
  have hread := readFrame?_of_takeFrame? known Reader.value hopen htake
  simp only [readHeader?, hread, hdecode, Option.map_some, acceptHeader, Header.ofValue_toValue,
    greeted]

end Connection

end RemoteCall
