import RemoteCall.Proofs.Connection.Arrivals
import RemoteCall.Proofs.Wire.CharFields
import RemoteCall.Connection.Basic

/-!
# Frames that cost the connection

A read that fails leaves a table of names that may miss some, so the connection has to be closed. It
is, whenever the failure is a corruption, and a closed connection decodes nothing any more.
-/

namespace RemoteCall

open Wire

inductive IsFrameReader : {α : Type} → (Nat → Reader α) → Prop
  | value : IsFrameReader Reader.value
  | call : IsFrameReader Call.reader
  | reply : IsFrameReader Reply.reader
  | syncReply : IsFrameReader Reply.syncReader

theorem Failure.IsCorruption.isFatal {f : Failure} (h : f.IsCorruption) : f.isFatal = true := by
  obtain ⟨cause, rfl⟩ := h
  rfl

section Reading

variable {α : Type} {reader : Nat → Reader α} {P : Registry → Prop} {F : Failure → Prop}
  {g : Registry} {body : List UInt8} {f : Failure}

theorem IsFrameReader.keeps (hr : IsFrameReader reader) (hp : ReadPolicy P F) (budget : Nat) :
    Reader.Keeps P F (reader budget) := by
  cases hr with
  | value => exact .value hp budget
  | call => exact Call.reader_keeps hp budget
  | reply => exact Reply.reader_keeps hp budget
  | syncReply => exact Reply.syncReader_keeps hp budget

theorem IsFrameReader.failure (hr : IsFrameReader reader) (hp : ReadPolicy P F) (hg : P g)
    {d : Decoder} (h : (d.read g reader body).result = .error f) : F f := by
  cases hread : reader d.budget ⟨d.names, g, body⟩ with
  | ok a s =>
    rw [Decoder.read_of_ok hread] at h
    cases h
  | error e s =>
    rw [Decoder.read_of_error hread] at h
    cases h
    exact ((hr.keeps hp d.budget).error hg hread).2

/-- Where no field is for characters, every failure is a corruption. -/
theorem IsFrameReader.isCorruption (hr : IsFrameReader reader) (hg : ¬ g.ReadsChars) {d : Decoder}
    (h : (d.read g reader body).result = .error f) : f.IsCorruption :=
  hr.failure charless_policy hg h

end Reading

namespace Connection

variable {α : Type} {reader : Nat → Reader α} {c : Connection} {g : Registry} {mode : ReadMode}
  {stream rest : ByteStream} {received : Received α} {f : Failure}

theorem isClosed_close (c : Connection) : c.close.isClosed = true := by
  unfold close
  split
  · assumption
  · rfl

theorem isClosed_closeAfter (c : Connection) (h : f.isFatal = true) :
    (c.closeAfter f).isClosed = true := by
  rw [closeAfter, if_pos h]
  exact c.isClosed_close

/-- A closed connection decodes nothing, and reading from it leaves it as it is. -/
theorem readFrame?_of_isClosed (h : c.isClosed = true) :
    c.readFrame? g mode reader stream = some (⟨.error c.closedFailure, c, g⟩, stream) := by
  have hclose : c.closeAfter c.closedFailure = c := by
    rw [closeAfter, if_pos (by rfl), close, if_pos h]
  rw [readFrame?, if_pos h, Received.failed, hclose]

/-- A failed decoding closes the connection if it is fatal. -/
theorem isClosed_of_decodeBody {body : List UInt8}
    (h : (c.decodeBody g reader body).result = .error f) (hfatal : f.isFatal = true) :
    (c.decodeBody g reader body).connection.isClosed = true := by
  unfold decodeBody at h ⊢
  dsimp only at h ⊢
  cases hresult : (c.decoder.read g reader body).result with
  | ok a =>
    rw [hresult] at h
    cases h
  | error e =>
    rw [hresult] at h
    cases h
    exact isClosed_closeAfter _ hfatal

theorem result_decodeBody_eq_error {body : List UInt8}
    (h : (c.decodeBody g reader body).result = .error f) :
    (c.decoder.read g reader body).result = .error f := by
  unfold decodeBody at h
  dsimp only at h
  cases hresult : (c.decoder.read g reader body).result with
  | ok a =>
    rw [hresult] at h
    cases h
  | error e =>
    rw [hresult] at h
    cases h
    rfl

/-- Where no field is for characters, a read that fails leaves the connection closed. -/
theorem isClosed_of_readFrame? (hr : IsFrameReader reader) (hg : ¬ g.ReadsChars)
    (hread : c.readFrame? g mode reader stream = some (received, rest))
    (h : received.result = .error f) : received.connection.isClosed = true := by
  cases hclosed : c.isClosed with
  | true =>
    rw [readFrame?_of_isClosed hclosed] at hread
    cases hread
    exact hclosed
  | false =>
    rw [readFrame?, if_neg (by rw [hclosed]; decide)] at hread
    cases htake : stream.takeFrame? c.settings.maxMessageSize mode with
    | none =>
      rw [htake] at hread
      cases hread
    | some taken =>
      rw [htake] at hread
      cases taken with
      | error e =>
        cases hread
        exact c.isClosed_closeAfter (ByteStream.isFatal_of_takeFrame?_eq_error htake)
      | ok body =>
        cases hread
        have hcorrupted := hr.isCorruption hg (result_decodeBody_eq_error h)
        exact isClosed_of_decodeBody h hcorrupted.isFatal

end Connection

end RemoteCall
