import RemoteCall.Proofs.Connection.Exchange
import RemoteCall.Server.Basic

/-!
# Sessions that have just opened

A connection that was accepted has sent the server's header; if it could send none, or reads no
header of the client, there is no session. A session opens on the open connection, with the names of
the two headers, and has done nothing yet.
-/

namespace RemoteCall

open Wire

theorem Wire.Decoder.lookup?_read {α : Type} {g : Registry} {reader : Nat → Reader α}
    (h : ∀ budget, Reader.Keeps g.Resolves (fun _ => True) (reader budget)) (d : Decoder)
    (input : List UInt8) : (d.read g reader input).registry.lookup? = g.lookup? := by
  unfold Decoder.read
  split
  · rename_i hrun
    exact ((h d.budget).ok .refl hrun).lookup?_eq
  · rename_i hrun
    exact ((h d.budget).error .refl hrun).1.lookup?_eq

namespace Connection

variable {α : Type} {c : Connection} {g : Registry} {reader : Nat → Reader α} {a : α}
  {stream rest : ByteStream}

theorem decodeBody_of_ok {body : List UInt8} (h : (c.decodeBody g reader body).result = .ok a) :
    (∃ left, (c.decoder.read g reader body).result = .ok (a, left)) ∧
      c.decodeBody g reader body = ⟨.ok a, c.receiving (c.decoder.read g reader body).decoder,
        (c.decoder.read g reader body).registry⟩ := by
  unfold decodeBody at h ⊢
  dsimp only at h ⊢
  cases hresult : (c.decoder.read g reader body).result with
  | error f =>
    rw [hresult] at h
    cases h
  | ok p =>
    rw [hresult] at h
    cases h
    exact ⟨⟨p.2, rfl⟩, rfl⟩

theorem readFrame?_eq_ok {mode : ReadMode} {received : Received α}
    (h : c.readFrame? g mode reader stream = some (received, rest))
    (hresult : received.result = .ok a) :
    c.isClosed = false ∧
      ∃ body, stream.takeFrame? c.settings.maxMessageSize mode = some (.ok (body, rest)) ∧
        received = c.decodeBody g reader body := by
  unfold readFrame? at h
  split_ifs at h with hclosed
  · cases h
    cases hresult
  · refine ⟨Bool.eq_false_iff.mpr hclosed, ?_⟩
    split at h
    · cases h
      exact ⟨_, by assumption, rfl⟩
    · cases h
      cases hresult
    · cases h

theorem readHeader?_eq_ok {received : Received Unit}
    (h : c.readHeader? g stream = some (received, rest)) (hresult : received.result = .ok ()) :
    ∃ framed v header, c.readFrame? g .reply Reader.value stream = some (framed, rest) ∧
      framed.result = .ok v ∧ received = ⟨.ok (), framed.connection.greeted header,
        framed.registry⟩ := by
  obtain ⟨⟨framed, left⟩, hframe, h⟩ := Option.map_eq_some_iff.mp h
  dsimp only at h
  cases hvalue : framed.result with
  | error f =>
    rw [hvalue] at h
    cases h
    cases hresult
  | ok v =>
    rw [hvalue] at h
    simp only [acceptHeader] at h
    cases hheader : Header.ofValue v with
    | error f =>
      rw [hheader] at h
      cases h
      cases hresult
    | ok header =>
      rw [hheader] at h
      cases h
      exact ⟨framed, v, header, hframe, hvalue, rfl⟩

end Connection

namespace Service

variable {v : Server} {g : Registry} {client : PeerAddress} {seed : UInt64}

theorem start_eq_greeting {hello? : Option Frame.Sealed} {c : Connection}
    (h : start v g client seed = (hello?, .greeting c)) :
    ∃ hello, hello? = some hello ∧
      (v.accept client seed).writeFrame (valueWriter g v.header.toValue) = (.ok hello, c) := by
  unfold start Connection.sendHeader at h
  cases hwrite : (v.accept client seed).writeFrame (valueWriter g v.header.toValue) with
  | mk result c' =>
    rw [hwrite] at h
    cases result with
    | error f => cases h
    | ok hello =>
      cases h
      exact ⟨hello, rfl, rfl⟩

/-- A session opens when a header was read, on the connection that read it. -/
theorem greet_eq_serving {c : Connection} {stream rest : ByteStream} {s : Session}
    (h : greet v g c stream = (.serving s, rest)) :
    c.isClosed = false ∧ ∃ d known header, known.lookup? = g.lookup? ∧
      s = v.session known ((c.receiving d).greeted header) := by
  unfold greet at h
  cases hread : c.readHeader? g stream with
  | none =>
    rw [hread] at h
    cases h
  | some read =>
    obtain ⟨received, left⟩ := read
    rw [hread] at h
    cases hresult : received.result with
    | error f =>
      simp only [hresult] at h
      cases h
    | ok u =>
      simp only [hresult] at h
      cases h
      obtain ⟨framed, w, header, hframe, hvalue, rfl⟩ :=
        Connection.readHeader?_eq_ok hread hresult
      obtain ⟨hopen, body, -, rfl⟩ := Connection.readFrame?_eq_ok hframe hvalue
      obtain ⟨-, hdecode⟩ := Connection.decodeBody_of_ok hvalue
      rw [hdecode]
      have hlookup := (c.decoder.lookup?_read
        (fun budget => .value (Parcel.resolves_policy g) budget) body)
      exact ⟨hopen, _, _, header, hlookup, rfl⟩

end Service

end RemoteCall
