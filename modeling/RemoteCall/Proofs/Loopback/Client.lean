import RemoteCall.Loopback.Client
import RemoteCall.Proofs.Connection.Corruption
import RemoteCall.Proofs.Pool.Run

/-!
# Connections lost to a frame

Whether a client can trust its connections depends on the types it knows. If no signature leads to a
field for characters, a frame that fails to decode costs the connection, and the pool does not get
it back open. With such a field, a number too large for it fails to decode and leaves the connection
open.
-/

namespace RemoteCall

open Wire

namespace LinkPool

variable {p : LinkPool} {c : Nat} {link : Link}

def IsLost (p : LinkPool) (c : Nat) : Prop :=
  p.run.isOpen c = false ∧ ∀ link, p.links[c]? = some link → link.near.connection.isClosed = true

theorem links_settle (p : LinkPool) :
    p.settle.links[c]? =
      p.links[c]?.map fun link => if p.settle.run.isOpen c then link else link.close := by
  unfold settle
  simp only [List.getElem?_map, List.getElem?_zipIdx, Option.map_map, Nat.zero_add]
  rfl

theorem isLost_settle (h : p.settle.run.isOpen c = false) : p.settle.IsLost c := by
  refine ⟨h, fun link hlink => ?_⟩
  rw [links_settle, h] at hlink
  cases hold : p.links[c]? with
  | none =>
    rw [hold] at hlink
    cases hlink
  | some old =>
    rw [hold] at hlink
    cases hlink
    exact old.near.connection.isClosed_close

theorem isLost_settle_of_isOpen (h : p.run.isOpen c = false) : p.settle.IsLost c :=
  isLost_settle (PoolRun.isOpen_of_subset (PoolRun.closeConnections_subset ..) h)

theorem isLost_settle_of_isClosed (hlink : p.links[c]? = some link)
    (hclosed : link.near.connection.isClosed = true) : p.settle.IsLost c := by
  refine isLost_settle (PoolRun.isOpen_closeConnections _ ?_)
  rw [List.mem_map]
  refine ⟨(link, c), List.mem_filter.mpr ⟨?_, hclosed⟩, rfl⟩
  exact List.mem_zipIdx_iff_getElem?.mpr hlink

/-- What a task does by itself does not bring a connection back. -/
theorem IsLost.recycle (h : p.IsLost c) (d : Nat) : (p.recycle d).IsLost c :=
  isLost_settle_of_isOpen (PoolRun.isOpen_of_subset (p.run.recycle_subset d) h.1)

theorem isLost_setLink (hc : c < p.links.length) (hclosed : link.near.connection.isClosed = true) :
    (p.setLink c link).IsLost c :=
  isLost_settle_of_isClosed (List.getElem?_set_self hc) hclosed

end LinkPool

namespace Link

variable {l : Link} {α : Type} {mode : ReadMode} {reader : Nat → Reader α}
  {received : Connection.Received α} {l' : Link}

/-! ## What the other end leaves alone -/

theorem registry_sendFrame (l : Link) (written : Except Failure Frame.Sealed × Connection) :
    (l.sendFrame written).2.near.registry = l.near.registry := by
  obtain ⟨_ | frame, c⟩ := written <;> rfl

theorem registry_endIf (e : LinkEnd) (isClosed : Bool) :
    (e.endIf isClosed).registry = e.registry := by
  cases isClosed <;> rfl

theorem registry_flip_setNear (l : Link) (c : Connection) :
    (l.flip.setNear c).flip.near.registry = l.near.registry := registry_endIf l.near c.isClosed

theorem registry_flip_sendFrame (l : Link) (written : Except Failure Frame.Sealed × Connection) :
    (l.flip.sendFrame written).2.flip.near.registry = l.near.registry := by
  obtain ⟨_ | frame, c⟩ := written <;> exact registry_flip_setNear l c

theorem registry_takeCall? (l : Link) : l.takeCall?.2.near.registry = l.near.registry := by
  unfold takeCall? read?
  cases l.flip.near.connection.readFrame? l.flip.near.registry .idle Call.reader
      l.flip.near.incoming with
  | none => rfl
  | some read => exact registry_endIf l.near _

theorem registry_act (l : Link) (action : PeerAction) :
    (l.act action).near.registry = l.near.registry := by
  cases action with
  | reply r => exact registry_flip_sendFrame l _
  | frame body =>
    simp only [act]
    split <;> rfl
  | hangUp => exact registry_flip_setNear l _

theorem read?_eq_some (h : l.read? mode reader = some (received, l')) :
    (∃ rest, l.near.connection.readFrame? l.near.registry mode reader l.near.incoming =
      some (received, rest)) ∧ l'.near.connection = received.connection := by
  simp only [read?, Option.map_eq_some_iff, Prod.mk.injEq, Prod.exists] at h
  obtain ⟨_, rest, hread, rfl, rfl⟩ := h
  exact ⟨⟨rest, hread⟩, rfl⟩

end Link

namespace LinkClient

variable {k : LinkClient} {c : Nat} {method : String} {args : List Value}
  {action : Call → PeerAction} {received : Connection.Received Reply} {f : Failure}

def reading? (k : LinkClient) (c : Nat) (method : String) (args : List Value)
    (action : Call → PeerAction) : Option (Connection.Received Reply × Link) :=
  k.pool.links[c]?.bind fun link =>
    let call : Call := ⟨syncSequence, method, args⟩
    match link.sendFrame (link.near.connection.writeCall link.near.registry call) with
    | (.error _, _) => none
    | (.ok _, link) => (link.takeCall?.2.act (action call)).read? .reply Reply.syncReader

/-- A synchronous call reads its reply, and hands back the link as the reading left it. -/
theorem invokeOn_of_reading? {link : Link}
    (h : k.reading? c method args action = some (received, link)) :
    (k.invokeOn c method args action).1 =
        received.result.bind (k.client.syncOutcome received.connection method) ∧
      (k.invokeOn c method args action).2.2 = (k.setLink c link).recycle c := by
  unfold reading? at h
  cases hlink : k.pool.links[c]? with
  | none =>
    rw [hlink] at h
    cases h
  | some old =>
    rw [hlink, Option.bind_some] at h
    unfold invokeOn
    rw [hlink]
    dsimp only at h ⊢
    generalize old.sendFrame
      (old.near.connection.writeCall old.near.registry ⟨syncSequence, method, args⟩) = written at h ⊢
    obtain ⟨_ | frame, sent⟩ := written
    · cases h
    · dsimp only at h ⊢
      rw [h]
      exact ⟨rfl, rfl⟩

/-- The reply is read by the near end, which knows the types it knew before. -/
theorem reading?_eq_some {link : Link}
    (h : k.reading? c method args action = some (received, link)) :
    ∃ old d stream rest, k.pool.links[c]? = some old ∧
      Connection.readFrame? d old.near.registry .reply Reply.syncReader stream =
        some (received, rest) ∧ link.near.connection = received.connection := by
  unfold reading? at h
  cases hlink : k.pool.links[c]? with
  | none =>
    rw [hlink] at h
    cases h
  | some old =>
    rw [hlink, Option.bind_some] at h
    dsimp only at h
    have hregistry := old.registry_sendFrame
      (old.near.connection.writeCall old.near.registry ⟨syncSequence, method, args⟩)
    generalize old.sendFrame
      (old.near.connection.writeCall old.near.registry ⟨syncSequence, method, args⟩) = written
      at h hregistry
    obtain ⟨_ | frame, sent⟩ := written
    · cases h
    · dsimp only at h hregistry
      obtain ⟨⟨rest, hread⟩, hlast⟩ := Link.read?_eq_some h
      rw [Link.registry_act, Link.registry_takeCall?, hregistry] at hread
      exact ⟨old, _, _, rest, rfl, hread, hlast⟩

end LinkClient

namespace Registry

/-- Over these types, a frame that fails to decode costs the connection. -/
structure FailsClosed (g : Registry) : Prop where
  /-- Every failure to decode is a corruption. -/
  isCorruption : ∀ {α : Type} {reader : Nat → Reader α}, IsFrameReader reader →
    ∀ (d : Decoder) (body : List UInt8) (f : Failure),
      (d.read g reader body).result = .error f → f.IsCorruption
  /-- A connection whose read has failed decodes nothing any more, whatever arrives. -/
  closes : ∀ {α : Type} {reader : Nat → Reader α}, IsFrameReader reader →
    ∀ (c : Connection) (mode : ReadMode) (stream rest : ByteStream)
      (received : Connection.Received α) (f : Failure),
      c.readFrame? g mode reader stream = some (received, rest) → received.result = .error f →
      received.connection.isClosed = true ∧
        ∀ {β : Type} (g' : Registry) (mode' : ReadMode) (reader' : Nat → Reader β)
          (stream' : ByteStream), received.connection.readFrame? g' mode' reader' stream' =
            some (⟨.error received.connection.closedFailure, received.connection, g'⟩, stream')
  /-- A synchronous call whose reply could not be read does not put an open connection back into
  the pool. -/
  isLost : ∀ (k : LinkClient) (c : Nat) (method : String) (args : List Value)
    (action : Call → PeerAction) (link old : Link) (received : Connection.Received Reply)
    (f : Failure), k.pool.links[c]? = some old → old.near.registry = g →
      k.reading? c method args action = some (received, link) → received.result = .error f →
      (k.invokeOn c method args action).1 = .error f ∧
        (k.invokeOn c method args action).2.2.pool.IsLost c

theorem failsClosed_of_charless {g : Registry} (hg : ¬ g.ReadsChars) : g.FailsClosed where
  isCorruption hr d body f h := hr.isCorruption hg h
  closes hr c mode stream rest received f hread h := by
    have hclosed := Connection.isClosed_of_readFrame? hr hg hread h
    exact ⟨hclosed, fun _ _ _ _ => Connection.readFrame?_of_isClosed hclosed⟩
  isLost k c method args action link old received f hlink hregistry hreading h := by
    obtain ⟨outcome_eq, pool_eq⟩ := LinkClient.invokeOn_of_reading? hreading
    obtain ⟨old', d, stream, rest, hold, hread, hlast⟩ := LinkClient.reading?_eq_some hreading
    cases hlink.symm.trans hold
    rw [hregistry] at hread
    have hclosed := Connection.isClosed_of_readFrame? .syncReply hg hread h
    rw [← hlast] at hclosed
    have hlength : c < k.pool.links.length := (List.getElem?_eq_some_iff.mp hlink).1
    rw [outcome_eq, pool_eq, h]
    exact ⟨rfl, (LinkPool.isLost_setLink hlength hclosed).recycle c⟩

theorem FailsClosed.charless {g : Registry} (h : g.FailsClosed) : ¬ g.ReadsChars := by
  rintro ⟨signature, layout, name, f, hlayout, hslot, hf⟩
  obtain ⟨before, after, hslots⟩ := List.append_of_mem hslot
  obtain ⟨cause, hread⟩ := read_badRecord hlayout hslots hf
  obtain ⟨_, hcorrupted⟩ := h.isCorruption .value _ _ _ hread
  cases hcorrupted

/-- A frame that fails to decode always costs the connection exactly if no signature leads to a
field for characters. -/
theorem failsClosed_iff (g : Registry) : g.FailsClosed ↔ ¬ g.ReadsChars :=
  ⟨FailsClosed.charless, failsClosed_of_charless⟩

/-- No frame is decoded past a failure over the types that every program starts with. -/
theorem failsClosed_initial : Registry.initial.FailsClosed :=
  failsClosed_of_charless (not_readsChars_of_types rfl (by decide))

end Registry

/-! ## A connection kept -/

def cellClient : LinkClient :=
  let c : Connection := .new syncKey ⟨"localhost", 4000⟩ .default 1
  let linkEnd : LinkEnd := ⟨c, Registry.initial.register cellType, .empty⟩
  let pool := LinkPool.new "pool" .default
  ⟨⟨"client", true, false⟩, ((pool.acquire syncKey).2.fill 0 ⟨linkEnd, linkEnd⟩).2, []⟩

def cellAction (c : Call) : PeerAction :=
  .reply ⟨c.sequence, true, .list [.record ⟨"Cell", [("unit", .int 0x10000)]⟩, .typeByName "Later"]⟩

/-- The reply fails to decode, yet its connection is back in the pool, open and free to be leased
again, while its peer knows two names and it knows one. -/
theorem cell_reply_keeps_connection :
    let called := cellClient.invokeOn 0 "next" [] cellAction
    called.1 = .error (.notSerializable (.notACharUnit "Cell" "unit" 0x10000)) ∧
      called.2.2.pool.run.isOpen 0 = true ∧ called.2.2.pool.run.pool.idle syncKey = 1 ∧
      (called.2.2.pool.links.map fun link =>
        (link.far.connection.encoder.interned, link.near.connection.decoder.interned)) =
          [(2, 1)] := by
  decide +kernel

end RemoteCall
