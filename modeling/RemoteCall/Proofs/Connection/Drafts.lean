import RemoteCall.Connection.Basic
import RemoteCall.Proofs.Wire.Headed

/-!
# Names across frames

A caller drafts a frame by a sequence of writes and may give it up after any of them; the connection
gives up a draft that fails or grows too long. The names of a draft that is given up are forgotten,
so at the end of every frame the encoder has exactly the names of the frames that were sent, and
so has a decoder that read these frames.
-/

namespace RemoteCall

open Wire

inductive Write where
  | bool (b : Bool)
  | number (n : Int64)
  | float (x : Binary64)
  | name (s : String)
  | array (component : String) (items : List Value)
  | value (v : Value)

inductive Read where
  | bool | number | float | name | string | array | value
deriving DecidableEq, Repr

def Write.writer (g : Registry) : Write → Writer
  | .bool b => .emit (boolBytes b)
  | .number n => .number n
  | .float x => .emit (floatBytes x)
  | .name s => .name s
  | .array component items => arrayWriter g component items
  | .value v => valueWriter g v

def Read.reader (budget : Nat) : Read → Reader Value
  | .bool => do return .bool (← Reader.bool)
  | .number => do return .long (← Reader.number)
  | .float => do return .double (← Reader.float)
  | .name => do return .string (← Reader.name)
  | .string => do return .string (← Reader.string budget)
  | .array => do
    let (component, items) ← Reader.array budget
    return .array component items
  | .value => Reader.value budget

def Read.all : List Read → Nat → Reader (List Value)
  | [], _ => pure []
  | read :: reads, budget => do
    let v ← read.reader budget
    let vs ← all reads budget
    return v :: vs

/-- Some writes, and then a failure if the frame is given up. -/
structure Draft where
  registry : Registry
  writes : List Write
  failure? : Option Failure

structure Reading where
  registry : Registry
  reads : List Read

namespace Draft

def writers (d : Draft) : List Writer := d.writes.map (Write.writer d.registry)

def writer (d : Draft) : Writer :=
  .concat d.writers ++
    match d.failure? with
    | some f => .fail f
    | none => .nothing

end Draft

def Frame.Sealed.body (s : Frame.Sealed) : List UInt8 := (s.bytes.take s.length).drop lengthBytes

/-- However much of a draft is written, sent or given up, the names fit the indexes. -/
def Connection.NamesFit (c : Connection) : List Draft → Prop
  | [] => True
  | draft :: drafts =>
    (c.encoder.write draft.writer).encoder.interned ≤ maxNames ∧
      (c.writeFrame draft.writer).2.NamesFit drafts

/-- Sends the drafts one after another: the frames of those that were sent, and the connection
after all of them. -/
def Connection.sendAll (c : Connection) : List Draft → List (Draft × Frame.Sealed) × Connection
  | [] => ([], c)
  | draft :: drafts =>
    let (sent, c) := c.writeFrame draft.writer
    let (rest, c) := c.sendAll drafts
    match sent with
    | .ok frame => ((draft, frame) :: rest, c)
    | .error _ => (rest, c)

def Wire.Decoder.readAll? (d : Decoder) : List (Reading × Frame.Sealed) →
    Option (List (List Value) × Decoder)
  | [] => some ([], d)
  | (reading, frame) :: frames =>
    let decoding := d.read reading.registry (Read.all reading.reads) frame.body
    match decoding.result with
    | .ok (results, _) =>
      (decoding.decoder.readAll? frames).map fun (rest, d) => (results :: rest, d)
    | .error _ => none

theorem Frame.body_of_close {max : Nat} {body : List UInt8} {s : Frame.Sealed}
    (h : Frame.close max body = .ok s) : s.body = body ∧ body.length ≤ max := by
  unfold Frame.close at h
  dsimp only at h
  split_ifs at h with hlt
  cases h
  have hlen : Frame.lengthBytes + body.length ≤ max := Nat.le_of_not_lt hlt
  have hfront : (bigEndian Frame.lengthBytes (Frame.lengthOf body)).length = Frame.lengthBytes :=
    length_bigEndian ..
  refine ⟨?_, by omega⟩
  have hwhole : (bigEndian Frame.lengthBytes (Frame.lengthOf body) ++ body).length =
      Frame.lengthOf body := by
    rw [List.length_append, hfront, Frame.lengthOf]
  rw [Frame.Sealed.body, List.take_left' hwhole, List.drop_left' hfront]

theorem Write.writer_isItem (g : Registry) (w : Write) : IsItem (w.writer g) := by
  cases w with
  | bool b => exact .bool b
  | number n => exact .number n
  | float x => exact .float x
  | name s => exact .name s
  | array component items => exact valueWriter_isItem (.array component items)
  | value v => exact valueWriter_isItem v

theorem Read.reader_consumes (budget : Nat) (r : Read) : Consumes 1 (r.reader budget) := by
  cases r with
  | bool => exact Reader.bool_headed.consumes.map _
  | number => exact Reader.number_headed.consumes.map _
  | float => exact Reader.float_headed.consumes.map _
  | name => exact Reader.name_headed.consumes.map _
  | string => exact (Reader.value_consumes budget).stringIn.map _
  | array => exact (Reader.value_consumes budget).arrayIn.map _
  | value => exact Reader.value_consumes budget

theorem Read.all_consumes (budget : Nat) (reads : List Read) :
    Consumes reads.length (Read.all reads budget) := by
  induction reads with
  | nil => exact .pure []
  | cons r reads ih =>
    rw [List.length_cons, Nat.add_comm]
    exact (r.reader_consumes budget).bind fun v => ih.map _

/-- Whoever succeeds on a name has read it as the string that was written. -/
theorem Read.reader_name {budget : Nat} {r : Read} {x : String} {ws : List Writer}
    {e final : NameIndex} {s t : ReadState} {v : Value} (hs : Ahead (.name x :: ws) e final s)
    (h : r.reader budget s = .ok v t) : v = .string x := by
  have hvalue : ∀ {w u}, Reader.value budget s = .ok w u → w = .string x :=
    fun h => (Reader.value_name hs h).1
  obtain ⟨names, g, input⟩ := s
  obtain ⟨rest, rfl, hread⟩ := hs.name
  cases r with
  | bool =>
    obtain ⟨b, u, hb, -⟩ := Reader.bind_eq_ok_iff.mp h
    rw [Reader.bool_headed.tagged] at hb
    cases hb
  | number =>
    obtain ⟨n, u, hn, -⟩ := Reader.bind_eq_ok_iff.mp h
    rw [Reader.number_headed.tagged] at hn
    cases hn
  | float =>
    obtain ⟨y, u, hy, -⟩ := Reader.bind_eq_ok_iff.mp h
    rw [Reader.float_headed.tagged] at hy
    cases hy
  | name =>
    obtain ⟨y, u, hy, h⟩ := Reader.bind_eq_ok_iff.mp h
    rw [Reader.name_headed.tagged] at hy
    cases h
    rw [(hread _ _ hy).1]
  | string =>
    obtain ⟨y, u, hy, h⟩ := Reader.bind_eq_ok_iff.mp h
    obtain ⟨w, u', hw, hy⟩ := Reader.bind_eq_ok_iff.mp hy
    obtain rfl := hvalue hw
    cases hy
    cases h
    rfl
  | array =>
    obtain ⟨p, u, hp, -⟩ := Reader.bind_eq_ok_iff.mp h
    obtain ⟨w, u', hw, hp⟩ := Reader.bind_eq_ok_iff.mp hp
    obtain rfl := hvalue hw
    cases hp
  | value => exact hvalue h

/-- As many reads as there are items end behind the last one. -/
theorem Read.all_ahead {budget : Nat} {final : NameIndex} {reads : List Read} {ws : List Writer}
    (hlength : reads.length = ws.length) {e : NameIndex} {s t : ReadState} {vs : List Value}
    (hs : Ahead ws e final s) (h : Read.all reads budget s = .ok vs t) :
    (∃ e', Ahead [] e' final t) ∧
      ∀ (k : Nat) (x : String), ws[k]? = some (Writer.name x) → vs[k]? = some (Value.string x) := by
  induction reads generalizing ws e s vs with
  | nil =>
    obtain rfl := List.eq_nil_of_length_eq_zero hlength.symm
    cases h
    exact ⟨⟨e, hs⟩, fun k x hk => by cases hk⟩
  | cons r reads ih =>
    cases ws with
    | nil => cases hlength
    | cons w ws =>
      obtain ⟨v, u, hv, h⟩ := Reader.bind_eq_ok_iff.mp h
      obtain ⟨vs', u', hvs, h⟩ := Reader.bind_eq_ok_iff.mp h
      cases h
      obtain ⟨ws', e', hs', hpassed⟩ := r.reader_consumes budget hs hv
      obtain ⟨_, _, _, hrest⟩ := Read.all_consumes budget reads hs' hvs
      -- a read that passed more than its item leaves too few for the reads after it
      have hws' : ws' = ws := by
        rcases hpassed with ⟨-, rfl⟩ | hmore
        · rfl
        · have := hrest.le_length
          simp only [List.length_cons] at hlength hmore
          omega
      subst hws'
      obtain ⟨hend, hnames⟩ := ih (Nat.succ.inj hlength) hs' hvs
      refine ⟨hend, fun k x hk => ?_⟩
      cases k with
      | zero =>
        cases hk
        rw [List.getElem?_cons_zero, Read.reader_name hs hv]
      | succ k => exact hnames k x hk

namespace Wire.Encoder

variable {e e' : Encoder} {max : Nat} {body : Writer}

/-- A frame that is sent holds all that was written, and the names written are kept. -/
theorem frame_ok {frame : Frame.Sealed} (h : e.frame max body = (.ok frame, e')) :
    (body e.names).failure? = none ∧ frame.body = (body e.names).bytes ∧
      (body e.names).bytes.length ≤ max ∧ e'.names = (body e.names).names := by
  unfold Encoder.frame at h
  dsimp only at h
  split at h
  · cases h
  · rename_i hf
    split at h
    · rename_i sent hclose
      cases h
      obtain ⟨hbody, hlen⟩ := Frame.body_of_close hclose
      exact ⟨hf, hbody, hlen, rfl⟩
    · cases h

/-- A frame that is not sent leaves the names as they were. -/
theorem frame_error (he : e.names.Dense) (hbody : body.Grows)
    (hsize : (e.write body).encoder.interned ≤ maxNames) {f : Failure}
    (h : e.frame max body = (.error f, e')) : e' = e := by
  have hback : (e.write body).encoder.rollback e.checkpoint = e :=
    congrArg Encoder.mk ((hbody.dense he hsize).rollback_eq (hbody.isPrefix e.names))
  unfold frame at h
  dsimp only at h
  split at h
  · exact (Prod.mk.inj h).2.symm.trans hback
  · split at h
    · cases h
    · exact (Prod.mk.inj h).2.symm.trans hback

end Wire.Encoder

namespace Draft

theorem writers_isItem (d : Draft) : ∀ w ∈ d.writers, IsItem w :=
  List.forall_mem_map.mpr fun w _ => w.writer_isItem d.registry

theorem writer_grows (d : Draft) : d.writer.Grows := by
  refine (Writer.Grows.concat fun w hw => (d.writers_isItem w hw).grows).append ?_
  cases d.failure? with
  | some f => exact .fail f
  | none => exact .emit []

theorem writer_eq_of_none {d : Draft} {e : NameIndex} (h : (d.writer e).failure? = none) :
    d.writer = .concat d.writers := by
  have hgiven := (Writer.failure?_of_append h).2
  rw [writer]
  cases hf : d.failure? with
  | some f =>
    rw [hf] at hgiven
    cases hgiven
  | none => exact Writer.append_nothing _

end Draft

/-- The frame is read with as many reads as it was written with writes. -/
structure IsReadBy (sent : Draft × Frame.Sealed) (read : Reading × Frame.Sealed) : Prop where
  frame_eq : read.2 = sent.2
  length_eq : read.1.reads.length = sent.1.writes.length
  reachable : read.1.registry.Reachable

def NamesRead (sent : Draft × Frame.Sealed) (results : List Value) : Prop :=
  ∀ (k : Nat) (s : String), sent.1.writes[k]? = some (.name s) → results[k]? = some (.string s)

/-- A name sent as its index alone is found under that index. -/
theorem Wire.Paired.read_known {e : Encoder} {d : Decoder} (h : Paired e d)
    (hsize : e.interned ≤ maxNames) {s : String} {i : Nat} (hs : e.names.index? s = some i)
    (g : Registry) (rest : List UInt8) :
    (d.read g (fun _ => Reader.name) ((e.write (.name s)).bytes ++ rest)).result =
      .ok (s, rest) := by
  have hname := (h.agrees.index?_eq_some_iff s i).mp hs
  have hlt := NameTable.lt_size_of_name? hname
  rw [← h.agrees.size_eq] at hlt
  have hindex : i < 2 ^ 63 := (hlt.trans_le hsize).trans (by decide)
  have hbytes : (e.write (.name s)).bytes = tagged .tag (countBytes i) := by
    rw [Encoder.write, Writer.run, Writer.name_of_known hs]
  have hread : Reader.name ⟨d.names, g, tagged .tag (countBytes i) ++ rest⟩ =
      .ok s ⟨d.names, g, rest⟩ := by
    rw [tagged_append, Reader.name_headed.tagged]
    exact Reader.nameBody_known hname hindex g rest
  rw [hbytes, Decoder.read_of_ok hread]

/-- What reading the frame of a draft gives. -/
theorem Wire.Paired.read_draft {e e' : Encoder} {d : Decoder} (h : Paired e d) {max : Nat}
    (hmax : max < 2 ^ 64) {draft : Draft} {frame : Frame.Sealed}
    (hframe : e.frame max draft.writer = (.ok frame, e')) (hsize : e'.interned ≤ maxNames)
    {reading : Reading × Frame.Sealed} (hread : IsReadBy (draft, frame) reading)
    {results : List Value} {rest : List UInt8}
    (hresult : (d.read reading.1.registry (Read.all reading.1.reads) reading.2.body).result =
      .ok (results, rest)) :
    Paired e' (d.read reading.1.registry (Read.all reading.1.reads) reading.2.body).decoder ∧
      NamesRead (draft, frame) results := by
  obtain ⟨hf, hbody, hlen, hnames⟩ := Encoder.frame_ok hframe
  have hwriter := Draft.writer_eq_of_none hf
  rw [hwriter] at hf hbody hlen hnames
  obtain ⟨reading, frame'⟩ := reading
  obtain rfl : frame' = frame := hread.frame_eq
  dsimp only at hresult ⊢
  have hahead : Ahead draft.writers e.names e'.names
      ⟨d.names, reading.registry, frame'.body⟩ := by
    refine ⟨draft.writers_isItem, h.agrees, hread.reachable.keepsSlots, hbody, hf, hnames.symm,
      hsize, ?_⟩
    dsimp only
    rw [hbody]
    omega
  have hlength : reading.reads.length = draft.writers.length := by
    rw [Draft.writers, List.length_map]
    exact hread.length_eq
  unfold Decoder.read at hresult ⊢
  split at hresult
  · rename_i vs s hrun
    cases hresult
    obtain ⟨⟨final, hend⟩, hresults⟩ := Read.all_ahead hlength hahead hrun
    obtain rfl : final = e'.names := hend.names_eq
    refine ⟨⟨hend.agrees, h.depth_eq⟩, fun k x hk => hresults k x ?_⟩
    rw [Draft.writers, List.getElem?_map, hk]
    rfl
  · cases hresult

/-- One direction of a connection, from any point between two frames. -/
theorem sendAll_readAll? {c : Connection} (hopen : c.isClosed = false)
    (hdense : c.encoder.names.Dense) (hsize : c.encoder.interned ≤ maxNames)
    (hmax : c.settings.maxMessageSize < 2 ^ 64) {drafts : List Draft} (hfit : c.NamesFit drafts) :
    (c.sendAll drafts).2.encoder.names.Dense ∧
      (c.sendAll drafts).2.encoder.interned ≤ maxNames ∧
      ∀ {frames results d d'}, Paired c.encoder d →
        List.Forall₂ IsReadBy (c.sendAll drafts).1 frames →
        d.readAll? frames = some (results, d') →
        Paired (c.sendAll drafts).2.encoder d' ∧
          List.Forall₂ NamesRead (c.sendAll drafts).1 results := by
  induction drafts generalizing c with
  | nil =>
    refine ⟨hdense, hsize, fun hpair hreads hall => ?_⟩
    cases hreads
    cases hall
    exact ⟨hpair, .nil⟩
  | cons draft drafts ih =>
    obtain ⟨hdraft, hfit⟩ := hfit
    have hwrite : c.writeFrame draft.writer =
        ((c.encoder.frame c.settings.maxMessageSize draft.writer).1,
          { c with encoder := (c.encoder.frame c.settings.maxMessageSize draft.writer).2 }) := by
      simp [Connection.writeFrame, hopen]
    cases hframe : c.encoder.frame c.settings.maxMessageSize draft.writer with
    | mk sent e' =>
      rw [hframe] at hwrite
      rw [hwrite] at hfit
      simp only [Connection.sendAll, hwrite]
      cases sent with
      | ok frame =>
        have hnames : e'.names = (draft.writer c.encoder.names).names :=
          (Encoder.frame_ok hframe).2.2.2
        have hdense' : e'.names.Dense := by
          rw [hnames]
          exact draft.writer_grows.dense hdense hdraft
        have hsize' : e'.interned ≤ maxNames := by
          rw [Encoder.interned, hnames]
          exact hdraft
        obtain ⟨hend, hlast, hlater⟩ :=
          ih (c := { c with encoder := e' }) hopen hdense' hsize' hmax hfit
        refine ⟨hend, hlast, fun hpair hreads hall => ?_⟩
        cases hreads with
        | @cons _ read _ frames hread hreads =>
          obtain ⟨reading, body⟩ := read
          simp only [Decoder.readAll?] at hall
          split at hall
          · rename_i vs rest hresult
            obtain ⟨hpair', hnames⟩ := hpair.read_draft hmax hframe hsize' hread hresult
            simp only [Option.map_eq_some_iff, Prod.mk.injEq, Prod.exists] at hall
            obtain ⟨results, d', hrest, rfl, rfl⟩ := hall
            obtain ⟨hpair'', hresults⟩ := hlater hpair' hreads hrest
            exact ⟨hpair'', .cons hnames hresults⟩
          · cases hall
      | error f =>
        obtain rfl := Encoder.frame_error hdense draft.writer_grows hdraft hframe
        exact ih hopen hdense hsize hmax hfit

/-- On a fresh connection the names of both ends are the same after any drafts, whichever of them
were given up, and every name that was or will be sent is read as itself. No draft may bring more
names than there are indexes. -/
theorem names_agree_after_drafts (name : String) (peer : PeerAddress)
    {settings : ConnectionSettings} (hmax : settings.maxMessageSize < 2 ^ 64) (seed : UInt64)
    {drafts : List Draft} (hfit : (Connection.new name peer settings seed).NamesFit drafts) :
    let (sent, c) := (Connection.new name peer settings seed).sendAll drafts
    c.encoder.names.IsBijection ∧
      ∀ frames results d, List.Forall₂ IsReadBy sent frames →
        Decoder.new.readAll? frames = some (results, d) →
        c.encoder.names.Agrees d.names ∧ List.Forall₂ NamesRead sent results ∧
          ∀ s i g rest, c.encoder.names.index? s = some i →
            (d.read g (fun _ => Reader.name) ((c.encoder.write (.name s)).bytes ++ rest)).result =
              .ok (s, rest) := by
  obtain ⟨hdense, hsize, hread⟩ := sendAll_readAll? (c := .new name peer settings seed) rfl .empty
    (Nat.zero_le _) hmax hfit
  refine ⟨hdense.isBijection, fun frames results d hreads hall => ?_⟩
  obtain ⟨hpair, hresults⟩ := hread Paired.new hreads hall
  exact ⟨hpair.agrees, hresults, fun s i g rest hs => hpair.read_known hsize hs g rest⟩

/-- The name of a frame given up is sent again, behind another one. -/
theorem names_agree_after_failed_draft :
    let drafts : List Draft :=
      [⟨.initial, [.name "left", .value (.char (Char.ofNat 0x1F600))], none⟩,
       ⟨.initial, [.name "right", .value (.list [.string "left"]), .name "left"], none⟩]
    let (sent, c) := (Connection.new "link" ⟨"localhost", 1⟩ .default 1).sendAll drafts
    (Connection.new "link" ⟨"localhost", 1⟩ .default 1).NamesFit drafts ∧ ∃ results d,
      Decoder.new.readAll? (sent.map fun s => (⟨.initial, [.string, .value, .name]⟩, s.2)) =
        some (results, d) ∧
      c.encoder.names.Agrees d.names ∧ d.names.names = ["right", "left"] := by
  intro drafts
  have hmax : ConnectionSettings.default.maxMessageSize < 2 ^ 64 := by decide
  have hfit : (Connection.new "link" ⟨"localhost", 1⟩ .default 1).NamesFit drafts :=
    ⟨by decide +kernel, by decide +kernel, trivial⟩
  have h := names_agree_after_drafts "link" ⟨"localhost", 1⟩ hmax 1 hfit
  have hsent : ((Connection.new "link" ⟨"localhost", 1⟩ .default 1).sendAll drafts).1.all
      (·.1.writes.length == 3) = true := by decide +kernel
  have hread : (Decoder.new.readAll?
      (((Connection.new "link" ⟨"localhost", 1⟩ .default 1).sendAll drafts).1.map
        fun s => (⟨.initial, [.string, .value, .name]⟩, s.2))).map (·.2.names.names) =
      some ["right", "left"] := by decide +kernel
  obtain ⟨⟨results, d⟩, hd, hnames⟩ := Option.map_eq_some_iff.mp hread
  refine ⟨hfit, results, d, hd, (h.2 _ _ _ ?_ hd).1, hnames⟩
  refine List.forall₂_map_right_iff.mpr (List.forall₂_same.mpr fun s hs => ?_)
  have hlength := List.all_eq_true.mp hsent s hs
  exact ⟨rfl, (beq_iff_eq.mp hlength).symm, .initial⟩

end RemoteCall
