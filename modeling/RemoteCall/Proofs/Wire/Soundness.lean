import RemoteCall.Proofs.Wire.Delimited

/-!
# Whatever is given to read

A decoder reads what anyone may have sent, with any registry and after any other reads. Reading it
ends, in a failure or with a value. A value is found behind at least one byte and is nested no deeper
than the levels left allow. And in either case the names known before are known at the same indices
and the same levels are left, so that the next value can be read.
-/

namespace RemoteCall

open Wire

/-! ## The depth of what is stored in a record -/

namespace Value

theorem wireDepth_zero (kind : FieldKind) : kind.zero.wireDepth = 1 := by
  cases kind <;> rfl

theorem fieldsDepth_append (fields more : List (String × Value)) :
    fieldsDepth (fields ++ more) = max (fieldsDepth fields) (fieldsDepth more) := by
  induction fields with
  | nil => simp [fieldsDepth]
  | cons p fields ih =>
    rw [List.cons_append, fieldsDepth, fieldsDepth, ih, Nat.max_assoc]

end Value

open Value (fieldsDepth fieldsDepth_le wireDepth_le_fieldsDepth)

theorem WireLayout.fieldsDepth_blank (l : WireLayout) : fieldsDepth l.blank.fields ≤ 1 := by
  unfold blank
  cases l.known? with
  | none => exact Nat.zero_le 1
  | some t =>
    apply fieldsDepth_le
    intro p hp
    obtain ⟨slot, -, rfl⟩ := List.mem_map.mp hp
    exact Nat.le_of_eq (Value.wireDepth_zero slot.2)

namespace RecordOf

variable {α : Type}

theorem mem_putField {name : String} {v : α} {fields : List (String × α)} {p : String × α}
    (h : p ∈ putField name v fields) : p ∈ fields ∨ p.2 = v := by
  induction fields with
  | nil =>
    cases List.mem_singleton.mp h
    exact .inr rfl
  | cons field fields ih =>
    obtain ⟨n, w⟩ := field
    rw [putField] at h
    split at h
    · rcases List.mem_cons.mp h with rfl | h
      · exact .inr rfl
      · exact .inl (List.mem_cons_of_mem _ h)
    · rcases List.mem_cons.mp h with rfl | h
      · exact .inl (List.mem_cons_self ..)
      · exact (ih h).imp_left (List.mem_cons_of_mem _)

/-- Whatever field is written, each field of the record is an old one or holds what was written. -/
theorem mem_setSlot {r : RecordOf α} {index : Nat} {name : String} {v : α} {p : String × α}
    (h : p ∈ (r.setSlot index name v).fields) : p ∈ r.fields ∨ p.2 = v := by
  unfold setSlot at h
  split at h
  · split at h
    · rcases List.mem_or_eq_of_mem_set h with h | rfl
      · exact .inl h
      · exact .inr rfl
    · exact mem_putField h
  · exact mem_putField h

end RecordOf

namespace Field

variable {f : Field} {r r' : Record} {levels : Nat}

theorem fieldsDepth_set {v : Value} (hr : fieldsDepth r.fields ≤ levels)
    (hv : v.wireDepth ≤ levels) : fieldsDepth (f.set r v).fields ≤ levels := by
  apply fieldsDepth_le
  intro p hp
  rcases RecordOf.mem_setSlot hp with hold | hnew
  · exact Nat.le_trans (wireDepth_le_fieldsDepth hold) hr
  · rw [hnew]
    exact hv

theorem wireDepth_of_intValue {n : Int64} {v : Value} (h : f.intValue r n = .ok v) :
    v.wireDepth = 1 := by
  unfold intValue at h
  cases hkind : f.kind with
  | char =>
    simp only [hkind] at h
    cases hc : f.unitChar r n with
    | error e =>
      rw [hc] at h
      cases h
    | ok c =>
      rw [hc] at h
      cases h
      rfl
  | _ =>
    simp only [hkind] at h
    cases h
    rfl

theorem fieldsDepth_of_setInt {n : Int64} (hr : fieldsDepth r.fields ≤ levels) (hlevels : 0 < levels)
    (h : f.setInt r n = .ok r') : fieldsDepth r'.fields ≤ levels := by
  unfold setInt at h
  cases hv : f.intValue r n with
  | error e =>
    rw [hv] at h
    cases h
  | ok v =>
    rw [hv] at h
    cases h
    apply fieldsDepth_set hr
    rw [wireDepth_of_intValue hv]
    exact hlevels

theorem fieldsDepth_of_setFloat {x : Binary64} (hr : fieldsDepth r.fields ≤ levels)
    (hlevels : 0 < levels) (h : f.setFloat r x = .ok r') : fieldsDepth r'.fields ≤ levels := by
  unfold setFloat at h
  split at h
  · exact fieldsDepth_of_setInt hr hlevels h
  · split at h
    all_goals
      cases h
      exact fieldsDepth_set hr hlevels

end Field

namespace Wire

namespace Reader

/-! ## The depth of what is read -/

section Makes

variable {α β : Type} {r : Reader α} {p : α → Prop} {q : β → Prop}

structure Makes (r : Reader α) (p : α → Prop) : Prop where
  of_ok : ∀ {s a t}, r s = .ok a t → p a

namespace Makes

theorem any (r : Reader α) : Makes r fun _ => True := ⟨fun _ => trivial⟩

theorem mono {p' : α → Prop} (h : Makes r p) (hp : ∀ a, p a → p' a) : Makes r p' :=
  ⟨fun ha => hp _ (h.of_ok ha)⟩

theorem pure {a : α} (ha : p a) : Makes (Pure.pure a) p where
  of_ok h := by
    cases h
    exact ha

theorem fail (f : Failure) : Makes (throw f) p := ⟨fun h => nomatch h⟩

theorem ofExcept {result : Except Failure α} (h : ∀ a, result = .ok a → p a) :
    Makes (Reader.ofExcept result) p := by
  cases result with
  | ok a => exact pure (h a rfl)
  | error f => exact fail f

theorem bind (h : Makes r p) {f : α → Reader β} (hf : ∀ a, p a → Makes (f a) q) :
    Makes (r >>= f) q where
  of_ok hb := by
    obtain ⟨a, t, ha, hb⟩ := bind_eq_ok_iff.mp hb
    exact (hf a (h.of_ok ha)).of_ok hb

theorem andThen {f : α → Reader β} (hf : ∀ a, Makes (f a) q) : Makes (r >>= f) q :=
  (any r).bind fun a _ => hf a

theorem map (h : Makes r p) {f : α → β} (hf : ∀ a, p a → q (f a)) :
    Makes (r >>= fun a => Pure.pure (f a)) q :=
  h.bind fun a ha => pure (hf a ha)

theorem times (h : Makes r p) (n : Nat) : Makes (Reader.times r n) fun as => ∀ a ∈ as, p a := by
  induction n with
  | zero => exact pure (List.forall_mem_nil p)
  | succ n ih =>
    apply h.bind
    intro a ha
    exact ih.map fun as has => List.forall_mem_cons.mpr ⟨ha, has⟩

/-- What each step of a loop keeps, the loop keeps. -/
theorem foldlM {σ : Type} {step : α → σ → Reader α} (h : ∀ a x, p a → Makes (step a x) p)
    (xs : List σ) {a : α} (ha : p a) : Makes (xs.foldlM step a) p := by
  induction xs generalizing a with
  | nil => exact pure ha
  | cons x xs ih =>
    rw [List.foldlM_cons]
    exact (h a x ha).bind fun b hb => ih hb

end Makes

end Makes

namespace Makes

section Inner

variable {inner : Reader Value} {levels : Nat} (hinner : Makes inner (·.wireDepth ≤ levels))

include hinner

/-- A string that is read as a value takes a level of its own. -/
theorem stringIn : Makes (Reader.stringIn inner) fun _ => 0 < levels :=
  hinner.bind fun v hv => by
    cases v with
    | string s => exact pure (Nat.lt_of_lt_of_le (Value.wireDepth_pos _) hv)
    | _ => exact fail _

theorem intoField (f : Field) (hlevels : 0 < levels) {r : Record}
    (hr : fieldsDepth r.fields ≤ levels) :
    Makes (Reader.intoField inner f r) fun r' => fieldsDepth r'.fields ≤ levels := by
  unfold Reader.intoField
  split
  · exact (any bool).map fun b _ => Field.fieldsDepth_set hr hlevels
  · exact andThen fun x => ofExcept fun r' h => Field.fieldsDepth_of_setFloat hr hlevels h
  · exact andThen fun x => ofExcept fun r' h => Field.fieldsDepth_of_setFloat hr hlevels h
  · exact hinner.map fun v hv => Field.fieldsDepth_set hr hv
  all_goals
    exact andThen fun n => ofExcept fun r' h => Field.fieldsDepth_of_setInt hr hlevels h

theorem intoSlot (isDynamic : Bool) (slot : String × Option Field) (hlevels : 0 < levels)
    {r : Record} (hr : fieldsDepth r.fields ≤ levels) :
    Makes (Reader.intoSlot inner isDynamic r slot) fun r' => fieldsDepth r'.fields ≤ levels := by
  obtain ⟨name, _ | f⟩ := slot
  · apply hinner.map
    intro v hv
    cases isDynamic with
    | false => exact hr
    | true =>
      have hpush : fieldsDepth (r.fields ++ [(name, v)]) ≤ levels := by
        rw [Value.fieldsDepth_append, fieldsDepth, fieldsDepth]
        omega
      exact hpush
  · exact intoField hinner f hlevels hr

/-- Whatever the layout that the registry finds for the signature. -/
theorem recordBody :
    Makes (Reader.recordBody inner) fun r => (Value.record r).wireDepth ≤ levels + 1 := by
  apply (stringIn hinner).bind
  intro signature hlevels
  apply andThen
  intro layout
  have hblank : fieldsDepth layout.blank.fields ≤ levels :=
    Nat.le_trans layout.fieldsDepth_blank hlevels
  have hfold : Makes (layout.slots.foldlM (Reader.intoSlot inner layout.isDynamic) layout.blank)
      fun r => fieldsDepth r.fields ≤ levels :=
    foldlM (fun r slot hr => intoSlot hinner layout.isDynamic slot hlevels hr) layout.slots hblank
  apply hfold.mono
  intro r hr
  rw [Value.wireDepth]
  exact Nat.succ_le_succ (Nat.max_le.mpr ⟨hlevels, hr⟩)

theorem payload (t : Tag) : Makes (Reader.payload inner t) (·.wireDepth ≤ levels + 1) := by
  have hstring := stringIn hinner
  have hpos : 1 ≤ levels + 1 := Nat.succ_le_succ (Nat.zero_le levels)
  cases t with
  | null | boolTrue | boolFalse => exact pure hpos
  | signed1 | signed2 | signed4 | signed8 | float4 | float8 | char | string | tag | bytes
  | foreign =>
    exact andThen fun _ => pure hpos
  | array =>
    apply andThen
    intro count
    apply hstring.bind
    intro component hlevels
    apply (hinner.times count).map
    intro items hitems
    rw [Value.wireDepth]
    exact Nat.succ_le_succ (Nat.max_le.mpr ⟨hlevels, Value.itemsDepth_le hitems⟩)
  | list | set =>
    apply andThen
    intro count
    apply (hinner.times count).map
    intro items hitems
    exact Nat.succ_le_succ (Value.itemsDepth_le hitems)
  | map =>
    have hpair : Makes (Reader.pair inner inner)
        fun p => p.1.wireDepth ≤ levels ∧ p.2.wireDepth ≤ levels :=
      hinner.bind fun key hkey => hinner.map fun value hvalue => ⟨hkey, hvalue⟩
    apply andThen
    intro count
    apply (hpair.times count).map
    intro entries hentries
    exact Nat.succ_le_succ (Value.entriesDepth_le hentries)
  | entry =>
    apply hinner.bind
    intro key hkey
    apply hinner.map
    intro value hvalue
    rw [Value.wireDepth]
    exact Nat.succ_le_succ (Nat.max_le.mpr ⟨hkey, hvalue⟩)
  | enum =>
    apply hstring.bind
    intro name hlevels
    exact (any _).map fun _ _ => Nat.succ_le_succ hlevels
  | record => exact (recordBody hinner).map fun r hr => hr
  | className | fieldSignature =>
    exact hstring.map fun name hlevels => Nat.succ_le_succ hlevels

end Inner

theorem value (levels : Nat) : Makes (Reader.value levels) (·.wireDepth ≤ levels) := by
  induction levels with
  | zero => exact fail _
  | succ levels ih =>
    apply andThen
    intro byte
    split
    · exact pure (Nat.succ_le_succ (Nat.zero_le levels))
    · exact andThen fun t => payload ih t

theorem array (levels : Nat) :
    Makes (Reader.array levels) fun a => ∀ v ∈ a.2, v.wireDepth ≤ levels := by
  apply (value levels).bind
  intro v hv
  cases v with
  | array component items =>
    apply pure
    intro w hw
    have hitem : w.wireDepth < (Value.array component items).wireDepth :=
      Value.wireDepth_lt_of_mem_children hw
    exact Nat.le_trans (Nat.le_of_lt hitem) hv
  | _ => exact fail _

theorem call (levels : Nat) :
    Makes (Call.reader levels) fun c => ∀ v ∈ c.args, v.wireDepth ≤ levels := by
  apply andThen
  intro sequence
  apply andThen
  intro method
  exact (array levels).map fun a ha => ha

theorem reply (levels : Nat) : Makes (Reply.reader levels) (·.value.wireDepth ≤ levels) := by
  apply andThen
  intro sequence
  apply andThen
  intro success
  exact (value levels).map fun v hv => hv

end Makes

/-! ## Bytes consumed -/

def NeedsInput {α : Type} (r : Reader α) : Prop :=
  ∀ names g, ∃ f s, r ⟨names, g, []⟩ = .error f s

namespace NeedsInput

variable {α β : Type} {r : Reader α}

theorem bind (h : NeedsInput r) (f : α → Reader β) : NeedsInput (r >>= f) := by
  intro names g
  obtain ⟨e, s, he⟩ := h names g
  exact ⟨e, s, bind_of_error he⟩

theorem lead : NeedsInput lead := fun _ _ => ⟨_, _, rfl⟩

theorem value (levels : Nat) : NeedsInput (Reader.value levels) := by
  cases levels with
  | zero => exact fun _ _ => ⟨_, _, rfl⟩
  | succ levels => exact lead.bind _

/-- What is taken whatever stands behind it is taken with nothing behind it. -/
theorem ne_nil (h : NeedsInput r) {s t : ReadState} {bytes : List UInt8} {a : α}
    (htakes : Takes r s bytes a t) : bytes ≠ [] := by
  rintro rfl
  obtain ⟨f, u, hf⟩ := h s.names s.registry
  have hwhole := htakes.whole []
  rw [List.append_nil, hf] at hwhole
  cases hwhole

end NeedsInput

end Reader

/-! ## What a read leaves behind -/

namespace Decoder

variable {α : Type}

def standing (levels : Nat) : Reader Value := do
  let byte ← Reader.lead
  if byte ≤ Tag.maxLiteral then return .int (Int32.ofNat byte.toNat)
  else Reader.payload (Reader.value levels) (← Reader.tagOf byte)

/-- Reads a value and counts the levels: it is refused where no level is left, and else the decoder
goes down a level, reads what stands there, and comes up again, also if that has failed. -/
def readCounting (d : Decoder) (g : Registry) (input : List UInt8) : Decoding Value :=
  if maxNesting ≤ d.depth then ⟨.error (.streamCorrupted .nestedTooDeeply), d, g⟩
  else
    let inside := Decoder.read { d with depth := d.depth + 1 } g standing input
    { inside with decoder := { inside.decoder with depth := inside.decoder.depth - 1 } }

/-- The levels left are those that the decoder has not gone down yet. -/
theorem read_eq_readCounting (d : Decoder) (g : Registry) (input : List UInt8) :
    d.read g Reader.value input = d.readCounting g input := by
  unfold readCounting
  by_cases hdeep : maxNesting ≤ d.depth
  · have hrefused : Reader.value d.budget ⟨d.names, g, input⟩ =
        .error (.streamCorrupted .nestedTooDeeply) ⟨d.names, g, input⟩ := by
      rw [budget, Nat.sub_eq_zero_of_le hdeep]
      rfl
    rw [if_pos hdeep, read_of_error hrefused]
  · have hbudget : d.budget = budget { d with depth := d.depth + 1 } + 1 := by
      unfold budget
      dsimp only
      omega
    have hvalue : Reader.value d.budget = standing (budget { d with depth := d.depth + 1 }) := by
      rw [hbudget]
      rfl
    rw [if_neg hdeep, read, read, hvalue]
    cases (standing (budget { d with depth := d.depth + 1 })).run ⟨d.names, g, input⟩ with
    | ok v s => rfl
    | error f s => rfl

inductive Later (d : Decoder) : Decoder → Prop
  | self : Later d d
  | read {d' : Decoder} (h : Later d d') {α : Type} {reader : Nat → Reader α}
    (hmade : ∀ levels, (reader levels).Stepwise) (g : Registry) (input : List UInt8) :
    Later d (d'.read g reader input).decoder

/-- The decoder knows every name of the first one at its index, and is as deep. -/
structure Extends (d' d : Decoder) : Prop where
  names_prefix : d.names.names <+: d'.names.names
  depth_eq : d'.depth = d.depth

theorem extends_read {reader : Nat → Reader α} (hmade : ∀ levels, (reader levels).Stepwise)
    (d : Decoder) (g : Registry) (input : List UInt8) : (d.read g reader input).decoder.Extends d := by
  obtain ⟨new, hnew, -⟩ := ((hmade d.budget).leads ⟨d.names, g, input⟩).names
  cases hread : reader d.budget ⟨d.names, g, input⟩ with
  | ok a s =>
    rw [Reader.after_of_ok hread] at hnew
    rw [read_of_ok hread]
    exact ⟨⟨new, hnew.symm⟩, rfl⟩
  | error f s =>
    rw [Reader.after_of_error hread] at hnew
    rw [read_of_error hread]
    exact ⟨⟨new, hnew.symm⟩, rfl⟩

theorem Later.keeps {d d' : Decoder} (h : d.Later d') : d'.Extends d := by
  induction h with
  | self => exact ⟨List.prefix_rfl, rfl⟩
  | @read d' _ _ _ hmade g input ih =>
    have hread := extends_read hmade d' g input
    exact ⟨ih.names_prefix.trans hread.names_prefix, hread.depth_eq.trans ih.depth_eq⟩

/-- With every registry and every decoder the reader ends on every input. Either it fails, or it
leaves a proper end of the input and the values in what it yields are no deeper than the levels
left. Either way the decoder is as deep as before and still knows each name at its index. -/
def ReadsSoundly (reader : Nat → Reader α) (values : α → List Value) : Prop :=
  ∀ (d : Decoder) (g : Registry) (input : List UInt8),
    let reading := d.read g reader input
    ((∃ f, reading.result = .error f) ∨
      ∃ a rest, reading.result = .ok (a, rest) ∧
        (∃ consumed, consumed ≠ [] ∧ input = consumed ++ rest) ∧
        ∀ v ∈ values a, v.wireDepth + d.depth ≤ maxNesting) ∧
    reading.decoder.Extends d

theorem readsSoundly {reader : Nat → Reader α} {values : α → List Value}
    (hmade : ∀ levels, (reader levels).Stepwise) (hneeds : ∀ levels, (reader levels).NeedsInput)
    (hdepth : ∀ levels, (reader levels).Makes fun a => ∀ v ∈ values a, v.wireDepth ≤ levels) :
    ReadsSoundly reader values := by
  intro d g input
  refine ⟨?_, extends_read hmade d g input⟩
  cases hread : reader d.budget ⟨d.names, g, input⟩ with
  | error f s =>
    rw [read_of_error hread]
    exact .inl ⟨f, rfl⟩
  | ok a s =>
    rw [read_of_ok hread]
    obtain ⟨consumed, hinput, htakes⟩ := Reader.Delimits.of_stepwise (hmade d.budget) hread
    refine .inr ⟨a, s.input, rfl, ⟨consumed, (hneeds d.budget).ne_nil htakes, hinput⟩, ?_⟩
    intro v hv
    have hle : v.wireDepth ≤ d.budget := (hdepth d.budget).of_ok hread v hv
    have hpos := v.wireDepth_pos
    unfold budget at hle
    omega

end Decoder

end Wire

namespace Call

theorem reader_stepwise (levels : Nat) : (reader levels).Stepwise :=
  Reader.Stepwise.number.andThen fun _ => (Reader.Stepwise.value levels).stringIn.andThen fun _ =>
    (Reader.Stepwise.value levels).arrayIn.map _

end Call

namespace Reply

theorem reader_stepwise (levels : Nat) : (reader levels).Stepwise :=
  Reader.Stepwise.number.andThen fun _ => Reader.Stepwise.bool.andThen fun _ =>
    (Reader.Stepwise.value levels).map _

end Reply

namespace Wire

/-- Values, calls and replies are read so from anything. A value is read a level further down, and the
decoder has come up from there when it is read or has failed to be. A decoder that any number of
reads have left behind, failed ones among them, is one to read on with. -/
theorem decoder_reads_soundly :
    Decoder.ReadsSoundly Reader.value (fun v => [v]) ∧
    Decoder.ReadsSoundly Call.reader Call.args ∧
    Decoder.ReadsSoundly Reply.reader (fun r => [r.value]) ∧
    (∀ (d : Decoder) g input, d.read g Reader.value input = d.readCounting g input) ∧
    ∀ d d' : Decoder, d.Later d' → d'.Extends d := by
  have hnumber : Reader.NeedsInput Reader.number := Reader.NeedsInput.lead.bind _
  refine ⟨?_, ?_, ?_, Decoder.read_eq_readCounting, fun d d' h => h.keeps⟩
  · apply Decoder.readsSoundly Reader.Stepwise.value Reader.NeedsInput.value
    intro levels
    exact (Reader.Makes.value levels).mono fun v hv => List.forall_mem_singleton.mpr hv
  · exact Decoder.readsSoundly Call.reader_stepwise (fun _ => hnumber.bind _) Reader.Makes.call
  · apply Decoder.readsSoundly Reply.reader_stepwise (fun _ => hnumber.bind _)
    intro levels
    exact (Reader.Makes.reply levels).mono fun r hr => List.forall_mem_singleton.mpr hr

/-- A list of two items that ends after the first, a new name: the read fails, and the name stays
known. -/
example :
    let reading := Decoder.new.read .initial Reader.value [0xF2, 2, 0xF3, 0, 1, 97]
    reading.result.toOption = none ∧ reading.decoder = ⟨⟨["a"]⟩, 0⟩ := by
  decide +kernel

end Wire

end RemoteCall
