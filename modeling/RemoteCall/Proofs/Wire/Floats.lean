import RemoteCall.Proofs.Value.Identity
import RemoteCall.Proofs.Wire.Acceptance
import RemoteCall.Proofs.Wire.Evolution

/-!
# Floating point numbers that come back

A number is written as an integer if it compares equal to one, and the two zeros compare equal. So
every number comes back with all its bits except the negative zero, and a record comes back with the
numbers of its double fields unless one of them is that.
-/

namespace RemoteCall

open Wire

namespace Wire

theorem Reader.exists_set_of_intoField {value : Reader Value} {f : Field} {r r' : Record}
    {s t : ReadState} (h : Reader.intoField value f r s = .ok r' t) : ∃ v, r' = f.set r v := by
  cases hkind : f.kind with
  | bool =>
    simp only [Reader.intoField, hkind] at h
    obtain ⟨b, u, -, h⟩ := Reader.bind_eq_ok_iff.mp h
    exact ⟨.bool b, (Reader.pure_eq_ok_iff.mp h).1.symm⟩
  | object =>
    simp only [Reader.intoField, hkind] at h
    obtain ⟨v, u, -, h⟩ := Reader.bind_eq_ok_iff.mp h
    exact ⟨v, (Reader.pure_eq_ok_iff.mp h).1.symm⟩
  | float | double =>
    simp only [Reader.intoField, hkind] at h
    obtain ⟨x, u, -, h⟩ := Reader.bind_eq_ok_iff.mp h
    simp only [Field.setFloat, hkind] at h
    exact ⟨_, (Reader.pure_eq_ok_iff.mp h).1.symm⟩
  | byte | short | char | int | long =>
    simp only [Reader.intoField, hkind] at h
    obtain ⟨n, u, -, h⟩ := Reader.bind_eq_ok_iff.mp h
    rw [Field.setInt] at h
    cases hvalue : f.intValue r n with
    | error failure =>
      rw [hvalue] at h
      cases h
    | ok v =>
      rw [hvalue] at h
      exact ⟨v, (Reader.pure_eq_ok_iff.mp h).1.symm⟩

namespace OnTrack

variable {g : Registry} {conveyed : String → Prop} {inner : Value → Prop} {budget : Nat}
  {ws : List Writer} {e final : NameIndex} {s : ReadState} {r : Record} {t : RecordType}

/-- A legible field is stored, and a number in a double field as the number that is read back. -/
theorem field {f : Field} (hf : f.Legible inner r)
    (hinner : ∀ v, TakesIff g conveyed (inner v) [valueWriter g v] (Reader.value budget))
    (h : OnTrack g conveyed (fieldWriter r ⟨r.typeName, namedWriters g r.fields⟩ f :: ws) e final s)
    (r' : Record) :
    ∃ v t e', Reader.intoField (Reader.value budget) f r' s = .ok (f.set r' v) t ∧
      OnTrack g conveyed ws e' final t ∧
      (f.kind = .double → ∃ x, f.getFloat r = .ok x ∧ v = .double x.unsignedZero) := by
  by_cases hkind : f.kind = .double
  · have hwritten := h.ahead.failure?_head
    simp only [fieldWriter, hkind] at h hwritten
    cases hx : f.getFloat r with
    | error failure =>
      rw [hx] at hwritten
      cases hwritten
    | ok x =>
      obtain ⟨names, known, input⟩ := s
      rw [hx] at h
      obtain ⟨rest, rfl, hrest⟩ := h.leaf
      refine ⟨.double x.unsignedZero, _, e, ?_, hrest, fun _ => ⟨x, rfl, rfl⟩⟩
      simp only [Reader.intoField, hkind]
      rw [Reader.bind_of_ok (Reader.float_append x names known rest)]
      simp only [Field.setFloat, hkind]
      rfl
  · obtain ⟨a, t, e', hread, ht⟩ := (TakesIff.field f r r' hinner).takes hf h
    obtain ⟨v, rfl⟩ := Reader.exists_set_of_intoField hread
    exact ⟨v, t, e', hread, ht, fun h => absurd h hkind⟩

theorem fields (hnodup : (t.layout.map Prod.fst).Nodup) {fs : List Field}
    (hfs : ∀ f ∈ fs, f ∈ t.fields ∧ f.Legible inner r) (hnames : (fs.map Field.name).Nodup)
    (hinner : ∀ v, TakesIff g conveyed (inner v) [valueWriter g v] (Reader.value budget))
    (isDynamic : Bool) (value? : String → Option Value)
    (h : OnTrack g conveyed
      (fs.map (fieldWriter r ⟨r.typeName, namedWriters g r.fields⟩) ++ ws) e final s) :
    ∃ stored? s' e', (fs.map fun f => (f.name, some f)).foldlM
        (Reader.intoSlot (Reader.value budget) isDynamic) (t.filled value?) s =
          .ok (t.filled stored?) s' ∧
      OnTrack g conveyed ws e' final s' ∧
      (∀ name ∉ fs.map Field.name, stored? name = value? name) ∧
      ∀ f ∈ fs, f.kind = .double →
        ∃ x, f.getFloat r = .ok x ∧ stored? f.name = some (.double x.unsignedZero) := by
  induction fs generalizing e s value? with
  | nil => exact ⟨value?, s, e, rfl, h, fun _ _ => rfl, nofun⟩
  | cons f fs ih =>
    obtain ⟨⟨hf, hlegible⟩, hrest⟩ := List.forall_mem_cons.mp hfs
    rw [List.map_cons, List.nodup_cons] at hnames
    obtain ⟨v, s₁, e₁, hread, ht, hv⟩ := field hlegible hinner h (t.filled value?)
    have hset := RecordType.set_filled value? hnodup hf v
    rw [← (RecordType.isAt_filled value? hf).set_eq] at hset
    rw [hset] at hread
    obtain ⟨stored?, s₂, e₂, hreads, hu, hothers, hdoubles⟩ :=
      ih hrest hnames.2 (Function.update value? f.name (some v)) ht
    refine ⟨stored?, s₂, e₂, ?_, hu, fun name hname => ?_, List.forall_mem_cons.mpr ⟨?_, hdoubles⟩⟩
    · have hslot : Reader.intoSlot (Reader.value budget) isDynamic (t.filled value?)
          (f.name, some f) s = .ok (t.filled (Function.update value? f.name (some v))) s₁ := hread
      rw [List.map_cons, List.foldlM_cons, Reader.bind_of_ok hslot, hreads]
    · rw [List.map_cons, List.mem_cons, not_or] at hname
      rw [hothers name hname.2, Function.update_of_ne hname.1]
    · -- the fields behind this one have other names
      intro hkind
      obtain ⟨x, hx, rfl⟩ := hv hkind
      exact ⟨x, hx, by rw [hothers f.name hnames.1, Function.update_self]⟩

theorem recordBody (ht : g.lookup? r.typeName = some t) (hplain : t.IsPlain)
    (hnamed : conveyed t.signature ∧ 0 < budget) (hlegible : ∀ f ∈ t.fields, f.Legible inner r)
    (hinner : ∀ v, TakesIff g conveyed (inner v) [valueWriter g v] (Reader.value budget))
    (h : OnTrack g conveyed (.name t.signature ::
      (t.fields.map (fieldWriter r ⟨r.typeName, namedWriters g r.fields⟩) ++ ws)) e final s) :
    ∃ r' s' e', Reader.recordBody (Reader.value budget) s = .ok r' s' ∧
      OnTrack g conveyed ws e' final s' ∧
      ∀ f ∈ t.fields, f.kind = .double →
        ∃ x, f.getFloat r = .ok x ∧ f.getFloat r' = .ok x.unsignedZero := by
  obtain ⟨levels, rfl⟩ := Nat.exists_eq_succ_of_ne_zero hnamed.2.ne'
  obtain ⟨s₁, e₁, hname, h₁⟩ := h.name hnamed.1 levels
  have hsplit : Text.split ',' t.signature = t.name :: t.layout.map Prod.fst :=
    hplain.separable.split_signature
  obtain ⟨s₂, hresolve, h₂⟩ := h₁.resolve hsplit hplain.separable.typeName_ne
  have hnames : (t.fields.map Field.name).Nodup := by
    rw [RecordType.fields_eq, RecordType.map_name_fieldsFrom]
    exact hplain.nodup
  obtain ⟨stored?, s₃, e₃, hfields, h₃, -, hdoubles⟩ := fields hplain.nodup
    (fun f hf => ⟨hf, hlegible f hf⟩) hnames hinner false (fun _ => none) h₂
  refine ⟨t.filled stored?, s₃, e₃, ?_, h₃, fun f hf hkind => ?_⟩
  · have hstring : Reader.stringIn (Reader.value (levels + 1)) s = .ok t.signature s₁ :=
      Reader.bind_of_ok hname
    have hlookup : g.lookup? t.name = some t := by rw [Registry.name_of_lookup? ht, ht]
    rw [Reader.recordBody, Reader.bind_of_ok hstring, Reader.bind_of_ok hresolve]
    simp only [Registry.layoutOf, hlookup, RecordType.slots_eq hplain.nodup]
    exact hfields
  · obtain ⟨x, hx, hstored⟩ := hdoubles f hf hkind
    have hget := (RecordType.isAt_filled stored? hf).get_eq
    rw [hstored] at hget
    refine ⟨x, hx, ?_⟩
    rw [Field.getFloat, hget]
    rfl

/-- A legible record of a known type is read as a record with the same numbers in its double fields,
but for the sign of a zero. -/
theorem record (hg : g.IsPlain) (ht : g.lookup? r.typeName = some t)
    (hlegible : (Value.record r).Legible g conveyed (budget + 1))
    (h : OnTrack g conveyed (valueWriter g (.record r) :: ws) e final s) :
    ∃ r' s' e', Reader.value (budget + 1) s = .ok (.record r') s' ∧
      OnTrack g conveyed ws e' final s' ∧
      ∀ f ∈ t.fields, f.kind = .double →
        ∃ x, f.getFloat r = .ok x ∧ f.getFloat r' = .ok x.unsignedZero := by
  obtain ⟨typeName, fields⟩ := r
  obtain ⟨names, known, input⟩ := s
  have hparts : (conveyed t.signature ∧ 0 < budget) ∧
      ∀ f ∈ t.fields, f.Legible (Value.Legible g conveyed budget) ⟨typeName, fields⟩ := by
    rw [Value.Legible, RecordOf.Legible, ht] at hlegible
    exact hlegible
  have hitem : ∀ p ∈ namedWriters g fields, IsItem p.2 := by
    rw [namedWriters_eq]
    exact List.forall_mem_map.mpr fun p _ => valueWriter_isItem p.2
  have hitems : ∀ w ∈ Writer.name t.signature ::
      t.fields.map (fieldWriter ⟨typeName, fields⟩ ⟨typeName, namedWriters g fields⟩), IsItem w :=
    List.forall_mem_cons.mpr
      ⟨.name _, List.forall_mem_map.mpr fun f _ => fieldWriter_isItem hitem f⟩
  have hwriter : valueWriter g (.record ⟨typeName, fields⟩) = .emit [Tag.record.byte] ++
      .concat (.name t.signature ::
        t.fields.map (fieldWriter ⟨typeName, fields⟩ ⟨typeName, namedWriters g fields⟩)) := by
    simp only [valueWriter, recordWriter, ht, fieldWriters_eq, Writer.concat_cons]
  rw [hwriter] at h
  obtain ⟨rest, rfl, hbody⟩ := h.group hitems
  obtain ⟨r', s', e', hread, hs', hdoubles⟩ := recordBody ht (hg.of_lookup? ht) hparts.1 hparts.2
    (TakesIff.value hg budget) hbody
  refine ⟨r', s', e', ?_, hs', hdoubles⟩
  rw [List.singleton_append, Reader.value_tagged, Reader.payload, Reader.bind_of_ok hread]
  rfl

end OnTrack

theorem read_record {g : Registry} (hg : g.Grown) (hplain : g.IsPlain) {e : Encoder} {d : Decoder}
    (hpair : Paired e d) {t : RecordType} {r : Record} (ht : g.lookup? r.typeName = some t)
    (haccepted : (e.write (valueWriter g (.record r))).failure? = none)
    (hsize : (e.write (valueWriter g (.record r))).encoder.interned ≤ maxNames)
    (hlength : (e.write (valueWriter g (.record r))).bytes.length < 2 ^ 64)
    (hlegible : (Value.record r).Legible g e.names.Conveys maxNesting) :
    ∃ r', (d.read g Reader.value (e.write (valueWriter g (.record r))).bytes).result =
        .ok (.record r', []) ∧
      ∀ f ∈ t.fields, f.kind = .double →
        ∃ x, f.getFloat r = .ok x ∧ f.getFloat r' = .ok x.unsignedZero := by
  have htrack := hpair.onTrack hg haccepted hsize hlength
  obtain ⟨r', s, e', hread, hs, hdoubles⟩ := OnTrack.record hplain ht hlegible htrack
  have hinput : s.input = [] := hs.ahead.input_eq
  have hread' : Reader.value d.budget
      ⟨d.names, g, (e.write (valueWriter g (.record r))).bytes⟩ = .ok (.record r') s := by
    rw [hpair.budget_eq]
    exact hread
  refine ⟨r', ?_, hdoubles⟩
  rw [Decoder.read_of_ok hread', hinput]

/-- A floating point number is read back with all its bits, whatever follows it, exactly if it is
not the negative zero. A record of a known type is read back with the numbers of its double fields
exactly if it is legible and none of them is the negative zero. -/
theorem floats_come_back_iff (g : Registry) :
    (∀ (x : Binary64) (names : NameTable) (rest : List UInt8),
      Reader.float ⟨names, g, floatBytes x ++ rest⟩ = .ok x ⟨names, g, rest⟩ ↔
        x ≠ Binary64.zero.negate) ∧
    (g.Grown → g.IsPlain → ∀ {e : Encoder} {d : Decoder}, Paired e d →
      ∀ {t : RecordType} {r : Record}, g.lookup? r.typeName = some t →
        let sent := e.write (valueWriter g (.record r))
        let received := d.read g Reader.value sent.bytes
        sent.failure? = none → sent.encoder.interned ≤ maxNames → sent.bytes.length < 2 ^ 64 →
          ((∃ r', received.result = .ok (.record r', []) ∧
              ∀ f ∈ t.fields, f.kind = .double → f.getFloat r' = f.getFloat r) ↔
            (Value.record r).Legible g e.names.Conveys maxNesting ∧
              ∀ f ∈ t.fields, f.kind = .double → f.getFloat r ≠ .ok Binary64.zero.negate)) := by
  constructor
  · intro x names rest
    rw [Reader.float_append, ← Binary64.unsignedZero_eq_self_iff]
    exact ⟨fun h => (EStateM.Result.ok.inj h).1, fun h => by rw [h]⟩
  · intro hg hplain e d hpair t r ht sent received haccepted hsize hlength
    have hreads := read_record hg hplain hpair ht haccepted hsize hlength
    constructor
    · rintro ⟨r', hresult, hsame⟩
      have hlegible : (Value.record r).Legible g e.names.Conveys maxNesting := by
        by_contra hlegible
        obtain ⟨f, hf⟩ := read_of_not_legible hg hplain hpair haccepted hsize hlength hlegible
        cases hresult.symm.trans hf
      refine ⟨hlegible, fun f hf hkind hnegative => ?_⟩
      obtain ⟨r'', hread, hdoubles⟩ := hreads hlegible
      cases hresult.symm.trans hread
      obtain ⟨x, hx, hx'⟩ := hdoubles f hf hkind
      rw [hsame f hf hkind, hx, Except.ok.injEq] at hx'
      rw [hx, Except.ok.injEq] at hnegative
      exact Binary64.unsignedZero_eq_self_iff.mp hx'.symm hnegative
    · rintro ⟨hlegible, hdouble⟩
      obtain ⟨r', hread, hdoubles⟩ := hreads hlegible
      refine ⟨r', hread, fun f hf hkind => ?_⟩
      obtain ⟨x, hx, hx'⟩ := hdoubles f hf hkind
      rw [hx', hx, Binary64.unsignedZero_eq_self_iff.mpr]
      rintro rfl
      exact hdouble f hf hkind hx

/-- A half, which is written in four bytes, and 2^53, which is no integer of 32 bits. -/
theorem floats_come_back_half :
    let half : Binary64 := ⟨0x3FE0000000000000⟩
    let t : RecordType := ⟨"Cell", [("x", .double), ("y", .double)]⟩
    let g := Registry.initial.register t
    let r : Record := ⟨"Cell", [("x", .double half), ("y", .long 0x20000000000000)]⟩
    Reader.float ⟨.empty, g, floatBytes half ++ [7]⟩ = .ok half ⟨.empty, g, [7]⟩ ∧
      ∃ r', (Decoder.new.read g Reader.value
          (Encoder.new.write (valueWriter g (.record r))).bytes).result = .ok (.record r', []) ∧
        ∀ f ∈ t.fields, f.kind = .double → f.getFloat r' = f.getFloat r := by
  intro half t g r
  have hplain : t.IsPlain := ⟨⟨by decide, by decide⟩, by decide⟩
  refine ⟨((floats_come_back_iff g).1 half _ _).mpr (by decide), ?_⟩
  refine ((floats_come_back_iff g).2 (.register .initial (by decide)) (.register .initial hplain)
    Paired.new rfl (by decide +kernel) (by decide +kernel) (by decide +kernel)).mpr ⟨?_, ?_⟩
  · have hshort : IsShort "Cell,x,y" := by decide +kernel
    refine ⟨⟨.inl hshort, by decide⟩, ?_⟩
    exact List.forall_mem_cons.mpr ⟨trivial, List.forall_mem_singleton.mpr trivial⟩
  · refine List.forall_mem_cons.mpr ⟨by decide +kernel, ?_⟩
    exact List.forall_mem_singleton.mpr (by decide +kernel)

/-- The negative zero is written as the literal zero, by itself and in a field. -/
theorem negative_zero_lost :
    let t : RecordType := ⟨"Cell", [("x", .double)]⟩
    let f : Field := ⟨"x", .double, 0⟩
    let g := Registry.initial.register t
    let r : Record := ⟨"Cell", [("x", .double Binary64.zero.negate)]⟩
    let r' : Record := ⟨"Cell", [("x", .double .zero)]⟩
    Reader.float ⟨.empty, g, floatBytes Binary64.zero.negate ++ [7]⟩ = .ok .zero ⟨.empty, g, [7]⟩ ∧
      (Decoder.new.read g Reader.value
        (Encoder.new.write (valueWriter g (.record r))).bytes).result = .ok (.record r', []) ∧
      f ∈ t.fields ∧ f.getFloat r = .ok Binary64.zero.negate ∧ f.getFloat r' = .ok .zero := by
  intro t f g r r'
  exact ⟨Reader.float_append .., by decide +kernel, by decide, rfl, rfl⟩

end Wire

end RemoteCall
