import RemoteCall.Proofs.Wire.Kept
import RemoteCall.Proofs.Wire.Refusals
import RemoteCall.Proofs.Wire.Verdict

/-!
# Numbers that change on the way

A writer takes any integer in an integral field, of whatever width the value is, and a reader cuts it
to the width of the field. So a record is received with the numbers it was sent with exactly if each
of them is one that its field can hold.
-/

namespace RemoteCall

open Wire

/-! ## The numbers of a kind -/

/-- The number is one that a field of the kind can hold: one of its width, and for a character a unit
that is no surrogate. -/
def FieldKind.Spans (n : Int64) : FieldKind → Prop
  | .byte => fitsWidth 8 n.toInt
  | .short => fitsWidth 16 n.toInt
  | .int => fitsWidth 32 n.toInt
  | .char => 0 ≤ n.toInt ∧ n.toInt ≤ 0xFFFF ∧ (n.toInt < 0xD800 ∨ 0xDFFF < n.toInt)
  | _ => True

theorem FieldKind.ne_bool_of_isIntegral {kind : FieldKind} (h : kind.isIntegral = true) :
    kind ≠ .bool := by
  rintro rfl
  cases h

def Value.count? : Value → Option Int64
  | .byte n => some n.toInt64
  | .short n => some n.toInt64
  | .int n => some n.toInt64
  | .long n => some n
  | .char c => if c.toNat ≤ 0xFFFF then some (Int64.ofNat c.toNat) else none
  | _ => none

namespace Field

variable {f : Field} {r : Record} {v : Value} {n : Int64}

theorem getInt_eq_ok_iff : f.getInt r = .ok n ↔ (f.get r).count? = some n := by
  unfold getInt
  cases f.get r with
  | char c =>
    by_cases hc : c.toNat ≤ 0xFFFF
    · simp [Value.count?, hc, Nat.not_lt.mpr hc]
    · simp [Value.count?, hc, Nat.not_le.mp hc]
  | _ => simp [Value.count?]

theorem exists_char_of_spans (h : FieldKind.Spans n .char) :
    ∃ c : Char, c.toNat ≤ 0xFFFF ∧ Int64.ofNat c.toNat = n := by
  obtain ⟨hmin, hmax, hplain⟩ := h
  have hvalid : n.toInt.toNat.isValidChar := by
    unfold Nat.isValidChar
    omega
  have htoNat : (Char.ofNat n.toInt.toNat).toNat = n.toInt.toNat := by
    rw [Char.ofNat, dif_pos hvalid]
    rfl
  refine ⟨Char.ofNat n.toInt.toNat, ?_, ?_⟩
  · rw [htoNat]
    omega
  · rw [htoNat]
    exact ofNat_toNat_toInt hmin

/-- A number that the kind spans is stored as it is. -/
theorem exists_intValue_of_spans (hf : f.kind.isIntegral = true) (h : f.kind.Spans n) :
    ∃ v : Value, v.count? = some n ∧ ∀ r, f.intValue r n = .ok v := by
  cases hkind : f.kind with
  | bool | float | double | object =>
    rw [hkind] at hf
    cases hf
  | byte =>
    rw [hkind] at h
    exact ⟨.byte n.toInt8, congrArg some (toInt64_toInt8 h), fun r => by simp only [intValue, hkind]⟩
  | short =>
    rw [hkind] at h
    exact ⟨.short n.toInt16, congrArg some (toInt64_toInt16 h), fun r => by simp only [intValue, hkind]⟩
  | int =>
    rw [hkind] at h
    exact ⟨.int n.toInt32, congrArg some (toInt64_toInt32 h), fun r => by simp only [intValue, hkind]⟩
  | long => exact ⟨.long n, rfl, fun r => by simp only [intValue, hkind]⟩
  | char =>
    rw [hkind] at h
    obtain ⟨c, hc, rfl⟩ := exists_char_of_spans h
    refine ⟨.char c, if_pos hc, fun r => ?_⟩
    simp only [intValue, hkind, unitChar_ofNat hc, Except.map]

end Field

theorem fitsWidth_of_toInt {bits : Nat} {n : Int} (hmin : -(2 ^ (bits - 1) : Nat) ≤ n)
    (hmax : n < (2 ^ (bits - 1) : Nat)) : fitsWidth bits n = true := by
  rw [fitsWidth_iff]
  simp only [minSigned, maxSigned, Nat.pow_eq]
  omega

/-- The kind of a value spans its number. -/
theorem FieldKind.Types.spans {kind : FieldKind} {v : Value} {n : Int64} (h : kind.Types v)
    (hn : v.count? = some n) : kind.Spans n := by
  cases h with
  | float | double => trivial
  | exact hv =>
    cases hv with
    | bool | object | long => trivial
    | byte m =>
      cases hn
      apply fitsWidth_of_toInt
      · exact Int8.toInt_toInt64 m ▸ m.le_toInt
      · exact Int8.toInt_toInt64 m ▸ m.toInt_lt
    | short m =>
      cases hn
      apply fitsWidth_of_toInt
      · exact Int16.toInt_toInt64 m ▸ m.le_toInt
      · exact Int16.toInt_toInt64 m ▸ m.toInt_lt
    | int m =>
      cases hn
      apply fitsWidth_of_toInt
      · exact Int32.toInt_toInt64 m ▸ m.le_toInt
      · exact Int32.toInt_toInt64 m ▸ m.toInt_lt
    | char c =>
      rw [Value.count?] at hn
      split_ifs at hn with hc
      cases hn
      have hvalid : c.toNat.isValidChar := c.valid
      unfold Nat.isValidChar at hvalid
      rw [Spans, Field.toInt_ofNat_char]
      omega

namespace Wire

variable {g : Registry} {t u : RecordType} {r : Record} {reads : Registry → Prop} {budget : Nat}

/-! ## Fields that are received -/

theorem exists_of_ofExcept {α : Type} {bytes : α → List UInt8} {result : Except Failure α}
    {e : NameIndex} (h : (Writer.ofExcept bytes result e).failure? = none) :
    ∃ a, result = .ok a := by
  cases result with
  | ok a => exact ⟨a, rfl⟩
  | error f => cases h

theorem fieldWriter_of_isIntegral {f : Field} (hf : f.kind.isIntegral = true)
    (written : RecordOf Writer) :
    fieldWriter r written f = .ofExcept numberBytes (f.getInt r) := by
  unfold fieldWriter
  cases hkind : f.kind with
  | bool | float | double | object =>
    rw [hkind] at hf
    cases hf
  | _ => rfl

theorem intoField_of_isIntegral {f : Field} (hf : f.kind.isIntegral = true) (value : Reader Value)
    (r : Record) :
    Reader.intoField value f r =
      (Reader.number >>= fun n => Reader.ofExcept (f.setInt r n)) := by
  unfold Reader.intoField
  cases hkind : f.kind with
  | bool | float | double | object =>
    rw [hkind] at hf
    cases hf
  | _ => rfl

section Fields

variable {f f' : Field} {value : Reader Value}

/-- An integer is stored as it is if the kind of its field spans it. -/
theorem Carries.exists_integer (hf : f.kind.isIntegral = true) (hkind : f'.kind = f.kind)
    {n : Int64} (hn : f.getInt r = .ok n) (hspans : f.kind.Spans n) (written : RecordOf Writer) :
    ∃ v : Value, v.count? = some n ∧
      ∀ r', Carries reads (fieldWriter r written f) (Reader.intoField value f' r') (f'.set r' v) := by
  have hf' : f'.kind.isIntegral = true := by rw [hkind, hf]
  obtain ⟨v, hv, hstored⟩ := Field.exists_intValue_of_spans hf' (by rwa [hkind])
  refine ⟨v, hv, fun r' => ?_⟩
  have hset : f'.setInt r' n = .ok (f'.set r' v) := by
    rw [Field.setInt, hstored r']
    rfl
  rw [fieldWriter_of_isIntegral hf, intoField_of_isIntegral hf', hn]
  apply (emit (Reader.number_append n)).thenQuiet
  rw [hset]
  exact pure _

/-- A number is stored, perhaps as another one. -/
theorem Carries.exists_float (hf : f.kind = .float ∨ f.kind = .double) (hkind : f'.kind = f.kind)
    {x : Binary64} (hx : f.getFloat r = .ok x) (written : RecordOf Writer) :
    ∃ v : Value,
      ∀ r', Carries reads (fieldWriter r written f) (Reader.intoField value f' r') (f'.set r' v) := by
  obtain ⟨v, hset⟩ : ∃ v, ∀ r', f'.setFloat r' x.unsignedZero = .ok (f'.set r' v) := by
    rcases hf with h | h
    · exact ⟨.float x.unsignedZero.toBinary32,
        fun r' => by simp [Field.setFloat, hkind, h, FieldKind.isIntegral]⟩
    · exact ⟨.double x.unsignedZero,
        fun r' => by simp [Field.setFloat, hkind, h, FieldKind.isIntegral]⟩
  refine ⟨v, fun r' => ?_⟩
  have hwriter : fieldWriter r written f = .emit (floatBytes x) := by
    rcases hf with h | h
    all_goals
      simp only [fieldWriter, h, hx]
      rfl
  have hreader : Reader.intoField value f' r' =
      (Reader.float >>= fun y => Reader.ofExcept (f'.setFloat r' y)) := by
    rcases hf with h | h
    all_goals simp only [Reader.intoField, hkind, h]
  rw [hwriter, hreader]
  apply (emit (Reader.float_append x)).thenQuiet
  rw [hset]
  exact pure _

/-- A boolean is read by its own kind or as any value. -/
theorem Carries.flag (hf : f.kind = .bool) (hkind : f'.kind = .bool ∨ f'.kind = .object) {b : Bool}
    (hb : f.getBool r = .ok b) (written : RecordOf Writer) (r' : Record) :
    Carries reads (fieldWriter r written f) (Reader.intoField (Reader.value (budget + 1)) f' r')
      (f'.set r' (.bool b)) := by
  have hwriter : fieldWriter r written f = .emit (boolBytes b) := by
    simp only [fieldWriter, hf, hb]
    rfl
  rw [hwriter]
  rcases hkind with h | h
  · simp only [Reader.intoField, h]
    exact (emit (Reader.bool_append b)).map _
  · simp only [Reader.intoField, h]
    exact (emit (Reader.value_fixedBytes? rfl budget)).map _

/-- A field that was written is read into a field that gives it back, and stored with its number if
its kind spans that. -/
theorem Carries.exists_received (hback : f'.kind.GivesBack f.kind)
    (hwritten : ∃ e, (fieldWriter r ⟨r.typeName, namedWriters g r.fields⟩ f e).failure? = none)
    (hobject : f.kind = .object →
      Carries reads (valueWriter g (f.get r)) (Reader.value (budget + 1)) (f.get r))
    (hspans : f.kind.isIntegral = true → ∀ n, f.getInt r = .ok n → f.kind.Spans n) :
    ∃ v : Value,
      (f.kind.isIntegral = true → ∀ n, f.getInt r = .ok n → v.count? = some n) ∧
      ∀ r', Carries reads (fieldWriter r ⟨r.typeName, namedWriters g r.fields⟩ f)
        (Reader.intoField (Reader.value (budget + 1)) f' r') (f'.set r' v) := by
  obtain ⟨e, hwritten⟩ := hwritten
  by_cases hf : f.kind.isIntegral = true
  · have hkind := hback.eq (FieldKind.ne_bool_of_isIntegral hf)
    rw [fieldWriter_of_isIntegral hf] at hwritten
    obtain ⟨n, hn⟩ := exists_of_ofExcept hwritten
    obtain ⟨v, hv, hcarries⟩ := exists_integer hf hkind hn (hspans hf n hn) _
    refine ⟨v, fun _ n' hn' => ?_, hcarries⟩
    rw [hn] at hn'
    cases hn'
    exact hv
  · suffices hcarries : ∃ v : Value,
        ∀ r', Carries reads (fieldWriter r ⟨r.typeName, namedWriters g r.fields⟩ f)
          (Reader.intoField (Reader.value (budget + 1)) f' r') (f'.set r' v) by
      obtain ⟨v, hv⟩ := hcarries
      exact ⟨v, fun hintegral => absurd hintegral hf, hv⟩
    cases hkind : f.kind with
    | byte | short | char | int | long =>
      rw [hkind] at hf
      exact absurd rfl hf
    | bool =>
      simp only [fieldWriter, hkind] at hwritten
      obtain ⟨b, hb⟩ := exists_of_ofExcept hwritten
      refine ⟨.bool b, flag hkind ?_ hb _⟩
      rw [hkind] at hback
      exact hback.imp_right And.left
    | float | double =>
      simp only [fieldWriter, hkind] at hwritten
      obtain ⟨x, hx⟩ := exists_of_ofExcept hwritten
      have hkind' : f'.kind = f.kind := hback.eq (by simp [hkind])
      exact exists_float (by simp [hkind]) hkind' hx _
    | object =>
      have hkind' : f'.kind = .object := (hback.eq (by simp [hkind])).trans hkind
      refine ⟨f.get r, fun r' => ?_⟩
      simp only [fieldWriter, Reader.intoField, hkind, hkind', getD_slot?_namedWriters]
      exact (hobject hkind).map (f'.set r')

end Fields

/-! ## Records that are received -/

theorem exists_written_field (ht : g.lookup? r.typeName = some t)
    (hwritten : ∃ e, (recordBodyWriter g r e).failure? = none) {f : Field} (hf : f ∈ t.fields) :
    ∃ e, (fieldWriter r ⟨r.typeName, namedWriters g r.fields⟩ f e).failure? = none := by
  obtain ⟨e, hwritten⟩ := hwritten
  simp only [recordBodyWriter, recordWriter, ht, fieldWriters_eq] at hwritten
  obtain ⟨-, hfields⟩ := Writer.failure?_of_append hwritten
  exact Writer.failure?_of_concat hfields _ (List.mem_map_of_mem hf)

/-- A record that was written is received, with its numbers if the kinds of its fields span them. -/
theorem Carries.exists_record {isShadow : Bool} (hu : u.GivesBack t)
    (ht : g.lookup? r.typeName = some t) (hplain : t.IsPlain) (hshort : IsShort t.signature)
    (hresolve : (g.resolve t.signature).1 = .ok ⟨t.name, some u,
      (t.layout.map Prod.fst).map fun name => (name, u.field? name), isShadow⟩)
    (hwritten : ∃ e, (recordBodyWriter g r e).failure? = none)
    (hobjects : ∀ f ∈ t.fields, f.kind = .object →
      Carries g.Resolves (valueWriter g (f.get r)) (Reader.value (budget + 1)) (f.get r))
    (hspans : ∀ f ∈ t.fields, f.kind.isIntegral = true →
      ∀ n, f.getInt r = .ok n → f.kind.Spans n) :
    ∃ r', Carries g.Resolves (recordBodyWriter g r) (Reader.record (budget + 1)) r' ∧
      ∀ f ∈ t.fields, f.kind.isIntegral = true →
        ∀ n, f.getInt r = .ok n → f.getInt r' = .ok n := by
  have hnodup : (u.layout.map Prod.fst).Nodup := by
    rw [hu.names_eq]
    exact hplain.nodup
  have hfields : ∀ f ∈ t.fields, ∃ v : Value,
      (f.kind.isIntegral = true → ∀ n, f.getInt r = .ok n → v.count? = some n) ∧
      ∀ value?, Carries g.Resolves
        (fieldWriter r ⟨r.typeName, namedWriters g r.fields⟩ f)
        (Reader.intoSlot (Reader.value (budget + 1)) false (u.filled value?)
          (f.name, u.field? f.name))
        (u.filled (Function.update value? f.name (some v))) := by
    intro f hf
    obtain ⟨kind, -, hfield, hkind⟩ := RecordType.exists_field?_of_slots hu.slots hnodup hf
    have hback : (Field.kind ⟨f.name, kind, f.index⟩).GivesBack f.kind := hkind
    obtain ⟨v, hv, hcarries⟩ := exists_received hback (exists_written_field ht hwritten hf)
      (hobjects f hf) (hspans f hf)
    refine ⟨v, hv, fun value? => ?_⟩
    have hmem := List.mem_of_find?_eq_some hfield
    have hset := RecordType.set_filled value? hnodup hmem v
    rw [← (RecordType.isAt_filled value? hmem).set_eq] at hset
    rw [hfield, ← hset]
    exact hcarries _
  choose! image himage using hfields
  refine ⟨u.filled fun name => (t.field? name).map image, ?_, ?_⟩
  · exact throughFields ht hplain.nodup hshort (resolveAs hresolve) fun f hf => (himage f hf).2
  · intro f hf hintegral n hn
    have hmem := hu.mem_fields hplain.nodup hf (FieldKind.ne_bool_of_isIntegral hintegral)
    have hat := RecordType.isAt_filled (fun name => (t.field? name).map image) hmem
    rw [RecordType.field?_name hplain.nodup hf] at hat
    rw [Field.getInt_eq_ok_iff, hat.get_eq]
    exact (himage f hf).1 hintegral n hn

/-- A record that was received with the numbers it was sent with has numbers that its type spans. -/
theorem spans_of_received {isShadow : Bool} (hu : u.GivesBack t)
    (ht : g.lookup? r.typeName = some t) (hplain : t.IsPlain) (hshort : IsShort t.signature)
    (hresolve : (g.resolve t.signature).1 = .ok ⟨t.name, some u,
      (t.layout.map Prod.fst).map fun name => (name, u.field? name), isShadow⟩)
    {e : NameIndex} {d : NameTable} (hagrees : e.Agrees d)
    (hwritten : (recordBodyWriter g r e).failure? = none)
    (hsize : (recordBodyWriter g r e).names.size ≤ maxNames) {rest : List UInt8} {r' : Record}
    {s : ReadState} (hread : Reader.record (budget + 1)
      ⟨d, g, (recordBodyWriter g r e).bytes ++ rest⟩ = .ok r' s) {f : Field} (hf : f ∈ t.fields)
    (hintegral : f.kind.isIntegral = true) {n : Int64} (hn : f.getInt r' = .ok n) :
    f.kind.Spans n := by
  have hitems : ∀ w ∈ t.fields.map (fieldWriter r ⟨r.typeName, namedWriters g r.fields⟩),
      IsItem w := by
    refine List.forall_mem_map.mpr fun f _ => fieldWriter_isItem ?_ f
    rw [namedWriters_eq]
    exact List.forall_mem_map.mpr fun p _ => valueWriter_isItem p.2
  simp only [recordBodyWriter, recordWriter, ht, fieldWriters_eq] at hwritten hsize hread
  obtain ⟨hfirst, -⟩ := Writer.failure?_of_append hwritten
  rw [Writer.append_of_none hfirst] at hsize hread
  have hle := (Writer.Grows.concat fun w hw => (hitems w hw).grows).size_le
    (Writer.name t.signature e).names
  rw [List.append_assoc] at hread
  obtain ⟨s', hfields⟩ := foldlM_of_record hshort hresolve hagrees (hle.trans hsize) hread
  have htypes := (Reader.Makes.fields_types _ u _).of_ok hfields
  have hmem := hu.mem_fields hplain.nodup hf (FieldKind.ne_bool_of_isIntegral hintegral)
  obtain ⟨v, hat, hv⟩ := htypes.exists_isAt hmem
  rw [Field.getInt_eq_ok_iff, hat.get_eq] at hn
  exact hv.spans hn

/-- What is not written is refused. What is written is read with the same numbers exactly if the kind
of each integral field spans the number in it. -/
theorem received_numbers_iff_spanned {g : Registry} (hg : g.Reachable) {t : RecordType}
    (ht : g.lookup? t.name = some t) (hplain : t.IsPlain) (hshort : IsShort t.signature)
    (hback : t.IsReadBack g) {r : Record} (hname : r.typeName = t.name)
    (hobjects : ∀ f ∈ t.fields, f.kind = .object →
      (f.get r).AllFit g ∧ (f.get r).wireDepth < maxNesting ∧
        (f.get r).EveryRecord (RecordOf.IsReadBack g))
    {e : Encoder} {d : Decoder} (hagrees : e.names.Agrees d.names) (hdepth : d.depth ≤ 1)
    (hsize : (e.write (recordBodyWriter g r)).encoder.interned ≤ maxNames) (rest : List UInt8) :
    let sent := e.write (recordBodyWriter g r)
    let received := d.read g Reader.record (sent.bytes ++ rest)
    (∀ failure, sent.failure? = some failure → failure.IsRefusal) ∧
      (sent.failure? = none →
        ((∃ r', received.result = .ok (r', rest) ∧
            ∀ f ∈ t.fields, f.kind.isIntegral = true →
              ∃ n, f.getInt r = .ok n ∧ f.getInt r' = .ok n) ↔
          ∀ f ∈ t.fields, f.kind.isIntegral = true →
            ∀ n, f.getInt r = .ok n → f.kind.Spans n)) := by
  intro sent received
  have ht' : g.lookup? r.typeName = some t := by rw [hname, ht]
  obtain ⟨u, isShadow, hu, hresolve⟩ := hback.exists_layout hg.keepsLearned ht hplain
  obtain ⟨budget, hbudget, hlevels⟩ :
      ∃ budget, d.budget = budget + 1 ∧ maxNesting ≤ budget + 2 := by
    refine ⟨d.budget - 1, ?_, ?_⟩
    all_goals
      simp only [Decoder.budget, maxNesting]
      omega
  refine ⟨fun failure h => ?_, fun hsent => ⟨?_, fun hspans => ?_⟩⟩
  · apply recordWriter_onlyRefuses r _ e.names failure h
    rw [namedWriters_eq]
    exact List.forall_mem_map.mpr fun p _ => valueWriter_onlyRefuses p.2
  · rintro ⟨r', hresult, hnumbers⟩ f hf hintegral n hn
    obtain ⟨n', hsentNumber, hreceivedNumber⟩ := hnumbers f hf hintegral
    rw [hn] at hsentNumber
    cases hsentNumber
    obtain ⟨s, hread⟩ := Decoder.exists_of_read hresult
    rw [hbudget] at hread
    exact spans_of_received hu ht' hplain hshort hresolve hagrees hsent hsize hread hf hintegral
      hreceivedNumber
  · have hcarried : ∀ f ∈ t.fields, f.kind = .object →
        Carries g.Resolves (valueWriter g (f.get r)) (Reader.value (budget + 1)) (f.get r) := by
      intro f hf hkind
      obtain ⟨hfit, hdepth, hrecords⟩ := hobjects f hf hkind
      have hfits := hfit.everyRecord (p := RecordOf.Fits g) fun r' hr' => hr'
      apply Carries.valueOf hfit _ (by omega)
      exact (hrecords.and hfits).mono fun r' hr' => readsBack hg.keepsLearned hr'.2 hr'.1
    obtain ⟨r', hcarries, hnumbers⟩ := Carries.exists_record hu ht' hplain hshort hresolve
      ⟨e.names, hsent⟩ hcarried hspans
    rw [← hbudget] at hcarries
    obtain ⟨hresult, -⟩ := hcarries.decode hagrees .refl hsize rest
    refine ⟨r', hresult, fun f hf hintegral => ?_⟩
    obtain ⟨e', hwritten⟩ := exists_written_field ht' ⟨e.names, hsent⟩ hf
    rw [fieldWriter_of_isIntegral hintegral] at hwritten
    obtain ⟨n, hn⟩ := exists_of_ofExcept hwritten
    exact ⟨n, hn, hnumbers f hf hintegral n hn⟩

/-- Numbers that fit, held by values of other widths. -/
theorem received_numbers_small :
    let t : RecordType := ⟨"Cell", [("n", .byte), ("label", .object), ("unit", .char)]⟩
    let g := Registry.initial.register t
    let r : Record := ⟨"Cell", [("n", .long (-100)), ("label", .string "a"), ("unit", .int 65)]⟩
    let sent := Encoder.new.write (recordBodyWriter g r)
    ∃ r', (Decoder.new.read g Reader.record (sent.bytes ++ [7])).result = .ok (r', [7]) ∧
      ∀ f ∈ t.fields, f.kind.isIntegral = true → ∃ n, f.getInt r = .ok n ∧ f.getInt r' = .ok n := by
  intro t g r sent
  have hobjects : ∀ f ∈ t.fields, f.kind = .object →
      (f.get r).AllFit g ∧ (f.get r).wireDepth < maxNesting ∧
        (f.get r).EveryRecord (RecordOf.IsReadBack g) := by
    refine List.forall_mem_cons.mpr ⟨nofun, List.forall_mem_cons.mpr
      ⟨fun _ => ⟨?_, by decide, ?_⟩, List.forall_mem_singleton.mpr nofun⟩⟩
    · exact .leaf rfl (show IsShort "a" by decide)
    · exact .intro nofun nofun
  have hreceived := received_numbers_iff_spanned (Registry.Reachable.register t .initial) (t := t) rfl
    ⟨⟨by decide, by decide⟩, by decide⟩ (by decide +kernel) nofun (r := r) rfl hobjects
    (e := .new) (d := .new) NameIndex.empty_agrees (by decide) (by decide +kernel) [7]
  apply (hreceived.2 (by decide +kernel)).mpr
  refine List.forall_mem_cons.mpr ⟨?_, List.forall_mem_cons.mpr
    ⟨nofun, List.forall_mem_singleton.mpr ?_⟩⟩
  · intro _ n hn
    cases hn
    exact (by decide : fitsWidth 8 (-100) = true)
  · intro _ n hn
    cases hn
    exact ⟨by decide, by decide, by decide⟩

/-- A number of two bytes in a field of one byte is written without a failure and received as another
number. -/
theorem received_number_cut :
    let t : RecordType := ⟨"Cell", [("n", .byte)]⟩
    let f : Field := ⟨"n", .byte, 0⟩
    let g := Registry.initial.register t
    let r : Record := ⟨"Cell", [("n", .int 300)]⟩
    let r' : Record := ⟨"Cell", [("n", .byte 44)]⟩
    let sent := Encoder.new.write (recordBodyWriter g r)
    g.Grown ∧ t.IsPlain ∧ f ∈ t.fields ∧ sent.failure? = none ∧
      (Decoder.new.read g Reader.record sent.bytes).result = .ok (r', []) ∧
      f.getInt r = .ok 300 ∧ f.getInt r' = .ok 44 := by
  intro t f g r r' sent
  exact ⟨.register .initial (by decide), ⟨⟨by decide, by decide⟩, by decide⟩, by decide,
    by decide +kernel, by decide +kernel, rfl, rfl⟩

end Wire

end RemoteCall
