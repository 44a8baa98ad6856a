import RemoteCall.Proofs.Schema.Registry
import RemoteCall.Proofs.Text.Utf16
import RemoteCall.Proofs.Value.Portable
import RemoteCall.Proofs.Wire.Number

/-!
# Fields of records laid out by their type

In a record that holds the fields of its type in order every field stands at its position, so that
its accessors find it there. A value of an integral kind is given back by its integer.
-/

namespace RemoteCall

def Field.IsAt (f : Field) (r : Record) (v : Value) : Prop := r.fields[f.index]? = some (f.name, v)

namespace RecordOf

variable {α : Type}

theorem slot?_of_getElem? {r : RecordOf α} {i : Nat} {name : String} {a : α}
    (h : r.fields[i]? = some (name, a)) : r.slot? i name = some a := by
  simp only [slot?, h, if_true]

theorem setSlot_of_getElem? {r : RecordOf α} {i : Nat} {name : String} {a : α}
    (h : r.fields[i]? = some (name, a)) (b : α) :
    r.setSlot i name b = { r with fields := r.fields.set i (name, b) } := by
  simp only [setSlot, h, if_true]

theorem mem_of_fieldValue? {name : String} {fields : List (String × α)} {a : α}
    (h : fieldValue? name fields = some a) : ∃ n, (n, a) ∈ fields := by
  induction fields with
  | nil => cases h
  | cons field fields ih =>
    rw [fieldValue?] at h
    split_ifs at h with hn
    · cases h
      exact ⟨_, List.mem_cons_self ..⟩
    · obtain ⟨n, hmem⟩ := ih h
      exact ⟨n, List.mem_cons_of_mem _ hmem⟩

theorem mem_of_slot? {r : RecordOf α} {i : Nat} {name : String} {a : α}
    (h : r.slot? i name = some a) : ∃ n, (n, a) ∈ r.fields := by
  unfold slot? at h
  split at h
  · rename_i n v hi
    split_ifs at h
    · cases h
      exact ⟨n, List.mem_of_getElem? hi⟩
    · exact mem_of_fieldValue? h
  · exact mem_of_fieldValue? h

theorem fieldValue?_map {β : Type} (f : α → β) (name : String) (fields : List (String × α)) :
    fieldValue? name (fields.map fun field => (field.1, f field.2)) =
      (fieldValue? name fields).map f := by
  induction fields with
  | nil => rfl
  | cons field fields ih =>
    rw [List.map_cons, fieldValue?, fieldValue?, ih]
    split_ifs <;> rfl

theorem slot?_map {β : Type} (f : α → β) (r : RecordOf α) (i : Nat) (name : String) :
    (⟨r.typeName, r.fields.map fun field => (field.1, f field.2)⟩ : RecordOf β).slot? i name =
      (r.slot? i name).map f := by
  simp only [slot?, get?, List.getElem?_map, fieldValue?_map]
  cases r.fields[i]? with
  | none => rfl
  | some field =>
    simp only [Option.map_some]
    split_ifs <;> rfl

end RecordOf

namespace Field

variable {f : Field} {r : Record} {v w : Value}

theorem IsAt.get_eq (h : f.IsAt r v) : f.get r = v := by
  rw [get, RecordOf.slot?_of_getElem? h]
  rfl

theorem IsAt.set_eq (h : f.IsAt r w) (v : Value) :
    f.set r v = { r with fields := r.fields.set f.index (f.name, v) } :=
  RecordOf.setSlot_of_getElem? h v

theorem toInt_ofNat_char {c : Char} : (Int64.ofNat c.toNat).toInt = c.toNat := by
  have := Text.Utf16.toNat_char_lt c
  exact Wire.toInt_ofNat_of_lt (by omega)

theorem charOfInt64?_ofNat (c : Char) : Value.charOfInt64? (Int64.ofNat c.toNat) = some c := by
  have hvalid : 0 ≤ (Int64.ofNat c.toNat).toInt ∧
      (Int64.ofNat c.toNat).toInt.toNat.isValidChar := by
    rw [toInt_ofNat_char, Int.toNat_natCast]
    exact ⟨Int.natCast_nonneg _, c.valid⟩
  have hnat : (Char.ofNatAux _ hvalid.2).toNat = c.toNat := by
    change (Int64.ofNat c.toNat).toInt.toNat = c.toNat
    rw [toInt_ofNat_char, Int.toNat_natCast]
  rw [Value.charOfInt64?, dif_pos hvalid, Char.toNat_inj.mp hnat]

theorem unitChar_ofNat {c : Char} (hc : c.toNat ≤ 0xFFFF) (f : Field) (r : Record) :
    f.unitChar r (Int64.ofNat c.toNat) = .ok c := by
  have hunit : ¬ (Int64.ofNat c.toNat < 0 ∨ 0xFFFF < Int64.ofNat c.toNat) := by
    rw [Int64.lt_iff_toInt_lt, Int64.lt_iff_toInt_lt, toInt_ofNat_char]
    have hmax : (0xFFFF : Int64).toInt = 0xFFFF := rfl
    rw [hmax]
    simp
    omega
  rw [unitChar, if_neg hunit, charOfInt64?_ofNat]
  rfl

/-- The integer of an integral field, stored in any field of that kind, is its value. -/
theorem exists_integer (hf : f.kind.isIntegral = true) (hv : f.kind.Holds v)
    (hunit : ∀ c, v = .char c → c.toNat ≤ 0xFFFF) (h : f.get r = v) :
    ∃ n, f.getInt r = .ok n ∧ ∀ (f' : Field) r', f'.kind = f.kind → f'.intValue r' n = .ok v := by
  generalize hkind : f.kind = kind at hf hv
  cases hv with
  | bool | object => cases hf
  | byte n => exact ⟨n.toInt64, by rw [getInt, h], fun f' r' hf' => by simp [intValue, hf']⟩
  | short n => exact ⟨n.toInt64, by rw [getInt, h], fun f' r' hf' => by simp [intValue, hf']⟩
  | int n => exact ⟨n.toInt64, by rw [getInt, h], fun f' r' hf' => by simp [intValue, hf']⟩
  | long n => exact ⟨n, by rw [getInt, h], fun f' r' hf' => by simp [intValue, hf']⟩
  | char c =>
    have hc := hunit c rfl
    refine ⟨Int64.ofNat c.toNat, ?_, fun f' r' hf' => ?_⟩
    · rw [getInt, h]
      exact if_neg (by omega)
    · simp only [intValue, hf', unitChar_ofNat hc, Except.map]

theorem unitChar_eq_ok_iff {n : Int64} :
    (∃ c, f.unitChar r n = .ok c) ↔ 0 ≤ n ∧ n ≤ 0xFFFF := by
  have hunit : ¬ (n < 0 ∨ 0xFFFF < n) ↔ 0 ≤ n ∧ n ≤ 0xFFFF := by
    rw [not_or, Int64.not_lt, Int64.not_lt]
  rw [unitChar, ← hunit]
  by_cases h : n < 0 ∨ 0xFFFF < n
  · simp [h]
  · simp [h]

theorem toNat_le_of_unitChar {n : Int64} {c : Char} (h : f.unitChar r n = .ok c) :
    c.toNat ≤ 0xFFFF := by
  obtain ⟨hmin, hmax⟩ := unitChar_eq_ok_iff.mp ⟨c, h⟩
  have hmax : n.toInt ≤ 0xFFFF := Int64.le_iff_toInt_le.mp hmax
  unfold unitChar at h
  split_ifs at h
  cases h
  cases hc : Value.charOfInt64? n with
  | none => decide
  | some c =>
    rw [Value.charOfInt64?] at hc
    by_cases hvalid : 0 ≤ n.toInt ∧ n.toInt.toNat.isValidChar
    · rw [dif_pos hvalid] at hc
      cases hc
      exact Int.toNat_le.mpr hmax
    · rw [dif_neg hvalid] at hc
      cases hc

/-- Any integer stored in an integral field becomes a value of its kind. -/
theorem holds_of_intValue {n : Int64} (hf : f.kind.isIntegral = true)
    (h : f.intValue r n = .ok v) :
    f.kind.Holds v ∧ ∀ c, v = .char c → c.toNat ≤ 0xFFFF := by
  unfold intValue at h
  cases hkind : f.kind with
  | bool | float | double | object =>
    rw [hkind] at hf
    cases hf
  | byte | short | int | long =>
    rw [hkind] at h
    cases h
    exact ⟨by constructor, fun c hc => by cases hc⟩
  | char =>
    rw [hkind] at h
    cases hunit : f.unitChar r n with
    | error e =>
      rw [hunit] at h
      cases h
    | ok c =>
      rw [hunit] at h
      cases h
      refine ⟨.char c, fun c' hc => ?_⟩
      cases hc
      exact toNat_le_of_unitChar hunit

/-- A field for characters takes an integer of 16 bits, one of another kind any integer. -/
theorem setInt_eq_ok_iff {n : Int64} :
    (∃ r', f.setInt r n = .ok r') ↔ (f.kind = .char → 0 ≤ n ∧ n ≤ 0xFFFF) := by
  rw [← unitChar_eq_ok_iff (f := f) (r := r)]
  cases hkind : f.kind with
  | char =>
    simp only [setInt, intValue, hkind]
    cases f.unitChar r n <;> simp [Except.map]
  | _ => simp [setInt, intValue, hkind, Except.map]

theorem exists_setFloat (hf : f.kind = .float ∨ f.kind = .double) (r : Record) (x : Binary64) :
    ∃ r', f.setFloat r x = .ok r' := by
  rcases hf with hf | hf <;> exact ⟨_, by simp only [setFloat, hf]; rfl⟩

end Field

namespace RecordType

variable {t : RecordType} {r : Record}

theorem getElem?_layout {f : Field} (hf : f ∈ t.fields) :
    t.layout[f.index]? = some (f.name, f.kind) := by
  obtain ⟨⟨slot, index⟩, hslot, rfl⟩ := List.mem_map.mp hf
  exact List.mem_zipIdx_iff_getElem?.mp hslot

theorem mem_layout {f : Field} (hf : f ∈ t.fields) : (f.name, f.kind) ∈ t.layout :=
  List.mem_of_getElem? (getElem?_layout hf)

theorem mem_fields {slot : String × FieldKind} {i : Nat} (h : t.layout[i]? = some slot) :
    ⟨slot.1, slot.2, i⟩ ∈ t.fields :=
  List.mem_map.mpr ⟨(slot, i), List.mem_zipIdx_iff_getElem?.mpr h, rfl⟩

def fieldsFrom (layout : List (String × FieldKind)) (index : Nat) : List Field :=
  (layout.zipIdx index).map fun ((name, kind), index) => ⟨name, kind, index⟩

theorem fields_eq (t : RecordType) : t.fields = fieldsFrom t.layout 0 := rfl

theorem fieldsFrom_cons (slot : String × FieldKind) (layout : List (String × FieldKind))
    (index : Nat) :
    fieldsFrom (slot :: layout) index =
      ⟨slot.1, slot.2, index⟩ :: fieldsFrom layout (index + 1) := rfl

theorem map_name_fieldsFrom (layout : List (String × FieldKind)) (index : Nat) :
    (fieldsFrom layout index).map Field.name = layout.map Prod.fst := by
  induction layout generalizing index with
  | nil => rfl
  | cons slot layout ih => rw [fieldsFrom_cons, List.map_cons, List.map_cons, ih]

theorem find?_name {fs : List Field} (h : (fs.map Field.name).Nodup) {f : Field} (hf : f ∈ fs) :
    fs.find? (·.name == f.name) = some f := by
  induction fs with
  | nil => cases hf
  | cons f' fs ih =>
    rw [List.map_cons, List.nodup_cons] at h
    cases hf with
    | head => simp
    | tail _ hf =>
      have hne : (f'.name == f.name) = false :=
        beq_eq_false_iff_ne.mpr fun he => h.1 (he ▸ List.mem_map_of_mem hf)
      rw [List.find?_cons, hne]
      exact ih h.2 hf

theorem field?_name (h : (t.layout.map Prod.fst).Nodup) {f : Field} (hf : f ∈ t.fields) :
    t.field? f.name = some f := by
  rw [← map_name_fieldsFrom t.layout 0, ← fields_eq] at h
  exact find?_name h hf

/-- In the signature of the type itself each name fills the field of that position. -/
theorem slots_eq (h : (t.layout.map Prod.fst).Nodup) :
    (t.layout.map Prod.fst).map (fun name => (name, t.field? name)) =
      t.fields.map fun f => (f.name, some f) := by
  rw [← map_name_fieldsFrom t.layout 0, ← fields_eq, List.map_map]
  refine List.map_congr_left fun f hf => ?_
  simp only [Function.comp, field?_name h hf]

theorem names_eq_of_holds {layout : List (String × FieldKind)} {fields : List (String × Value)}
    (h : List.Forall₂ FieldKind.HoldsAs layout fields) :
    layout.map Prod.fst = fields.map Prod.fst := by
  induction h with
  | nil => rfl
  | cons hslot _ ih => rw [List.map_cons, List.map_cons, ih, hslot.1]

theorem Describes.names_eq (h : t.Describes r) : t.layout.map Prod.fst = r.names :=
  names_eq_of_holds h.holds

end RecordType

namespace Registry

theorem name_of_lookup? {g : Registry} {name : String} {t : RecordType}
    (h : g.lookup? name = some t) : t.name = name := by
  simpa using List.find?_some h

end Registry

namespace RecordOf

variable {g : Registry} {r : Record}

/-- A record that fits is sent under the signature of its own names. -/
theorem Fits.signature_eq (h : r.Fits g) {t : RecordType} (ht : g.lookup? r.typeName = some t) :
    t.signature = signatureOf r.typeName r.names := by
  rw [RecordType.signature, Registry.name_of_lookup? ht, (h.describes t ht).names_eq]

theorem Fits.split_signature (h : r.Fits g) :
    Text.split ',' (signatureOf r.typeName r.names) = r.typeName :: r.names :=
  Text.split_join h.notMem_comma

end RecordOf

end RemoteCall
