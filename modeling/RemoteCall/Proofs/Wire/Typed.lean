import RemoteCall.Proofs.Wire.Evolution
import RemoteCall.Proofs.Wire.Soundness

/-!
# Records that are read by a known type

A record that is read by the layout of a known type has the fields of that type, in their order,
and in each of them a value of its kind, whatever was sent. So whoever sends a record and gets the
same back learns by which type it was read.
-/

namespace RemoteCall

open Wire

theorem FieldKind.types_zero (kind : FieldKind) : kind.Types kind.zero := by
  cases kind with
  | float => exact .float _
  | double => exact .double _
  | _ => exact .exact (by constructor)

namespace RecordType

variable {t u : RecordType} {r : Record} {f : Field}

def Types (t : RecordType) (r : Record) : Prop :=
  List.Forall₂ (fun slot field => slot.1 = field.1 ∧ slot.2.Types field.2) t.layout r.fields

theorem types_blank (t : RecordType) : t.Types t.blank :=
  List.forall₂_map_right_iff.mpr
    (List.forall₂_same.mpr fun slot _ => ⟨rfl, slot.2.types_zero⟩)

/-- Each field of the type stands at its position. -/
theorem Types.exists_isAt (h : t.Types r) (hf : f ∈ t.fields) :
    ∃ v, f.IsAt r v ∧ f.kind.Types v := by
  have hslot := getElem?_layout hf
  obtain ⟨hlt, hget⟩ := List.getElem?_eq_some_iff.mp hslot
  have hlt' : f.index < r.fields.length := by
    rw [← h.length_eq]
    exact hlt
  obtain ⟨hname, htypes⟩ := List.Forall₂.get h hlt hlt'
  simp only [List.get_eq_getElem, hget] at hname htypes
  refine ⟨r.fields[f.index].2, ?_, htypes⟩
  rw [Field.IsAt, List.getElem?_eq_getElem hlt', hname]

theorem forall₂_set {α β : Type} {p : α → β → Prop} {as : List α} {bs : List β}
    (h : List.Forall₂ p as bs) {i : Nat} {a : α} {b : β} (ha : as[i]? = some a) (hb : p a b) :
    List.Forall₂ p as (bs.set i b) := by
  induction h generalizing i with
  | nil => cases ha
  | @cons a' b' as bs hp hrest ih =>
    cases i with
    | zero =>
      rw [List.getElem?_cons_zero, Option.some.injEq] at ha
      rw [List.set_cons_zero]
      exact .cons (ha ▸ hb) hrest
    | succ i => exact .cons hp (ih ha)

theorem Types.set (h : t.Types r) (hf : f ∈ t.fields) {v : Value} (hv : f.kind.Types v) :
    t.Types (f.set r v) := by
  obtain ⟨w, hat, -⟩ := h.exists_isAt hf
  rw [hat.set_eq]
  exact forall₂_set h (getElem?_layout hf) ⟨rfl, hv⟩

/-- Fields at the same position have the same name. -/
theorem exists_field?_of_slots {p : FieldKind → FieldKind → Prop}
    (hslots : List.Forall₂ (fun slot slot' => slot.1 = slot'.1 ∧ p slot.2 slot'.2)
      u.layout t.layout)
    (hnodup : (u.layout.map Prod.fst).Nodup) (hf : f ∈ t.fields) :
    ∃ kind, u.layout[f.index]? = some (f.name, kind) ∧
      u.field? f.name = some ⟨f.name, kind, f.index⟩ ∧ p kind f.kind := by
  have hslot := getElem?_layout hf
  obtain ⟨hlt, hget⟩ := List.getElem?_eq_some_iff.mp hslot
  have hlt' : f.index < u.layout.length := by
    rw [hslots.length_eq]
    exact hlt
  obtain ⟨hname, hkind⟩ := List.Forall₂.get hslots hlt' hlt
  simp only [List.get_eq_getElem, hget] at hname hkind
  have hslot' : u.layout[f.index]? = some (f.name, u.layout[f.index].2) := by
    rw [List.getElem?_eq_getElem hlt', ← hname]
  exact ⟨_, hslot', field?_name hnodup (mem_fields hslot'), hkind⟩

/-- Only a boolean field may be known otherwise to a type that gives records back. -/
theorem GivesBack.mem_fields (hu : u.GivesBack t) (hnodup : (t.layout.map Prod.fst).Nodup)
    (hf : f ∈ t.fields) (hkind : f.kind ≠ .bool) : f ∈ u.fields := by
  rw [← hu.names_eq] at hnodup
  obtain ⟨kind, -, hfield, hback⟩ := exists_field?_of_slots hu.slots hnodup hf
  obtain rfl : kind = f.kind := hback.eq hkind
  exact List.mem_of_find?_eq_some hfield

end RecordType

namespace Field

variable {f : Field} {r r' : Record}

theorem types_of_setInt {n : Int64} (hf : f.kind.isIntegral = true) (h : f.setInt r n = .ok r') :
    ∃ v, r' = f.set r v ∧ f.kind.Types v := by
  unfold setInt at h
  cases hv : f.intValue r n with
  | error e =>
    rw [hv] at h
    cases h
  | ok v =>
    rw [hv] at h
    cases h
    exact ⟨v, rfl, .exact (holds_of_intValue hf hv).1⟩

theorem types_of_setFloat {x : Binary64} (hf : f.kind = .float ∨ f.kind = .double)
    (h : f.setFloat r x = .ok r') : ∃ v, r' = f.set r v ∧ f.kind.Types v := by
  unfold setFloat at h
  rcases hf with hkind | hkind
  · rw [hkind] at h ⊢
    cases h
    exact ⟨_, rfl, .float _⟩
  · rw [hkind] at h ⊢
    cases h
    exact ⟨_, rfl, .double _⟩

end Field

namespace Wire.Reader.Makes

variable {t : RecordType} {inner : Reader Value} {r : Record} {f : Field}

/-- What is read into a field of a known type is of the kind of the field. -/
theorem intoField_types (inner : Reader Value) (f : Field) (r : Record) :
    Makes (Reader.intoField inner f r) fun r' => ∃ v, r' = f.set r v ∧ f.kind.Types v := by
  have hfloat : f.kind = .float ∨ f.kind = .double →
      Makes (Reader.float >>= fun x => Reader.ofExcept (f.setFloat r x))
        fun r' => ∃ v, r' = f.set r v ∧ f.kind.Types v :=
    fun hf => andThen fun x => ofExcept fun r' h => Field.types_of_setFloat hf h
  have hinteger : f.kind.isIntegral = true →
      Makes (Reader.number >>= fun n => Reader.ofExcept (f.setInt r n))
        fun r' => ∃ v, r' = f.set r v ∧ f.kind.Types v :=
    fun hf => andThen fun n => ofExcept fun r' h => Field.types_of_setInt hf h
  cases hkind : f.kind with
  | bool =>
    simp only [Reader.intoField, hkind]
    exact (any bool).map fun b _ => ⟨.bool b, rfl, .exact (.bool b)⟩
  | object =>
    simp only [Reader.intoField, hkind]
    exact (any inner).map fun v _ => ⟨v, rfl, .exact (.object v)⟩
  | float | double =>
    simp only [Reader.intoField, hkind] at hfloat ⊢
    exact hfloat (by simp)
  | byte | short | char | int | long =>
    simp only [Reader.intoField, hkind] at hinteger ⊢
    exact hinteger rfl

theorem intoSlot_types (inner : Reader Value) (name : String) (hr : t.Types r) :
    Makes (Reader.intoSlot inner false r (name, t.field? name)) t.Types := by
  cases hfield : t.field? name with
  | none => exact (any inner).map fun _ _ => hr
  | some f =>
    have hf : f ∈ t.fields := List.mem_of_find?_eq_some hfield
    apply (intoField_types inner f r).mono
    rintro r' ⟨v, rfl, hv⟩
    exact hr.set hf hv

theorem fields_types (inner : Reader Value) (t : RecordType) (names : List String) :
    Makes ((names.map fun name => (name, t.field? name)).foldlM (Reader.intoSlot inner false)
      t.blank) t.Types := by
  have hfold : ∀ r, t.Types r → Makes ((names.map fun name => (name, t.field? name)).foldlM
      (Reader.intoSlot inner false) r) t.Types := by
    induction names with
    | nil => exact fun r hr => pure hr
    | cons name names ih =>
      intro r hr
      rw [List.map_cons, List.foldlM_cons]
      exact (intoSlot_types inner name hr).bind ih
  exact hfold t.blank t.types_blank

end Wire.Reader.Makes

end RemoteCall
