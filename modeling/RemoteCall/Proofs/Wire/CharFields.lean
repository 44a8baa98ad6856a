import RemoteCall.Proofs.Wire.Failures
import RemoteCall.Proofs.Wire.RoundTrip

/-!
# Fields that refuse a number

Of all that a reader does, only a field for characters fails for a reason of its own: it refuses a
number that is no UTF-16 unit. So every failure is a corruption exactly if no signature leads to
such a field.
-/

namespace RemoteCall

open Wire

def Failure.IsCorruption (f : Failure) : Prop := ∃ cause, f = .streamCorrupted cause

namespace Registry

variable {g : Registry}

/-- Some signature leads to a field for characters. -/
def ReadsChars (g : Registry) : Prop :=
  ∃ signature layout name f, (g.resolve signature).1 = .ok layout ∧
    (name, some f) ∈ layout.slots ∧ f.kind = .char

/-- A signature resolved for the first time gets the layout of its type. -/
theorem layout_of_resolve {signature : String} {layout : WireLayout}
    (hnone : g.resolved.lookup signature = none) (h : (g.resolve signature).1 = .ok layout) :
    ∃ typeName names, layout = g.layoutOf signature typeName names := by
  have hcases := g.resolvesTo signature
  generalize g.resolve signature = outcome at h hcases
  cases hcases with
  | kept hkept =>
    rw [hnone] at hkept
    cases hkept
  | refused => cases h
  | dynamic =>
    cases h
    exact ⟨_, _, rfl⟩
  | learned =>
    cases h
    exact ⟨_, _, rfl⟩

theorem readsChars_resolve (signature : String) :
    (g.resolve signature).2.ReadsChars ↔ g.ReadsChars := by
  simp only [ReadsChars, resolve_resolve]

/-- A registry that has resolved nothing yet reads characters only into fields of its types. -/
theorem not_readsChars_of_types (hresolved : g.resolved = [])
    (htypes : ∀ t ∈ g.types, ∀ slot ∈ t.layout, slot.2 ≠ .char) : ¬ g.ReadsChars := by
  rintro ⟨signature, layout, name, f, hlayout, hslot, hf⟩
  have hnone : g.resolved.lookup signature = none := by
    rw [hresolved]
    rfl
  obtain ⟨typeName, names, rfl⟩ := layout_of_resolve hnone hlayout
  unfold layoutOf at hslot
  cases ht : g.lookup? typeName with
  | none =>
    simp only [ht, List.mem_map, Prod.mk.injEq] at hslot
    obtain ⟨_, _, _, hfield⟩ := hslot
    cases hfield
  | some t =>
    simp only [ht, List.mem_map, Prod.mk.injEq] at hslot
    obtain ⟨_, _, _, hfield⟩ := hslot
    have hslot := RecordType.mem_layout (List.mem_of_find?_eq_some hfield)
    exact htypes t (List.mem_of_find?_eq_some ht) _ hslot hf

end Registry

/-- Fields of other kinds take every number. -/
theorem Field.kind_of_setInt_error {f : Field} {r : Record} {n : Int64} {e : Failure}
    (h : f.setInt r n = .error e) : f.kind = .char := by
  cases hkind : f.kind with
  | char => rfl
  | _ => simp [setInt, intValue, hkind, Except.map] at h

theorem charless_policy : ReadPolicy (fun g => ¬ g.ReadsChars) Failure.IsCorruption where
  corrupted cause := ⟨cause, rfl⟩
  resolve signature h := by rwa [Registry.readsChars_resolve]
  setInt h hlayout hslot herror :=
    absurd ⟨_, _, _, _, hlayout, hslot, Field.kind_of_setInt_error herror⟩ h

namespace Wire

namespace Reader

variable (names : NameTable) (g : Registry)

def filler : String × Option Field → UInt8
  | (_, none) => Tag.null.byte
  | (_, some f) =>
    match f.kind with
    | .bool => Tag.boolFalse.byte
    | .object => Tag.null.byte
    | _ => 0

theorem intoSlot_filler (budget : Nat) (isDynamic : Bool) (r : Record)
    (slot : String × Option Field) (rest : List UInt8) :
    ∃ r', intoSlot (value (budget + 1)) isDynamic r slot ⟨names, g, filler slot :: rest⟩ =
      .ok r' ⟨names, g, rest⟩ := by
  have hnull : value (budget + 1) ⟨names, g, Tag.null.byte :: rest⟩ = .ok .null ⟨names, g, rest⟩ :=
    value_tagged budget .null names g rest
  have hzero : number ⟨names, g, 0 :: rest⟩ = .ok 0 ⟨names, g, rest⟩ :=
    number_literal (by decide) names g rest
  obtain ⟨name, _ | f⟩ := slot
  · exact ⟨_, bind_of_ok hnull⟩
  · simp only [intoSlot]
    cases hkind : f.kind with
    | bool =>
      simp only [filler, intoField, hkind]
      exact ⟨_, rfl⟩
    | object =>
      simp only [filler, intoField, hkind]
      exact ⟨_, bind_of_ok hnull⟩
    | float | double =>
      simp only [filler, intoField, hkind, Field.setFloat, FieldKind.isIntegral]
      exact ⟨_, rfl⟩
    | byte | short | int | long | char =>
      simp only [filler, intoField, hkind, Field.setInt, Field.intValue]
      rw [bind_of_ok hzero]
      exact ⟨_, rfl⟩

theorem foldlM_filler (budget : Nat) (isDynamic : Bool) (slots : List (String × Option Field))
    (r : Record) (rest : List UInt8) :
    ∃ r', slots.foldlM (intoSlot (value (budget + 1)) isDynamic) r
      ⟨names, g, slots.map filler ++ rest⟩ = .ok r' ⟨names, g, rest⟩ := by
  induction slots generalizing r with
  | nil => exact ⟨r, rfl⟩
  | cons slot slots ih =>
    obtain ⟨r₁, h₁⟩ := intoSlot_filler names g budget isDynamic r slot (slots.map filler ++ rest)
    obtain ⟨r₂, h₂⟩ := ih r₁
    refine ⟨r₂, ?_⟩
    rw [List.foldlM_cons, List.map_cons, List.cons_append, bind_of_ok h₁, h₂]

/-- A number beyond 16 bits is no character. -/
theorem intoSlot_char (inner : Reader Value) {f : Field} (hf : f.kind = .char) (isDynamic : Bool)
    (r : Record) (name : String) (rest : List UInt8) :
    intoSlot inner isDynamic r (name, some f) ⟨names, g, numberBytes 0x10000 ++ rest⟩ =
      .error (.notSerializable (.notACharUnit r.typeName f.name 0x10000)) ⟨names, g, rest⟩ := by
  have hset : f.setInt r 0x10000 =
      .error (.notSerializable (.notACharUnit r.typeName f.name 0x10000)) := by
    simp only [Field.setInt, Field.intValue, hf, Field.unitChar]
    rfl
  simp only [intoSlot, intoField, hf]
  rw [bind_of_ok (number_append ..), hset]
  rfl

end Reader

def badRecord (before : List (String × Option Field)) : List UInt8 :=
  Tag.record.byte :: Tag.tag.byte ::
    (countBytes 0 ++ (before.map Reader.filler ++ numberBytes 0x10000))

theorem read_badRecord {g : Registry} {signature : String} {layout : WireLayout}
    {before after : List (String × Option Field)} {name : String} {f : Field}
    (hlayout : (g.resolve signature).1 = .ok layout)
    (hslots : layout.slots = before ++ (name, some f) :: after) (hf : f.kind = .char) :
    ∃ cause, (Decoder.read ⟨⟨[signature]⟩, 0⟩ g Reader.value (badRecord before)).result =
      .error (.notSerializable cause) := by
  let names : NameTable := ⟨[signature]⟩
  let fields := before.map Reader.filler ++ (numberBytes 0x10000 ++ [])
  have hbody : Reader.nameBody ⟨names, g, countBytes 0 ++ fields⟩ =
      .ok signature ⟨names, g, fields⟩ := Reader.nameBody_known rfl (by decide) g fields
  have hvalue : Reader.value 255 ⟨names, g, Tag.tag.byte :: (countBytes 0 ++ fields)⟩ =
      .ok (.string signature) ⟨names, g, fields⟩ := by
    rw [Reader.value_tagged 254, Reader.payload, Reader.bind_of_ok hbody, Reader.pure_apply]
  have hname : Reader.stringIn (Reader.value 255)
      ⟨names, g, Tag.tag.byte :: (countBytes 0 ++ fields)⟩ = .ok signature ⟨names, g, fields⟩ :=
    Reader.bind_of_ok hvalue
  have hresolve : Reader.resolve signature ⟨names, g, fields⟩ =
      .ok layout ⟨names, (g.resolve signature).2, fields⟩ :=
    Reader.resolve_eq_ok_iff.mpr ⟨hlayout, rfl⟩
  obtain ⟨r, hfilled⟩ := Reader.foldlM_filler names (g.resolve signature).2 254 layout.isDynamic
    before layout.blank (numberBytes 0x10000 ++ [])
  have hchar := Reader.intoSlot_char names (g.resolve signature).2 (Reader.value 255) hf
    layout.isDynamic r name []
  have hrecord : Reader.recordBody (Reader.value 255)
      ⟨names, g, Tag.tag.byte :: (countBytes 0 ++ fields)⟩ =
      .error (.notSerializable (.notACharUnit r.typeName f.name 0x10000))
        ⟨names, (g.resolve signature).2, []⟩ := by
    rw [Reader.recordBody, Reader.bind_of_ok hname, Reader.bind_of_ok hresolve, hslots,
      List.foldlM_append, Reader.bind_of_ok hfilled, List.foldlM_cons, Reader.bind_of_error hchar]
  have hread : Reader.value maxNesting ⟨names, g, badRecord before⟩ =
      .error (.notSerializable (.notACharUnit r.typeName f.name 0x10000))
        ⟨names, (g.resolve signature).2, []⟩ := by
    have hinput : badRecord before =
        Tag.record.byte :: Tag.tag.byte :: (countBytes 0 ++ fields) := by
      simp only [badRecord, fields, List.append_nil]
    rw [hinput, maxNesting, Reader.value_tagged 255, Reader.payload, Reader.bind_of_error hrecord]
  exact ⟨_, by rw [Decoder.read_of_error (d := ⟨names, 0⟩) hread]⟩

end Wire

/-! ## A type with a field for a character -/

instance {α : Type} (outcome : Except Failure α) (f : Failure) : Decidable (outcome = .error f) :=
  match outcome with
  | .ok _ => isFalse fun h => by cases h
  | .error e => decidable_of_iff (e = f) (by rw [Except.error.injEq])

def cellType : RecordType := ⟨"Cell", [("unit", .char)]⟩

end RemoteCall
