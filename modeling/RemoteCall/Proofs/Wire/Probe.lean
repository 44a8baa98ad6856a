import RemoteCall.Proofs.Wire.Typed

/-!
# A record that tells types apart

One record of a type is enough to learn how the type that reads it lays out its fields: each of its
fields holds a value that a field of another primitive kind never holds, and that changes where any
value is read in its place, unless it is a boolean. So a type through which this record comes back
gives back every record.
-/

namespace RemoteCall

open Wire

namespace FieldKind

variable {kind : FieldKind}

def probe : FieldKind → Value
  | .int => .int 128
  | kind => kind.zero

theorem holds_probe (h : kind ≠ .float ∧ kind ≠ .double) : kind.Holds kind.probe := by
  cases kind with
  | float => exact absurd rfl h.1
  | double => exact absurd rfl h.2
  | _ => constructor

def Admits (kept kind : FieldKind) : Prop := kept = kind ∨ kept = .object

theorem admits_of_types_probe {kept : FieldKind} (h : kept.Types kind.probe) :
    kept.Admits kind := by
  cases kind <;>
  · cases h with
    | exact hholds => cases hholds <;> simp [Admits]
    | _ => exact .inl rfl

end FieldKind

namespace Field

variable {f : Field} {r : Record}

def seenBy (f : Field) (kept : FieldKind) (r : Record) : Value :=
  if kept = f.kind then f.get r else (f.untyped r).toOption.getD .null

theorem untyped_probe (hget : f.get r = f.kind.probe) (hobject : f.kind ≠ .object)
    (hfloat : f.kind ≠ .float ∧ f.kind ≠ .double) :
    ∃ v bytes, f.untyped r = .ok v ∧ v.fixedBytes? = some bytes ∧
      (v = f.kind.probe → f.kind = .bool) := by
  cases hkind : f.kind with
  | float => exact absurd hkind hfloat.1
  | double => exact absurd hkind hfloat.2
  | object => exact absurd hkind hobject
  | bool =>
    rw [hkind] at hget
    exact ⟨.bool false, _, by simp only [untyped, hkind, getBool, hget]; rfl, rfl, fun _ => rfl⟩
  | int =>
    rw [hkind] at hget
    refine ⟨.short 128, _, by simp only [untyped, hkind, getInt, hget]; rfl, rfl, fun h => ?_⟩
    cases h
  | byte | short | char | long =>
    rw [hkind] at hget
    refine ⟨.int 0, _, by simp only [untyped, hkind, getInt, hget]; rfl, rfl, fun h => ?_⟩
    cases h

end Field

namespace RecordType

def probe (t : RecordType) : Record := ⟨t.name, t.layout.map fun slot => (slot.1, slot.2.probe)⟩

variable {g : Registry} {t u : RecordType} {f : Field}

def probeSeenBy (t u : RecordType) (name : String) : Option Value :=
  (t.field? name).map fun f => f.seenBy ((u.field? f.name).elim .object Field.kind) t.probe

theorem isAt_probe (hf : f ∈ t.fields) : f.IsAt t.probe f.kind.probe := by
  rw [Field.IsAt, probe, List.getElem?_map, getElem?_layout hf]
  rfl

end RecordType

namespace Wire

variable {g : Registry} {t u : RecordType}

theorem emit_append_emit (bytes bytes' : List UInt8) :
    (Writer.emit bytes ++ Writer.emit bytes') = .emit (bytes ++ bytes') := by
  funext e
  exact Writer.emit_append bytes _ e

theorem exists_untyped_probe {f : Field} (hf : f ∈ t.fields)
    (hfloat : f.kind ≠ .float ∧ f.kind ≠ .double) :
    ∃ v bytes, f.untyped t.probe = .ok v ∧ v.fixedBytes? = some bytes := by
  by_cases hobject : f.kind = .object
  · refine ⟨.null, _, ?_, rfl⟩
    rw [Field.untyped_object hobject, (RecordType.isAt_probe hf).get_eq, hobject]
    rfl
  · obtain ⟨v, bytes, hv, hbytes, -⟩ :=
      Field.untyped_probe (RecordType.isAt_probe hf).get_eq hobject hfloat
    exact ⟨v, bytes, hv, hbytes⟩

/-- Only the signature is a name. -/
theorem exists_probeWriter (ht : g.lookup? t.name = some t)
    (hfloat : ∀ f ∈ t.fields, f.kind ≠ .float ∧ f.kind ≠ .double) :
    ∃ bytes, recordBodyWriter g t.probe = .name t.signature ++ .emit bytes := by
  have hfields : ∀ fs : List Field, (∀ f ∈ fs, f ∈ t.fields) → ∃ bytes,
      fieldWriters t.probe ⟨t.probe.typeName, namedWriters g t.probe.fields⟩ fs = .emit bytes := by
    intro fs
    induction fs with
    | nil => exact fun _ => ⟨[], rfl⟩
    | cons f fs ih =>
      intro hmem
      obtain ⟨hf, hrest⟩ := List.forall_mem_cons.mp hmem
      obtain ⟨v, bytes, hv, hbytes⟩ := exists_untyped_probe hf (hfloat f hf)
      obtain ⟨more, hmore⟩ := ih hrest
      refine ⟨bytes ++ more, ?_⟩
      rw [fieldWriters, hmore, fieldWriter_of_ok hv, valueWriter_of_fixedBytes? hbytes,
        emit_append_emit]
  obtain ⟨bytes, hbytes⟩ := hfields t.fields fun _ hf => hf
  refine ⟨bytes, ?_⟩
  have ht' : g.lookup? t.probe.typeName = some t := ht
  rw [recordBodyWriter, recordWriter, ht', ← hbytes]

/-- A field of the probe, read by a type that knows it by its kind or as an object field. -/
theorem Carries.seen {reads : Registry → Prop} {budget : Nat}
    (hnodup : (u.layout.map Prod.fst).Nodup) {f f' : Field} (hf : f ∈ t.fields)
    (hfloat : f.kind ≠ .float ∧ f.kind ≠ .double) (hf' : u.field? f.name = some f')
    (hkind : f'.kind.Admits f.kind) (value? : String → Option Value) :
    Carries reads
      (fieldWriter t.probe ⟨t.probe.typeName, namedWriters g t.probe.fields⟩ f)
      (Reader.intoSlot (Reader.value (budget + 1)) false (u.filled value?) (f.name, some f'))
      (u.filled (Function.update value? f.name (some (f.seenBy f'.kind t.probe)))) := by
  have hmem : f' ∈ u.fields := List.mem_of_find?_eq_some hf'
  have hname : f'.name = f.name := by simpa using List.find?_some hf'
  have hat := RecordType.isAt_filled value? hmem
  have hget := (RecordType.isAt_probe hf).get_eq
  have hfilled : ∀ v, u.filled (Function.update value? f.name (some v)) =
      { u.filled value? with
        fields := (u.filled value?).fields.set f'.index (f'.name, v) } := by
    intro v
    rw [← hname]
    exact (RecordType.set_filled value? hnodup hmem v).symm
  rw [hfilled]
  by_cases hsame : f'.kind = f.kind
  · rw [Field.seenBy, if_pos hsame, hget]
    apply field (.inl hsame) (FieldKind.holds_probe hfloat) _ hget hat
    · intro hobject
      rw [← hsame, hobject]
      exact .fixed rfl
    · intro c hc
      generalize f.kind = kind at hc
      cases kind <;> cases hc
      decide
  · have hobject : f'.kind = .object := hkind.resolve_left hsame
    obtain ⟨v, bytes, hv, hbytes⟩ := exists_untyped_probe hf hfloat
    have hseen : f.seenBy f'.kind t.probe = v := by
      rw [Field.seenBy, if_neg hsame, hv]
      rfl
    rw [hseen, fieldWriter_of_ok hv, ← hat.set_eq]
    simp only [Reader.intoSlot, Reader.intoField, hobject]
    exact (fixed hbytes).map _

/-- What becomes of the probe where its signature stands for a layout of such a type. -/
theorem Carries.probe {isShadow : Bool} (hnodup : (u.layout.map Prod.fst).Nodup)
    (ht : g.lookup? t.name = some t) (hplain : t.IsPlain) (hshort : IsShort t.signature)
    (hresolve : (g.resolve t.signature).1 = .ok ⟨t.name, some u,
      (t.layout.map Prod.fst).map fun name => (name, u.field? name), isShadow⟩)
    (hfields : ∀ f ∈ t.fields, (f.kind ≠ .float ∧ f.kind ≠ .double) ∧
      ∃ f', u.field? f.name = some f' ∧ f'.kind.Admits f.kind) :
    Carries g.Resolves (recordBodyWriter g t.probe) (Reader.record maxNesting)
      (u.filled (t.probeSeenBy u)) := by
  have ht' : g.lookup? t.probe.typeName = some t := ht
  apply throughFields ht' hplain.nodup hshort (resolveAs hresolve)
  intro f hf value?
  obtain ⟨hfloat, f', hf', hkind⟩ := hfields f hf
  simp only [hf', Option.elim_some]
  exact seen hnodup hf hfloat hf' hkind value?

/-- A record behind its signature is read by the layout that the signature stands for. -/
theorem foldlM_of_record {signature : String} {layout : WireLayout} {budget : Nat}
    (hshort : IsShort signature)
    (hresolve : (g.resolve signature).1 = .ok layout) {e : NameIndex} {d : NameTable}
    (hagrees : e.Agrees d) (hsize : (Writer.name signature e).names.size ≤ maxNames)
    {rest : List UInt8} {r : Record} {s : ReadState}
    (h : Reader.record (budget + 1) ⟨d, g, (Writer.name signature e).bytes ++ rest⟩ = .ok r s) :
    ∃ s', layout.slots.foldlM (Reader.intoSlot (Reader.value (budget + 1)) layout.isDynamic)
      layout.blank s' = .ok r s := by
  have hname : Carries g.Resolves (.name signature) (Reader.stringIn (Reader.value (budget + 1)))
    signature := .nameString hshort
  obtain ⟨d', g', hread, -, hknown⟩ := hname.read e d g rest hagrees .refl hsize
  obtain ⟨signature', s₁, hsignature, h⟩ := Reader.bind_eq_ok_iff.mp h
  rw [hread] at hsignature
  cases hsignature
  obtain ⟨layout', s₂, hlayout, h⟩ := Reader.bind_eq_ok_iff.mp h
  obtain ⟨hlayout, -⟩ := Reader.resolve_eq_ok_iff.mp hlayout
  rw [hknown.resolve_eq, hresolve] at hlayout
  cases hlayout
  exact ⟨s₂, h⟩

end Wire

namespace RecordType

variable {g : Registry} {t u : RecordType} {f : Field}

theorem slots_of_types_probe (h : u.Types t.probe) :
    List.Forall₂ (fun slot slot' => slot.1 = slot'.1 ∧ slot.2.Admits slot'.2) u.layout t.layout :=
  (List.forall₂_map_right_iff.mp h).imp fun _ _ hslot =>
    ⟨hslot.1, FieldKind.admits_of_types_probe hslot.2⟩

theorem seenBy_of_back (hback : t.probe = u.filled (t.probeSeenBy u))
    (hnodup : (t.layout.map Prod.fst).Nodup) (hf : f ∈ t.fields) {kind : FieldKind}
    (hfield : u.field? f.name = some ⟨f.name, kind, f.index⟩) :
    f.seenBy kind t.probe = f.kind.probe := by
  have hat := isAt_filled (t.probeSeenBy u) (List.mem_of_find?_eq_some hfield)
  have hprobe := isAt_probe hf
  have hself := field?_name hnodup hf
  have hseen : t.probeSeenBy u f.name = some (f.seenBy kind t.probe) := by
    rw [probeSeenBy, hself, Option.map_some, hfield]
    rfl
  rw [← hback, Field.IsAt, hseen, hprobe] at hat
  injection hat with hat
  exact (congrArg Prod.snd hat).symm

/-- An object field that sees the probe as it is stands for an object or a boolean. -/
theorem givesBack_of_seenBy {kind : FieldKind} (hf : f ∈ t.fields)
    (hfloat : f.kind ≠ .float ∧ f.kind ≠ .double) (hkind : kind.Admits f.kind)
    (hseen : f.seenBy kind t.probe = f.kind.probe) : kind.GivesBack f.kind := by
  by_cases hsame : kind = f.kind
  · exact .inl hsame
  · have hobject : kind = .object := hkind.resolve_left hsame
    obtain ⟨v, -, hv, -, hbool⟩ := Field.untyped_probe (isAt_probe hf).get_eq
      (fun h => hsame (hobject.trans h.symm)) hfloat
    rw [Field.seenBy, if_neg hsame, hv] at hseen
    exact .inr ⟨hobject, hbool hseen⟩

end RecordType

namespace Wire

variable {g : Registry} {t u : RecordType}

/-- To a peer without names the probe is its signature and then bytes. -/
theorem exists_probe_written (ht : g.lookup? t.name = some t)
    (hfloat : ∀ f ∈ t.fields, f.kind ≠ .float ∧ f.kind ≠ .double) :
    ∃ bytes, recordBodyWriter g t.probe .empty =
      ⟨(Writer.name t.signature .empty).bytes ++ bytes, NameIndex.empty.insert t.signature, none⟩ := by
  obtain ⟨bytes, hwriter⟩ := exists_probeWriter ht hfloat
  have hname : Writer.name t.signature .empty = _ := Writer.name_of_new rfl
  refine ⟨bytes, ?_⟩
  rw [hwriter, hname]
  exact Writer.append_of_none rfl _

/-- A type that the probe comes back through gives back every record. -/
theorem givesBack_of_probe {isShadow : Bool} (ht : g.lookup? t.name = some t)
    (hplain : t.IsPlain) (hfloat : ∀ slot ∈ t.layout, slot.2 ≠ .float ∧ slot.2 ≠ .double)
    (hshort : IsShort t.signature) (hname : u.name = t.name)
    (hresolve : (g.resolve t.signature).1 = .ok ⟨t.name, some u,
      (t.layout.map Prod.fst).map fun name => (name, u.field? name), isShadow⟩)
    {rest : List UInt8} {s : ReadState} (hread : Reader.record maxNesting ⟨.empty, g,
      (recordBodyWriter g t.probe .empty).bytes ++ rest⟩ = .ok t.probe s) : u.GivesBack t := by
  have hkinds : ∀ f ∈ t.fields, f.kind ≠ .float ∧ f.kind ≠ .double :=
    fun f hf => hfloat _ (RecordType.mem_layout hf)
  obtain ⟨bytes, hwritten⟩ := exists_probe_written ht hkinds
  have hsize : (NameIndex.empty.insert t.signature).size ≤ maxNames := by
    rw [NameIndex.size_insert]
    decide
  have htypes : u.Types t.probe := by
    have hread := hread
    rw [hwritten, List.append_assoc] at hread
    have hnames : (Writer.name t.signature .empty).names = .insert .empty t.signature := by
      rw [Writer.name_of_new rfl]
    obtain ⟨s', hfields⟩ :=
      foldlM_of_record hshort hresolve NameIndex.empty_agrees (hnames ▸ hsize) hread
    exact (Reader.Makes.fields_types _ u _).of_ok hfields
  have hslots := RecordType.slots_of_types_probe htypes
  have hnodup : (u.layout.map Prod.fst).Nodup := by
    rw [RecordType.map_fst_eq hslots]
    exact hplain.nodup
  have hcarries := Carries.probe hnodup ht hplain hshort hresolve fun f hf => by
    obtain ⟨kind, -, hfield, hkind⟩ := RecordType.exists_field?_of_slots hslots hnodup hf
    exact ⟨hkinds f hf, _, hfield, hkind⟩
  obtain ⟨names, g', hback, -, -⟩ :=
    hcarries.read .empty .empty g rest NameIndex.empty_agrees .refl (hwritten ▸ hsize)
  rw [hread] at hback
  injection hback with hback
  refine ⟨hname, List.forall₂_iff_get.mpr ⟨hslots.length_eq, fun i hlt hlt' => ?_⟩⟩
  have hf := RecordType.mem_fields (List.getElem?_eq_getElem hlt')
  obtain ⟨kind, hslot, hfield, hkind⟩ := RecordType.exists_field?_of_slots hslots hnodup hf
  have hseen := RecordType.seenBy_of_back hback hplain.nodup hf hfield
  have hgives := RecordType.givesBack_of_seenBy hf (hkinds _ hf) hkind hseen
  obtain ⟨hlt, hslot⟩ := List.getElem?_eq_some_iff.mp hslot
  simp only [List.get_eq_getElem]
  rw [hslot]
  exact ⟨rfl, hgives⟩

end Wire

end RemoteCall
