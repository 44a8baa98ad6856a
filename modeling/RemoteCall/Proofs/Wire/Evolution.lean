import Mathlib.Logic.Function.Basic
import RemoteCall.Proofs.Value.Legible
import RemoteCall.Proofs.Wire.Compact

/-!
# Records between peers that know a type differently

A record is written by the type of the writing end and read by the type of the reading end. What a
field means is decided by its name, so the order of the fields does not matter. A field of both
types is read from the value in its place, a field of the reading end alone stays zero, and a field
of the writing end alone is read as any value and dropped. Names inside the value that is dropped
are learned all the same.
-/

namespace RemoteCall

open Wire

inductive FieldKind.Types : FieldKind → Value → Prop
  | exact {kind : FieldKind} {v : Value} (h : kind.Holds v) : Types kind v
  | float (x : Binary32) : Types .float (.float x)
  | double (x : Binary64) : Types .double (.double x)

theorem FieldKind.Types.holds {kind : FieldKind} {v : Value} (h : kind.Types v)
    (hfloat : kind ≠ .float) (hdouble : kind ≠ .double) : kind.Holds v := by
  cases h with
  | exact h => exact h
  | float => exact absurd rfl hfloat
  | double => exact absurd rfl hdouble

/-- Fields of one name have one kind, and it is not a floating point kind. -/
def RecordType.Shares (t u : RecordType) : Prop :=
  ∀ f ∈ t.fields, ∀ f' ∈ u.fields, f'.name = f.name →
    f'.kind = f.kind ∧ f.kind ≠ .float ∧ f.kind ≠ .double

namespace RecordType

def filled (t : RecordType) (value? : String → Option Value) : Record :=
  ⟨t.name, t.layout.map fun (name, kind) => (name, (value? name).getD kind.zero)⟩

variable {t : RecordType} {f : Field} (value? : String → Option Value)

theorem filled_none (t : RecordType) : t.filled (fun _ => none) = t.blank := rfl

theorem isAt_filled (hf : f ∈ t.fields) :
    f.IsAt (t.filled value?) ((value? f.name).getD f.kind.zero) := by
  rw [Field.IsAt, filled, List.getElem?_map, getElem?_layout hf]
  rfl

/-- Storing a value in a field gives its name that value. -/
theorem set_filled (hnodup : (t.layout.map Prod.fst).Nodup) (hf : f ∈ t.fields) (v : Value) :
    { t.filled value? with fields := (t.filled value?).fields.set f.index (f.name, v) } =
      t.filled (Function.update value? f.name (some v)) := by
  have hslot := getElem?_layout hf
  obtain ⟨hlt, -⟩ := List.getElem?_eq_some_iff.mp hslot
  have hfields : (t.filled value?).fields.set f.index (f.name, v) =
      (t.filled (Function.update value? f.name (some v))).fields := by
    refine List.ext_getElem? fun i => ?_
    simp only [filled, List.getElem?_set, List.getElem?_map, List.length_map]
    by_cases hi : f.index = i
    · subst hi
      simp only [if_true, if_pos hlt, hslot, Option.map_some, Function.update_self,
        Option.getD_some]
    · rw [if_neg hi]
      cases hother : t.layout[i]? with
      | none => rfl
      | some slot =>
        have hne : slot.1 ≠ f.name := by
          intro heq
          refine hi ((List.getElem?_inj (by rwa [List.length_map]) hnodup).mp ?_)
          rw [List.getElem?_map, List.getElem?_map, hslot, hother, Option.map_some,
            Option.map_some, heq]
        simp only [Option.map_some, Function.update_of_ne hne]
  rw [hfields]
  rfl

theorem filled_update {name : String} (hnone : t.field? name = none) (v : Value) :
    t.filled (Function.update value? name (some v)) = t.filled value? := by
  have hne : ∀ slot ∈ t.layout, slot.1 ≠ name := by
    intro slot hslot heq
    have hmem : slot.1 ∈ t.fields.map Field.name := by
      rw [fields_eq, map_name_fieldsFrom]
      exact List.mem_map_of_mem hslot
    obtain ⟨f, hf, hname⟩ := List.mem_map.mp hmem
    have := List.find?_eq_none.mp hnone f hf
    simp [hname, heq] at this
  rw [filled, filled]
  congr 1
  exact List.map_congr_left fun slot hslot => by
    simp only [Function.update_of_ne (hne slot hslot)]

end RecordType

/-- Only the types of the records inside a value matter for what the format asks of it. -/
theorem Value.AllFit.congr {g g' : Registry} {v : Value} (hv : v.AllFit g)
    (h : v.EveryRecord fun r => g'.lookup? r.typeName = g.lookup? r.typeName) : v.AllFit g' := by
  induction v using Value.inductionOnChildren with
  | step v ih =>
    have hfits : v.Fits g' := by
      have := hv.fits
      cases v with
      | record r =>
        exact ⟨this.typeName_ne, this.notMem_comma, this.isShort_signature, fun t ht =>
          this.describes t (by rwa [← h.self])⟩
      | _ => exact this
    exact .intro hfits fun w hw => ih w hw (hv.child hw) (h.child hw)

/-- The record holds a value of the kind in the field. What an object field holds is portable with a
level to spare, and the types of the records in it are known alike on both ends. -/
structure Field.Crosses (writing reading : Registry) (r : Record) (f : Field) : Prop where
  types : f.kind.Types (f.get r)
  allFit : f.kind = .object → (f.get r).AllFit writing
  wireDepth_lt : f.kind = .object → (f.get r).wireDepth < maxNesting
  alike : f.kind = .object → (f.get r).EveryRecord fun r' =>
    reading.lookup? r'.typeName = writing.lookup? r'.typeName

/-- A character that the field holds is one UTF-16 unit. -/
def Field.IsUnit (r : Record) (f : Field) : Prop :=
  f.kind = .char → ∀ c, f.get r = .char c → c.toNat ≤ 0xFFFF

namespace Field

variable {writing reading : Registry} {r : Record} {f : Field}

theorem Crosses.toNat_le (h : f.Crosses writing reading r) (hunit : f.IsUnit r) {c : Char}
    (hc : f.get r = .char c) : c.toNat ≤ 0xFFFF := by
  have htypes := h.types
  rw [hc] at htypes
  cases hkind : f.kind with
  | char => exact hunit hkind c hc
  | object =>
    have hfits := (h.allFit hkind).fits
    rwa [hc] at hfits
  | _ =>
    rw [hkind] at htypes
    cases htypes with
    | exact h => cases h

theorem Crosses.exists_untyped (h : f.Crosses writing reading r) (hunit : f.IsUnit r) :
    ∃ v, f.untyped r = .ok v := by
  have htypes := h.types
  generalize hv : f.get r = v at htypes
  have hinteger : f.kind.isIntegral = true → f.kind.Holds v → ∃ n, f.getInt r = .ok n := by
    intro hf hholds
    obtain ⟨n, hn, -⟩ := f.exists_integer hf hholds (fun c hc => h.toNat_le hunit (hv.trans hc)) hv
    exact ⟨n, hn⟩
  unfold untyped
  generalize f.kind = kind at htypes hinteger
  cases htypes with
  | float x | double x => exact ⟨_, by rw [getFloat, hv]; rfl⟩
  | exact hholds =>
    cases hholds with
    | bool b => exact ⟨_, by rw [getBool, hv]; rfl⟩
    | object => exact ⟨_, rfl⟩
    | byte | short | char | int | long =>
      obtain ⟨n, hn⟩ := hinteger rfl (by constructor)
      exact ⟨_, by rw [hn]; rfl⟩

theorem exists_untyped_error {c : Char} (hkind : f.kind = .char) (hc : f.get r = .char c)
    (hwide : 0xFFFF < c.toNat) : ∃ e, f.untyped r = .error e :=
  ⟨_, by simp only [untyped, hkind, getInt, hc, if_pos hwide]; rfl⟩

end Field

namespace Wire

namespace Carries

variable {writing reading : Registry} {t : RecordType} {r : Record} {f : Field} {budget : Nat}

theorem object (h : f.Crosses writing reading r) (hkind : f.kind = .object)
    (hbudget : maxNesting ≤ budget + 1) :
    Carries (·.ReadsFor reading) (valueWriter writing (f.get r)) (Reader.value budget) (f.get r) := by
  rw [← valueWriter_congr_of_records (h.alike hkind)]
  have := h.wireDepth_lt hkind
  exact value ((h.allFit hkind).congr (h.alike hkind)) (by omega)

/-- Whoever does not know the field reads the value in its place. -/
theorem untyped (h : f.Crosses writing reading r) (hunit : f.IsUnit r)
    (hbudget : maxNesting ≤ budget + 1) :
    ∃ v, Carries (·.ReadsFor reading) (fieldWriter r ⟨r.typeName, namedWriters writing r.fields⟩ f)
      (Reader.value budget) v := by
  obtain ⟨v, hv⟩ := h.exists_untyped hunit
  refine ⟨v, ?_⟩
  rw [fieldWriter_of_ok hv]
  by_cases hkind : f.kind = .object
  · rw [Field.untyped_object hkind] at hv
    cases hv
    exact object h hkind hbudget
  · obtain ⟨bytes, hfixed⟩ := Field.exists_fixedBytes? hkind hv
    have halike := Value.everyRecord_of_fixedBytes? hfixed fun r' =>
      reading.lookup? r'.typeName = writing.lookup? r'.typeName
    rw [← valueWriter_congr_of_records halike]
    refine value (Value.allFit_of_fixedBytes? hfixed reading) ?_
    rw [Value.wireDepth_of_fixedBytes? hfixed]
    simp only [maxNesting] at hbudget
    omega

/-- One field: it is stored under its name if the reading end knows it, and dropped otherwise. -/
theorem intoFilled (hnodup : (t.layout.map Prod.fst).Nodup)
    (hshared : ∀ f' ∈ t.fields, f'.name = f.name →
      f'.kind = f.kind ∧ f.kind ≠ .float ∧ f.kind ≠ .double)
    (h : f.Crosses writing reading r) (hunit : f.IsUnit r) (hbudget : maxNesting ≤ budget + 1)
    (value? : String → Option Value) :
    Carries (·.ReadsFor reading) (fieldWriter r ⟨r.typeName, namedWriters writing r.fields⟩ f)
      (Reader.intoSlot (Reader.value budget) false (t.filled value?) (f.name, t.field? f.name))
      (t.filled (Function.update value? f.name (some (f.get r)))) := by
  cases hf' : t.field? f.name with
  | none =>
    obtain ⟨v, hv⟩ := untyped h hunit hbudget
    rw [RecordType.filled_update value? hf']
    exact hv.map fun _ => t.filled value?
  | some f' =>
    have hmem := List.mem_of_find?_eq_some hf'
    have hname : f'.name = f.name := by simpa using List.find?_some hf'
    obtain ⟨hkind, hfloat, hdouble⟩ := hshared f' hmem hname
    have hholds := h.types.holds hfloat hdouble
    rw [← hname, ← RecordType.set_filled value? hnodup hmem]
    exact field (.inl hkind) hholds (fun c hc => h.toNat_le hunit hc) rfl
      (RecordType.isAt_filled value? hmem) fun hobject =>
        object h (hkind.symm.trans hobject) hbudget

theorem filled_foldlM {reads : Registry → Prop} {image : Field → Value} {fs : List Field}
    (hfs : (fs.map Field.name).Nodup)
    (h : ∀ f ∈ fs, ∀ value?, Carries reads
      (fieldWriter r ⟨r.typeName, namedWriters writing r.fields⟩ f)
      (Reader.intoSlot (Reader.value budget) false (t.filled value?) (f.name, t.field? f.name))
      (t.filled (Function.update value? f.name (some (image f)))))
    (value? : String → Option Value) :
    Carries reads (fieldWriters r ⟨r.typeName, namedWriters writing r.fields⟩ fs)
      ((fs.map fun f => (f.name, t.field? f.name)).foldlM
        (Reader.intoSlot (Reader.value budget) false) (t.filled value?))
      (t.filled fun name => ((fs.find? (·.name == name)).map image).or (value? name)) := by
  induction fs generalizing value? with
  | nil => exact pure _
  | cons f fs ih =>
    rw [List.map_cons, List.nodup_cons] at hfs
    rw [List.forall_mem_cons] at h
    have hfirst := h.1 value?
    have hrest := ih hfs.2 h.2 (Function.update value? f.name (some (image f)))
    have hvalues : (fun name => ((fs.find? (·.name == name)).map image).or
          (Function.update value? f.name (some (image f)) name)) =
        fun name => (((f :: fs).find? (·.name == name)).map image).or (value? name) := by
      funext name
      by_cases hname : name = f.name
      · subst hname
        have hnone : fs.find? (·.name == f.name) = none := by
          refine List.find?_eq_none.mpr fun f' hf' heq => hfs.1 ?_
          rw [← beq_iff_eq.mp heq]
          exact List.mem_map_of_mem hf'
        rw [hnone, Function.update_self, List.find?_cons, beq_self_eq_true]
        rfl
      · have hne : (f.name == name) = false := beq_eq_false_iff_ne.mpr (Ne.symm hname)
        rw [Function.update_of_ne hname, List.find?_cons, hne]
    rw [hvalues] at hrest
    exact hfirst.bind hrest

/-- A record is read by the layout of a known type if each of its fields is. -/
theorem throughFields {reads : Registry → Prop} {image : Field → Value} {written : RecordType}
    {typeName : String} {isShadow : Bool} (hwriter : writing.lookup? r.typeName = some written)
    (hnodup : (written.layout.map Prod.fst).Nodup) (hshort : IsShort written.signature)
    (hresolve : Carries reads .nothing (Reader.resolve written.signature) ⟨typeName, some t,
      (written.layout.map Prod.fst).map fun name => (name, t.field? name), isShadow⟩)
    (h : ∀ f ∈ written.fields, ∀ value?, Carries reads
      (fieldWriter r ⟨r.typeName, namedWriters writing r.fields⟩ f)
      (Reader.intoSlot (Reader.value (budget + 1)) false (t.filled value?)
        (f.name, t.field? f.name))
      (t.filled (Function.update value? f.name (some (image f))))) :
    Carries reads (recordBodyWriter writing r) (Reader.record (budget + 1))
      (t.filled fun name => (written.field? name).map image) := by
  have hnames : written.layout.map Prod.fst = written.fields.map Field.name := by
    rw [RecordType.fields_eq, RecordType.map_name_fieldsFrom]
  have hfields := filled_foldlM (hnames ▸ hnodup) h fun _ => none
  simp only [RecordType.filled_none, Option.or_none] at hfields
  simp only [recordBodyWriter, recordWriter, hwriter]
  refine (nameString hshort).bind (hresolve.quietThen ?_)
  simp only [WireLayout.isDynamic, WireLayout.blank, Option.isNone_some, hnames, List.map_map]
  exact hfields

/-- The body of a record of one type, read by another type of that name. -/
theorem shadow {written : RecordType} (hwriter : writing.lookup? r.typeName = some written)
    (hreader : reading.lookup? r.typeName = some t) (hplain : written.IsPlain)
    (hnodup : (t.layout.map Prod.fst).Nodup) (hshared : written.Shares t)
    (hshort : IsShort written.signature)
    (h : ∀ f ∈ written.fields, f.Crosses writing reading r ∧ f.IsUnit r)
    (hbudget : maxNesting ≤ budget + 1) :
    Carries (·.ReadsFor reading) (recordBodyWriter writing r) (Reader.record budget)
      (t.filled fun name => (written.field? name).map (·.get r)) := by
  have hreader' : reading.lookup? written.name = some t := by
    rw [Registry.name_of_lookup? hwriter, hreader]
  have hresolve := resolve hplain.separable.split_signature hplain.separable.typeName_ne
    (g := reading)
  simp only [Registry.layoutOf, hreader'] at hresolve
  have hlevels : 0 < budget := by
    simp only [maxNesting] at hbudget
    omega
  obtain ⟨levels, rfl⟩ := Nat.exists_eq_succ_of_ne_zero hlevels.ne'
  apply throughFields hwriter hplain.nodup hshort hresolve
  intro f hf value?
  exact intoFilled hnodup (hshared f hf) (h f hf).1 (h f hf).2 hbudget value?

end Carries

theorem isUnit_of_written {writing : Registry} {written : RecordType} {r : Record} {e : NameIndex}
    (hwriter : writing.lookup? r.typeName = some written)
    (h : (recordBodyWriter writing r e).failure? = none) : ∀ f ∈ written.fields, f.IsUnit r := by
  intro f hf hkind c hc
  by_contra hwide
  obtain ⟨failure, hfailure⟩ := Field.exists_untyped_error hkind hc (Nat.not_le.mp hwide)
  simp only [recordBodyWriter, recordWriter, hwriter] at h
  obtain ⟨-, hfields⟩ := Writer.failure?_of_append h
  rw [fieldWriters_eq] at hfields
  obtain ⟨e', he'⟩ := Writer.failure?_of_concat hfields _ (List.mem_map_of_mem hf)
  rw [fieldWriter_of_error hfailure] at he'
  cases he'

/-- A record is written if its characters are units, and is then read with exactly the fields of the
reading end's type: those of both types have the values that were written, the others are zero.
Nothing behind the record is touched, and the two ends agree on the names.

`IsShort` and `maxNames` are limits of the format: the length of a signature and the number of a
name are written in 32 bits. -/
theorem read_write_evolved {writing reading : Registry} {written t : RecordType} {r : Record}
    (hwriter : writing.lookup? r.typeName = some written)
    (hreader : reading.lookup? r.typeName = some t) (hcurrent : reading.IsCurrent)
    (hplain : written.IsPlain) (hnodup : (t.layout.map Prod.fst).Nodup)
    (hshared : written.Shares t) (hshort : IsShort written.signature)
    (hfields : ∀ f ∈ written.fields, f.Crosses writing reading r) {e : Encoder} {d : Decoder}
    (hagrees : e.names.Agrees d.names) (hdepth : d.depth ≤ 1)
    (hsize : (e.write (recordBodyWriter writing r)).encoder.interned ≤ maxNames)
    (rest : List UInt8) :
    let sent := e.write (recordBodyWriter writing r)
    let received := d.read reading Reader.record (sent.bytes ++ rest)
    (sent.failure? = none ↔ ∀ f ∈ written.fields, f.IsUnit r) ∧
      (sent.failure? = none →
        received.result =
          .ok (t.filled fun name => (written.field? name).map (·.get r), rest) ∧
        sent.encoder.names.Agrees received.decoder.names ∧
        received.decoder.depth = d.depth ∧ received.registry.ReadsFor reading) := by
  intro sent received
  have hbudget : maxNesting ≤ d.budget + 1 := by
    rw [Decoder.budget]
    omega
  have hcarries := fun hunits : ∀ f ∈ written.fields, f.IsUnit r =>
    Carries.shadow hwriter hreader hplain hnodup hshared hshort
      (fun f hf => ⟨hfields f hf, hunits f hf⟩) hbudget
  refine ⟨⟨isUnit_of_written hwriter, fun hunits => (hcarries hunits).failure?_eq e.names⟩, ?_⟩
  intro hsent
  exact (hcarries (isUnit_of_written hwriter hsent)).decode hagrees ⟨rfl, hcurrent⟩ hsize rest

/-- A shape whose ratio and label the reading end does not know, and which has a colour there. -/
theorem read_write_evolved_shape :
    let written : RecordType :=
      ⟨"Shape", [("ratio", .double), ("sides", .int), ("labels", .object), ("mark", .char)]⟩
    let t : RecordType := ⟨"Shape", [("colour", .object), ("mark", .char), ("sides", .int)]⟩
    let r : Record := ⟨"Shape", [("ratio", .double ⟨0x4004000000000000⟩), ("sides", .int 7),
      ("labels", .list [.string "old"]), ("mark", .char 'x')]⟩
    let sent := Encoder.new.write (recordBodyWriter (Registry.initial.register written) r)
    let received :=
      Decoder.new.read (Registry.initial.register t) Reader.record (sent.bytes ++ [9])
    received.result =
        .ok (⟨"Shape", [("colour", .null), ("mark", .char 'x'), ("sides", .int 7)]⟩, [9]) ∧
      received.decoder.names = ⟨["Shape,ratio,sides,labels,mark", "old"]⟩ := by
  intro written t r sent received
  have hfields : ∀ f ∈ written.fields,
      f.Crosses (Registry.initial.register written) (Registry.initial.register t) r := by
    have hlabels : (Value.list [.string "old"]).AllFit (Registry.initial.register written) :=
      .intro (show 1 ≤ Reader.maxLength by decide)
        (List.forall_mem_singleton.mpr (.leaf rfl (show IsShort "old" by decide)))
    have hleaf : (Value.list [.string "old"]).EveryRecord fun r' =>
        (Registry.initial.register t).lookup? r'.typeName =
          (Registry.initial.register written).lookup? r'.typeName :=
      .intro nofun (List.forall_mem_singleton.mpr (.intro nofun nofun))
    refine List.forall_mem_cons.mpr ⟨⟨.double _, nofun, nofun, nofun⟩, ?_⟩
    refine List.forall_mem_cons.mpr ⟨⟨.exact (.int 7), nofun, nofun, nofun⟩, ?_⟩
    refine List.forall_mem_cons.mpr
      ⟨⟨.exact (.object _), fun _ => hlabels, fun _ => by decide, fun _ => hleaf⟩, ?_⟩
    exact List.forall_mem_singleton.mpr ⟨.exact (.char 'x'), nofun, nofun, nofun⟩
  have hwriter : (Registry.initial.register written).lookup? r.typeName = some written := rfl
  have hreader : (Registry.initial.register t).lookup? r.typeName = some t := rfl
  have hevolved := read_write_evolved hwriter hreader
    (Registry.Grown.register .initial (by decide)).isCurrent ⟨⟨by decide, by decide⟩, by decide⟩
    (by decide) (by unfold RecordType.Shares; decide) (by decide +kernel) hfields (e := .new)
    (d := .new) NameIndex.empty_agrees (by decide) (by decide +kernel) [9]
  exact ⟨(hevolved.2 (by decide +kernel)).1, by decide +kernel⟩

end Wire

end RemoteCall
