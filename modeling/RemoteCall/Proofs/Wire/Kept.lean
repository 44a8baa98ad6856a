import RemoteCall.Proofs.Value.Identity
import RemoteCall.Proofs.Wire.Pace
import RemoteCall.Proofs.Wire.Probe

/-!
# Types that are registered again

A type may be registered again under its name, with other fields or with the same fields of other
kinds, while the resolution of a signature is kept for good. Records are written by the type
registered now and read by the one registered when the signature of the type was resolved first. So
the records of a type come back exactly if these two have the same fields in the same order, whose
kinds agree: only a boolean field may have been an object field then.
-/

namespace RemoteCall

open Wire

/-! ## Resolutions that are kept -/

namespace Registry

/-- A resolution of the signature by a type that is, or was, registered under a name that still has a
type. -/
structure IsLearned (g : Registry) (signature : String) (layout : WireLayout) (u : RecordType)
    (names : List String) : Prop where
  split_eq : Text.split ',' signature = u.name :: names
  isSome_lookup? : (g.lookup? u.name).isSome
  layout_eq : ∃ isShadow,
    layout = ⟨u.name, some u, names.map fun name => (name, u.field? name), isShadow⟩

def KeepsLearned (g : Registry) : Prop :=
  ∀ signature layout, g.resolved.lookup signature = some layout →
    ∃ u names, g.IsLearned signature layout u names

variable {g : Registry}

theorem isSome_lookup?_register {name : String} (h : (g.lookup? name).isSome) (t : RecordType) :
    ((g.register t).lookup? name).isSome := by
  by_cases hname : name = t.name
  · subst hname
    simp [lookup?, register]
  · rw [lookup?_register_of_ne hname]
    exact h

theorem KeepsLearned.register (hg : g.KeepsLearned) (t : RecordType) :
    (g.register t).KeepsLearned := by
  intro signature layout hkept
  obtain ⟨u, names, h⟩ := hg signature layout hkept
  exact ⟨u, names, h.split_eq, isSome_lookup?_register h.isSome_lookup? t, h.layout_eq⟩

theorem isLearned_layoutOf {signature typeName : String} {names : List String}
    (hsplit : Text.split ',' signature = typeName :: names)
    (hknown : (g.lookup? typeName).isSome) :
    ∃ u, g.IsLearned signature (g.layoutOf signature typeName names) u names := by
  obtain ⟨u, hu⟩ := Option.isSome_iff_exists.mp hknown
  obtain rfl := name_of_lookup? hu
  refine ⟨u, hsplit, hknown, u.signature != signature, ?_⟩
  simp only [layoutOf, hu]

theorem KeepsLearned.resolve (hg : g.KeepsLearned) (signature : String) :
    (g.resolve signature).2.KeepsLearned := by
  have hlookup := lookup?_resolve g signature
  have h := g.resolvesTo signature
  generalize g.resolve signature = outcome at h hlookup ⊢
  cases h with
  | @learned typeName names hsplit hne hknown =>
    intro s layout hkept
    by_cases hsignature : s = signature
    · subst hsignature
      rw [List.lookup_cons_self, Option.some.injEq] at hkept
      subst hkept
      obtain ⟨u, h⟩ := isLearned_layoutOf hsplit hknown
      exact ⟨u, names, h.split_eq, by rw [hlookup]; exact h.isSome_lookup?, h.layout_eq⟩
    · rw [List.lookup_cons, beq_eq_false_iff_ne.mpr hsignature] at hkept
      obtain ⟨u, names', h⟩ := hg s layout hkept
      exact ⟨u, names', h.split_eq, by rw [hlookup]; exact h.isSome_lookup?, h.layout_eq⟩
  | _ => exact hg

/-- Whatever was registered, resolved and read. -/
theorem Reachable.keepsLearned (h : g.Reachable) : g.KeepsLearned := by
  induction h with
  | initial =>
    intro signature layout hkept
    cases hkept
  | register t _ ih => exact ih.register t
  | resolve signature _ ih => exact ih.resolve signature

/-- What a resolution kept looks like. -/
theorem KeepsLearned.layout_of_kept (hg : g.KeepsLearned) {signature typeName : String}
    {names : List String} {layout : WireLayout}
    (hsplit : Text.split ',' signature = typeName :: names)
    (hkept : g.resolved.lookup signature = some layout) :
    ∃ u isShadow, u.name = typeName ∧ (g.lookup? typeName).isSome ∧
      layout = ⟨typeName, some u, names.map fun name => (name, u.field? name), isShadow⟩ := by
  obtain ⟨u, names', h⟩ := hg signature layout hkept
  obtain ⟨rfl, rfl⟩ := List.cons.inj (hsplit.symm.trans h.split_eq)
  obtain ⟨isShadow, rfl⟩ := h.layout_eq
  exact ⟨u, isShadow, rfl, h.isSome_lookup?, rfl⟩

end Registry

/-- No resolution of the signature of the type is kept, or one by a type that gives its records
back. -/
def RecordType.IsReadBack (g : Registry) (t : RecordType) : Prop :=
  ∀ layout, g.resolved.lookup t.signature = some layout →
    ∃ u, layout.known? = some u ∧ u.GivesBack t

def RecordOf.IsReadBack (g : Registry) (r : Record) : Prop :=
  ∀ t, g.lookup? r.typeName = some t → t.IsReadBack g

/-- The signature of the type stands for the layout of a type that gives its records back. -/
theorem RecordType.IsReadBack.exists_layout {g : Registry} {t : RecordType} (hback : t.IsReadBack g)
    (hg : g.KeepsLearned) (ht : g.lookup? t.name = some t) (hplain : t.IsPlain) :
    ∃ u isShadow, u.GivesBack t ∧ (g.resolve t.signature).1 = .ok ⟨t.name, some u,
      (t.layout.map Prod.fst).map fun name => (name, u.field? name), isShadow⟩ := by
  have hsplit := hplain.separable.split_signature
  cases hkept : g.resolved.lookup t.signature with
  | none =>
    have hresolve := Registry.resolve_of_lookup_none hkept hsplit hplain.separable.typeName_ne
    simp only [Registry.layoutOf, ht] at hresolve
    exact ⟨t, _, .refl t, hresolve⟩
  | some layout =>
    obtain ⟨u, isShadow, -, -, rfl⟩ := hg.layout_of_kept hsplit hkept
    obtain ⟨u', hu', hgives⟩ := hback _ hkept
    cases hu'
    exact ⟨u, isShadow, hgives, Registry.resolve_of_lookup hkept⟩

namespace Wire

variable {g : Registry} {r : Record}

/-- The signature of a record is resolved by the types known now, or as it was before. -/
theorem readsBack (hg : g.KeepsLearned) (hr : r.Fits g) (hread : r.IsReadBack g) :
    ReadsBack g.Resolves g r := by
  have hsplit := hr.split_signature
  cases hkept : g.resolved.lookup (signatureOf r.typeName r.names) with
  | none =>
    have hresolve := Registry.resolve_of_lookup_none hkept hsplit hr.typeName_ne
    exact ⟨_, g.givesBack_layoutOf r _, Carries.resolveAs hresolve⟩
  | some layout =>
    obtain ⟨u, isShadow, -, hknown, rfl⟩ := hg.layout_of_kept hsplit hkept
    obtain ⟨t, ht⟩ := Option.isSome_iff_exists.mp hknown
    obtain ⟨u', hu', hback⟩ := hread t ht _ (by rw [hr.signature_eq ht]; exact hkept)
    cases hu'
    exact ⟨_, .known ht hback isShadow, Carries.resolveAs (Registry.resolve_of_lookup hkept)⟩

end Wire

/-! ## Records that come back -/

structure RecordType.Sends (g : Registry) (t : RecordType) (r : Record) : Prop where
  typeName_eq : r.typeName = t.name
  describes : t.Describes r
  portable : ∀ f ∈ t.fields, f.kind = .object → (f.get r).Portable g
  isReadBack : ∀ f ∈ t.fields, f.kind = .object →
    (f.get r).EveryRecord (RecordOf.IsReadBack g)

theorem FieldKind.Holds.exists_fixedBytes? {kind : FieldKind} {v : Value} (h : kind.Holds v)
    (hkind : kind ≠ .object) (hunit : ∀ c, v = .char c → c.toNat ≤ 0xFFFF) :
    ∃ bytes, v.fixedBytes? = some bytes := by
  cases h with
  | object => exact absurd rfl hkind
  | char c => exact ⟨_, if_pos (hunit c rfl)⟩
  | _ => exact ⟨_, rfl⟩

theorem RecordType.Describes.exists_field {t : RecordType} {r : Record} (h : t.Describes r)
    {p : String × Value} (hp : p ∈ r.fields) :
    ∃ f ∈ t.fields, f.get r = p.2 ∧ f.kind.Holds p.2 := by
  obtain ⟨i, hlt, hi⟩ := List.mem_iff_getElem.mp hp
  have hlt' : i < t.layout.length := by
    rw [h.holds.length_eq]
    exact hlt
  obtain ⟨hname, hholds⟩ := List.Forall₂.get h.holds hlt' hlt
  simp only [List.get_eq_getElem, hi] at hname hholds
  have hf := RecordType.mem_fields (List.getElem?_eq_getElem hlt')
  have hat : Field.IsAt ⟨t.layout[i].1, t.layout[i].2, i⟩ r p.2 := by
    rw [Field.IsAt, List.getElem?_eq_getElem hlt, hi, hname]
  exact ⟨_, hf, hat.get_eq, hholds⟩

namespace RecordType.Sends

variable {g : Registry} {t : RecordType} {r : Record}

theorem of_primitive (hname : r.typeName = t.name) (hdescribes : t.Describes r)
    (hprimitive : ∀ f ∈ t.fields, f.kind ≠ .object) : t.Sends g r :=
  ⟨hname, hdescribes, fun f hf hkind => absurd hkind (hprimitive f hf),
    fun f hf hkind => absurd hkind (hprimitive f hf)⟩

theorem fits (h : t.Sends g r) (ht : g.lookup? t.name = some t) (hplain : t.IsPlain)
    (hshort : IsShort t.signature) : r.Fits g where
  typeName_ne := h.typeName_eq ▸ hplain.separable.typeName_ne
  notMem_comma := by
    rw [h.typeName_eq, ← h.describes.names_eq]
    exact hplain.separable.notMem_comma
  isShort_signature := by
    rw [h.typeName_eq, ← h.describes.names_eq]
    exact hshort
  describes t' ht' := by
    rw [h.typeName_eq, ht] at ht'
    cases ht'
    exact h.describes

/-- What a field holds is carried, whatever resolutions the reading end knows, if those that it knows
give back the records in it. -/
theorem carries_field {reads : Registry → Prop} (h : t.Sends g r)
    (hunits : ∀ f ∈ t.fields, f.IsUnit r)
    (hreads : ∀ f ∈ t.fields, f.kind = .object → (f.get r).EveryRecord (ReadsBack reads g))
    {p : String × Value} (hp : p ∈ r.fields) :
    p.2.AllFit g ∧ Carries reads (valueWriter g p.2) (Reader.value maxNesting) p.2 := by
  obtain ⟨f, hf, hget, hholds⟩ := h.describes.exists_field hp
  by_cases hkind : f.kind = .object
  · have hportable := h.portable f hf hkind
    rw [← hget]
    exact ⟨hportable.allFit, .valueOf hportable.allFit (hreads f hf hkind) hportable.wireDepth_le⟩
  · have hunit : ∀ c, p.2 = .char c → c.toNat ≤ 0xFFFF := by
      intro c hc
      have hchar : f.kind = .char := by
        rw [hc] at hholds
        generalize f.kind = kind at hholds hkind
        cases hholds with
        | char => rfl
        | object => exact absurd rfl hkind
      exact hunits f hf hchar c (hget.trans hc)
    obtain ⟨bytes, hbytes⟩ := hholds.exists_fixedBytes? hkind hunit
    exact ⟨Value.allFit_of_fixedBytes? hbytes g, .fixed hbytes⟩

theorem carries (h : t.Sends g r) (hg : g.KeepsLearned) (ht : g.lookup? t.name = some t)
    (hplain : t.IsPlain) (hshort : IsShort t.signature) (hread : t.IsReadBack g)
    (hunits : ∀ f ∈ t.fields, f.IsUnit r) :
    Carries g.Resolves (recordBodyWriter g r) (Reader.record maxNesting) r := by
  have hfits := h.fits ht hplain hshort
  have hself : r.IsReadBack g := by
    intro t' ht'
    rw [h.typeName_eq, ht] at ht'
    cases ht'
    exact hread
  obtain ⟨layout, hlayout, hresolve⟩ := readsBack hg hfits hself
  apply Carries.recordBody hfits hlayout hresolve
  · intro p hp
    apply h.carries_field hunits _ hp
    intro f hf hkind
    have hrecords := (h.portable f hf hkind).allFit.everyRecord (p := RecordOf.Fits g)
      fun r' hr' => hr'
    exact ((h.isReadBack f hf hkind).and hrecords).mono fun r' hr' => readsBack hg hr'.2 hr'.1
  · exact fun _ hs => .nameString hs

end RecordType.Sends

theorem RecordType.sends_probe {g : Registry} {t : RecordType}
    (hnodup : (t.layout.map Prod.fst).Nodup)
    (hfloat : ∀ slot ∈ t.layout, slot.2 ≠ .float ∧ slot.2 ≠ .double) : t.Sends g t.probe where
  typeName_eq := rfl
  describes := ⟨hnodup, List.forall₂_map_right_iff.mpr (List.forall₂_same.mpr fun slot hslot =>
    ⟨rfl, FieldKind.holds_probe (hfloat slot hslot)⟩)⟩
  portable f hf hkind := by
    rw [(RecordType.isAt_probe hf).get_eq, hkind]
    exact ⟨.leaf rfl trivial, by decide⟩
  isReadBack f hf hkind := by
    rw [(RecordType.isAt_probe hf).get_eq, hkind]
    exact .leaf rfl rfl

namespace Wire

variable {g : Registry}

theorem read_reachable {α : Type} {reader : Nat → Reader α}
    (hmade : ∀ levels, (reader levels).Stepwise) (hg : g.Reachable) (d : Decoder)
    (input : List UInt8) : (d.read g reader input).registry.Reachable := by
  have hleads := ((hmade d.budget).leads ⟨d.names, g, input⟩).resolves
  cases hread : reader d.budget ⟨d.names, g, input⟩ with
  | ok a s =>
    rw [Reader.after_of_ok hread] at hleads
    rw [Decoder.read_of_ok hread]
    exact hleads.reachable hg
  | error f s =>
    rw [Reader.after_of_error hread] at hleads
    rw [Decoder.read_of_error hread]
    exact hleads.reachable hg

/-- Whatever was registered, resolved and read before, the records of a type come back exactly if no
resolution of its signature is kept, or one by a type that gives its records back.

`IsShort` and `maxNames` are limits of the format: the length of a signature and the number of a
name are written in 32 bits. -/
theorem records_come_back_iff {g : Registry} (hg : g.Reachable) {t : RecordType}
    (ht : g.lookup? t.name = some t) (hplain : t.IsPlain)
    (hfloat : ∀ slot ∈ t.layout, slot.2 ≠ .float ∧ slot.2 ≠ .double)
    (hshort : IsShort t.signature) :
    (∀ r, t.Sends g r → ∀ e d, Paired e d → ∀ rest,
      let sent := e.write (recordBodyWriter g r)
      let received := d.read g Reader.record (sent.bytes ++ rest)
      sent.failure? = none → sent.encoder.interned ≤ maxNames →
        received.result = .ok (r, rest) ∧ Paired sent.encoder received.decoder ∧
        received.registry.Reachable) ↔
      t.IsReadBack g := by
  constructor
  · intro hback layout hkept
    obtain ⟨u, isShadow, hname, -, rfl⟩ :=
      hg.keepsLearned.layout_of_kept hplain.separable.split_signature hkept
    have hkinds : ∀ f ∈ t.fields, f.kind ≠ .float ∧ f.kind ≠ .double :=
      fun f hf => hfloat _ (RecordType.mem_layout hf)
    obtain ⟨bytes, hwritten⟩ := exists_probe_written ht hkinds
    obtain ⟨hresult, -, -⟩ := hback t.probe (RecordType.sends_probe hplain.nodup hfloat)
      .new .new .new [] (congrArg Written.failure? hwritten) (by
        change (recordBodyWriter g t.probe .empty).names.size ≤ maxNames
        rw [hwritten, NameIndex.size_insert]
        decide)
    obtain ⟨s, hread⟩ := Decoder.exists_of_read hresult
    have hresolve := Registry.resolve_of_lookup hkept
    exact ⟨u, rfl, givesBack_of_probe ht hplain hfloat hshort hname hresolve hread⟩
  · intro hread r hr e d hpair rest sent received hsent hsize
    have hlookup : g.lookup? r.typeName = some t := by rw [hr.typeName_eq, ht]
    have hcarries := hr.carries hg.keepsLearned ht hplain hshort hread
      (isUnit_of_written hlookup hsent)
    obtain ⟨hresult, hpaired, -⟩ := hcarries.read_write hpair .refl hsize rest
    exact ⟨hresult, hpaired,
      read_reachable (fun levels => (Reader.Stepwise.value levels).recordBody) hg d _⟩

/-- A flag that was an object field when its type was resolved first. -/
theorem records_come_back_flag :
    let kept : RecordType := ⟨"Flag", [("on", .object), ("n", .int)]⟩
    let t : RecordType := ⟨"Flag", [("on", .bool), ("n", .int)]⟩
    let g := ((Registry.initial.register kept).resolve "Flag,on,n").2.register t
    let r : Record := ⟨"Flag", [("on", .bool true), ("n", .int 300)]⟩
    (Decoder.new.read g Reader.record
      ((Encoder.new.write (recordBodyWriter g r)).bytes ++ [7])).result = .ok (r, [7]) := by
  intro kept t g r
  have hback : t.IsReadBack g := by
    intro layout hlayout
    cases hlayout
    exact ⟨kept, rfl, rfl, .cons ⟨rfl, .inr ⟨rfl, rfl⟩⟩ (.cons ⟨rfl, .inl rfl⟩ .nil)⟩
  have hsends : t.Sends g r :=
    .of_primitive rfl ⟨by decide, .cons ⟨rfl, .bool true⟩ (.cons ⟨rfl, .int 300⟩ .nil)⟩ (by decide)
  have hreachable : g.Reachable := .register t (.resolve "Flag,on,n" (.register kept .initial))
  have hiff := records_come_back_iff hreachable (t := t) rfl ⟨⟨by decide, by decide⟩, by decide⟩
    (by decide) (by decide +kernel)
  exact (hiff.mpr hback r hsends .new .new .new [7] (by decide +kernel) (by decide +kernel)).1

/-- A number whose field was of one byte when its type was resolved first is cut to that byte. -/
theorem kept_byte_field_cuts :
    let kept : RecordType := ⟨"Cell", [("n", .byte)]⟩
    let t : RecordType := ⟨"Cell", [("n", .int)]⟩
    let g := ((Registry.initial.register kept).resolve "Cell,n").2.register t
    let r : Record := ⟨"Cell", [("n", .int 300)]⟩
    let sent := Encoder.new.write (recordBodyWriter g r)
    g.Reachable ∧ g.lookup? r.typeName = some t ∧ t.IsPlain ∧ t.Sends g r ∧
      sent.failure? = none ∧
      (Decoder.new.read g Reader.record sent.bytes).result = .ok (⟨"Cell", [("n", .byte 44)]⟩, []) := by
  intro kept t g r sent
  have hreachable : g.Reachable := .register t (.resolve "Cell,n" (.register kept .initial))
  have hsends : t.Sends g r :=
    .of_primitive rfl ⟨by decide, .cons ⟨rfl, .int 300⟩ .nil⟩ (by decide)
  exact ⟨hreachable, rfl, ⟨⟨by decide, by decide⟩, by decide⟩, hsends, by decide +kernel,
    by decide +kernel⟩

end Wire

end RemoteCall
