import RemoteCall.Proofs.Value.Legible
import RemoteCall.Proofs.Wire.Compact
import RemoteCall.Proofs.Wire.Yields

/-!
# Relays

A relay reads values and writes them again. It need not know the types of the records in them: a
record of a type it does not know is read with all its fields, each as the value in its place, and
is written as that. So what the relay writes is what it has read, byte for byte and name for name,
however many values pass through it.
-/

namespace RemoteCall

open Wire

namespace Registry

variable {g : Registry}

/-- A registry that came about by any registrations but of the type of relayed failures. -/
inductive KeepsBuiltin : Registry → Prop
  | initial : KeepsBuiltin .initial
  | register {g : Registry} (t : RecordType) (h : KeepsBuiltin g)
    (hne : t.name ≠ RemoteFailure.typeName) : KeepsBuiltin (g.register t)
  | resolve {g : Registry} (signature : String) (h : KeepsBuiltin g) :
    KeepsBuiltin (g.resolve signature).2

theorem KeepsBuiltin.lookup? (h : g.KeepsBuiltin) :
    g.lookup? RemoteFailure.typeName = some RemoteFailure.recordType := by
  induction h with
  | initial => rfl
  | register t _ hne ih => rw [lookup?_register_of_ne hne.symm, ih]
  | resolve signature _ ih => rw [lookup?_resolve, ih]

def HoldsOnly (g : Registry) (builtin : String) : Prop :=
  ∀ signature layout, g.resolved.lookup signature = some layout →
    ∃ typeName names, Text.split ',' signature = typeName :: names ∧
      (g.lookup? typeName).isSome ∧
      (typeName = builtin → layout = g.layoutOf signature typeName names)

theorem HoldsOnly.register {builtin : String} (hg : g.HoldsOnly builtin) {t : RecordType}
    (hne : t.name ≠ builtin) : (g.register t).HoldsOnly builtin := by
  intro signature layout hs
  obtain ⟨typeName, names, hsplit, hsome, hlayout⟩ := hg signature layout hs
  by_cases hname : typeName = t.name
  · refine ⟨typeName, names, hsplit, ?_, fun hbuiltin => ?_⟩
    · simp [lookup?, Registry.register, hname]
    · exact absurd (hname.symm.trans hbuiltin) hne
  · have hlookup : (g.register t).lookup? typeName = g.lookup? typeName :=
      lookup?_register_of_ne hname
    refine ⟨typeName, names, hsplit, by rwa [hlookup], fun hbuiltin => ?_⟩
    rw [hlayout hbuiltin, layoutOf, layoutOf, hlookup]

theorem HoldsOnly.resolve {builtin : String} (hg : g.HoldsOnly builtin) (signature : String) :
    (g.resolve signature).2.HoldsOnly builtin := by
  have hlookup := lookup?_resolve g signature
  have h := g.resolvesTo signature
  generalize g.resolve signature = outcome at h hlookup ⊢
  cases h with
  | @learned typeName names hsplit _ hknown =>
    intro s layout hs
    by_cases hsig : s = signature
    · subst hsig
      rw [List.lookup_cons_self, Option.some.injEq] at hs
      refine ⟨typeName, names, hsplit, hknown, fun _ => ?_⟩
      rw [layoutOf_congr hlookup, hs]
    · rw [List.lookup_cons, beq_eq_false_iff_ne.mpr hsig] at hs
      exact hg s layout hs
  | _ => exact hg

theorem KeepsBuiltin.holdsOnly (h : g.KeepsBuiltin) : g.HoldsOnly RemoteFailure.typeName := by
  induction h with
  | initial =>
    intro signature layout hs
    cases hs
  | register t _ hne ih => exact ih.register hne
  | resolve signature _ ih => exact ih.resolve signature

/-- A signature of a type that is not known, or always was as it is, is resolved anew. -/
theorem HoldsOnly.resolve_of_split {builtin : String} (hg : g.HoldsOnly builtin)
    {signature typeName : String} {names : List String}
    (hsplit : Text.split ',' signature = typeName :: names) (hne : typeName ≠ "")
    (h : g.lookup? typeName = none ∨ typeName = builtin) :
    (g.resolve signature).1 = .ok (g.layoutOf signature typeName names) := by
  have hcases := g.resolvesTo signature
  generalize g.resolve signature = outcome at hcases ⊢
  cases hcases with
  | kept hkept =>
    obtain ⟨typeName', names', hsplit', hsome, hlayout⟩ := hg _ _ hkept
    cases hsplit.symm.trans hsplit'
    rcases h with hnone | hbuiltin
    · rw [hnone] at hsome
      cases hsome
    · rw [hlayout hbuiltin]
  | refused hrefused => exact absurd (hrefused _ _ hsplit) hne
  | dynamic hsplit' | learned hsplit' =>
    cases hsplit.symm.trans hsplit'
    rfl

/-- The relay knows none of the types of the origin but the type of relayed failures, which both
know alike, and the names of these types can be told apart. -/
structure IsRelayFor (relay origin : Registry) : Prop where
  keepsBuiltin : relay.KeepsBuiltin
  lookup?_builtin : origin.lookup? RemoteFailure.typeName = some RemoteFailure.recordType
  unknown : ∀ t ∈ origin.types, t.name ≠ RemoteFailure.typeName → relay.lookup? t.name = none
  separable : ∀ t ∈ origin.types, Separable t.name (t.layout.map Prod.fst)

end Registry

/-- If the origin does not know the type of the record, neither does the relay, and its names can be
told apart. -/
def RecordOf.IsForeign (relay origin : Registry) (r : Record) : Prop :=
  origin.lookup? r.typeName = none →
    relay.lookup? r.typeName = none ∧ Separable r.typeName r.names

def Field.inPlace (f : Field) (r : Record) : Value :=
  match f.untyped r with
  | .ok v => v
  | .error _ => .null

theorem Field.everyRecord_inPlace {p : Record → Prop} {r : Record} (f : Field)
    (hr : ∀ w name, (name, w) ∈ r.fields → w.EveryRecord p) : (f.inPlace r).EveryRecord p := by
  have hnull : Value.null.EveryRecord p := Value.everyRecord_of_fixedBytes? rfl p
  unfold inPlace
  cases hv : f.untyped r with
  | error e => exact hnull
  | ok v =>
    dsimp only
    by_cases hkind : f.kind = .object
    · rw [untyped_object hkind] at hv
      cases hv
      rw [get]
      cases hslot : r.slot? f.index f.name with
      | none => exact hnull
      | some w =>
        obtain ⟨name, hmem⟩ := RecordOf.mem_of_slot? hslot
        exact hr w name hmem
    · obtain ⟨bytes, hfixed⟩ := exists_fixedBytes? hkind hv
      exact Value.everyRecord_of_fixedBytes? hfixed p

def RecordType.inPlace (t : RecordType) (r : Record) : List (String × Value) :=
  t.fields.map fun f => (f.name, f.inPlace r)

namespace Wire

def freeWriter (g : Registry) (typeName : String) (fields : List (String × Value)) : Writer :=
  .name (signatureOf typeName (fields.map Prod.fst)) ++
    .concat (fields.map fun field => valueWriter g field.2)

section Free

variable {g : Registry} {r : Record} {t : RecordType}

theorem recordWriter_of_unknown (h : g.lookup? r.typeName = none) :
    recordWriter g r (namedWriters g r.fields) = freeWriter g r.typeName r.fields := by
  rw [recordWriter, h, sequenceOf_eq, namedWriters_eq, List.map_map]
  rfl

theorem map_fst_inPlace (t : RecordType) (r : Record) :
    (t.inPlace r).map Prod.fst = t.layout.map Prod.fst := by
  rw [RecordType.inPlace, List.map_map, ← RecordType.map_name_fieldsFrom t.layout 0,
    ← RecordType.fields_eq]
  rfl

/-- A record of a known type is written with the values in the places of its fields, or not at
all. -/
theorem recordWriter_of_known (h : g.lookup? r.typeName = some t) {e : NameIndex}
    (hwritten : (recordWriter g r (namedWriters g r.fields) e).failure? = none) :
    recordWriter g r (namedWriters g r.fields) = freeWriter g r.typeName (t.inPlace r) := by
  simp only [recordWriter, h, fieldWriters_eq] at hwritten ⊢
  have hfields : t.fields.map (fieldWriter r ⟨r.typeName, namedWriters g r.fields⟩) =
      (t.inPlace r).map fun field => valueWriter g field.2 := by
    rw [RecordType.inPlace, List.map_map]
    refine List.map_congr_left fun f hf => ?_
    obtain ⟨-, hconcat⟩ := Writer.failure?_of_append hwritten
    obtain ⟨e', he'⟩ := Writer.failure?_of_concat hconcat _ (List.mem_map_of_mem hf)
    cases hv : f.untyped r with
    | error failure =>
      rw [fieldWriter_of_error hv] at he'
      cases he'
    | ok v => simp only [fieldWriter_of_ok hv, Function.comp, Field.inPlace, hv]
  rw [hfields, freeWriter, map_fst_inPlace, RecordType.signature, Registry.name_of_lookup? h]

/-- A record that is laid out by its type has in each field the value at its position. -/
theorem map_get_fields (hnames : t.layout.map Prod.fst = r.names) :
    t.fields.map (·.get r) = r.fields.map Prod.snd := by
  refine List.ext_getElem? fun i => ?_
  have hname : t.layout[i]?.map Prod.fst = r.fields[i]?.map Prod.fst := by
    rw [← List.getElem?_map, ← List.getElem?_map, hnames, RecordOf.names]
  simp only [RecordType.fields, List.getElem?_map, List.getElem?_zipIdx, Option.map_map]
  cases hslot : t.layout[i]? with
  | none =>
    rw [hslot, Option.map_none, eq_comm, Option.map_eq_none_iff] at hname
    rw [hname]
    rfl
  | some slot =>
    rw [hslot, Option.map_some, eq_comm, Option.map_eq_some_iff] at hname
    obtain ⟨field, hfield, hfst⟩ := hname
    have hat : Field.IsAt ⟨slot.1, slot.2, i⟩ r field.2 := by
      rw [Field.IsAt, hfield, ← hfst]
    simp only [hfield, Option.map_some, Function.comp, Nat.zero_add, hat.get_eq]

/-- A record of a type with object fields only is written with the fields it has. -/
theorem recordWriter_of_objects (h : g.lookup? r.typeName = some t)
    (hobjects : ∀ slot ∈ t.layout, slot.2 = .object) (hnames : t.layout.map Prod.fst = r.names) :
    recordWriter g r (namedWriters g r.fields) = freeWriter g r.typeName r.fields := by
  have hwriters : t.fields.map (fieldWriter r ⟨r.typeName, namedWriters g r.fields⟩) =
      r.fields.map fun field => valueWriter g field.2 := by
    have hget := congrArg (List.map (valueWriter g)) (map_get_fields hnames)
    rw [List.map_map, List.map_map] at hget
    refine (List.map_congr_left fun f hf => ?_).trans hget
    have hkind : f.kind = .object := by
      obtain ⟨⟨slot, index⟩, hslot, rfl⟩ := List.mem_map.mp hf
      exact hobjects slot (List.fst_mem_of_mem_zipIdx hslot)
    exact fieldWriter_of_ok (Field.untyped_object hkind r)
  simp only [recordWriter, h, fieldWriters_eq, hwriters]
  rw [freeWriter, RecordType.signature, Registry.name_of_lookup? h, hnames, RecordOf.names]

end Free

theorem keyOr_eq (w : Writer) (v : Value) : keyOr w v = (v.string?.map Writer.name).getD w := by
  cases v <;> rfl

theorem map_eq_map_of_forall₂ {α β γ : Type} {p : α → β → Prop} {f : α → γ} {f' : β → γ}
    {as : List α} {bs : List β} (h : List.Forall₂ p as bs) (hf : ∀ a b, p a b → f' b = f a) :
    bs.map f' = as.map f := by
  rw [eq_comm, ← List.forall₂_eq_eq_eq, List.forall₂_map_left_iff, List.forall₂_map_right_iff]
  exact h.imp fun a b hab => (hf a b hab).symm

end Wire

structure Value.PassesAs (relay origin : Registry) (v v' : Value) : Prop where
  writer_eq : valueWriter relay v' = valueWriter origin v
  string?_eq : v'.string? = v.string?

namespace Value.PassesAs

variable {relay origin : Registry} {v v' k k' : Value} {vs vs' : List Value}

theorem keyOr_eq (h : v.PassesAs relay origin v') :
    keyOr (valueWriter relay v') v' = keyOr (valueWriter origin v) v := by
  rw [Wire.keyOr_eq, Wire.keyOr_eq, h.string?_eq, h.writer_eq]

theorem fixed {bytes : List UInt8} (h : v.fixedBytes? = some bytes) :
    v.PassesAs relay origin v :=
  ⟨by rw [valueWriter_of_fixedBytes? h, valueWriter_of_fixedBytes? h], rfl⟩

theorem array (component : String) (h : List.Forall₂ (PassesAs relay origin) vs vs') :
    (Value.array component vs).PassesAs relay origin (.array component vs') := by
  refine ⟨?_, rfl⟩
  rw [valueWriter, valueWriter, itemsWriter_eq, itemsWriter_eq, h.length_eq,
    map_eq_map_of_forall₂ h fun _ _ hv => hv.writer_eq]

theorem list (h : List.Forall₂ (PassesAs relay origin) vs vs') :
    (Value.list vs).PassesAs relay origin (.list vs') := by
  refine ⟨?_, rfl⟩
  rw [valueWriter, valueWriter, keysWriter_eq, keysWriter_eq, h.length_eq,
    map_eq_map_of_forall₂ h fun _ _ hv => hv.keyOr_eq]

theorem set (h : List.Forall₂ (PassesAs relay origin) vs vs') :
    (Value.set vs).PassesAs relay origin (.set vs') := by
  refine ⟨?_, rfl⟩
  rw [valueWriter, valueWriter, keysWriter_eq, keysWriter_eq, h.length_eq,
    map_eq_map_of_forall₂ h fun _ _ hv => hv.keyOr_eq]

def Both (relay origin : Registry) (p p' : Value × Value) : Prop :=
  p.1.PassesAs relay origin p'.1 ∧ p.2.PassesAs relay origin p'.2

theorem map {entries entries' : List (Value × Value)}
    (h : List.Forall₂ (Both relay origin) entries entries') :
    (Value.map entries).PassesAs relay origin (.map entries') := by
  refine ⟨?_, rfl⟩
  rw [valueWriter, valueWriter, entriesWriter_eq, entriesWriter_eq, h.length_eq,
    map_eq_map_of_forall₂ h fun _ _ hp => by rw [hp.1.keyOr_eq, hp.2.writer_eq]]

theorem entry (hk : k.PassesAs relay origin k') (hv : v.PassesAs relay origin v') :
    (Value.entry k v).PassesAs relay origin (.entry k' v') :=
  ⟨by rw [valueWriter, valueWriter, hk.keyOr_eq, hv.writer_eq], rfl⟩

theorem enum {e e' : EnumName} (h : e'.wireName = e.wireName) :
    (Value.enum e).PassesAs relay origin (.enum e') := ⟨by rw [valueWriter, valueWriter, h], rfl⟩

theorem record {r r' : Record}
    (h : recordWriter relay r' (namedWriters relay r'.fields) =
      recordWriter origin r (namedWriters origin r.fields)) :
    (Value.record r).PassesAs relay origin (.record r') :=
  ⟨congrArg (Writer.emit [Tag.record.byte] ++ ·) h, rfl⟩

end Value.PassesAs

namespace Wire

variable {relay origin : Registry} {v : Value} {budget : Nat}

def FieldPassesAs (relay origin : Registry) (field field' : String × Value) : Prop :=
  field'.1 = field.1 ∧ field.2.PassesAs relay origin field'.2

theorem freeWriter_eq {fields fields' : List (String × Value)} (typeName : String)
    (h : List.Forall₂ (FieldPassesAs relay origin) fields fields') :
    freeWriter relay typeName fields' = freeWriter origin typeName fields := by
  rw [freeWriter, freeWriter, map_eq_map_of_forall₂ h fun _ _ hf => hf.1,
    map_eq_map_of_forall₂ h fun _ _ hf => hf.2.writer_eq]

def Passes (relay origin : Registry) (budget : Nat) (v : Value) : Prop :=
  Yields relay (valueWriter origin v) (Reader.value budget) (v.PassesAs relay origin)

namespace Passes

theorem key (h : Passes relay origin budget v) :
    Yields relay (keyOr (valueWriter origin v) v) (Reader.value budget)
      (v.PassesAs relay origin) := by
  cases v with
  | string x =>
    refine (Yields.nameValue x budget).mono fun v hv => ?_
    subst hv
    exact ⟨rfl, rfl⟩
  | _ => exact h

theorem fixed {bytes : List UInt8} (h : v.fixedBytes? = some bytes) :
    Passes relay origin (budget + 1) v := by
  rw [Passes, valueWriter_of_fixedBytes? h]
  refine (Yields.fixed h).mono fun v' hv' => ?_
  subst hv'
  exact .fixed h

theorem char (c : Char) : Passes relay origin (budget + 1) (.char c) := by
  by_cases hc : c.toNat ≤ 0xFFFF
  · exact fixed (if_pos hc)
  · rw [Passes, valueWriter, charWriter, if_neg hc]
    exact .fail _

theorem string (s : String) : Passes relay origin (budget + 1) (.string s) := by
  refine Yields.leaf ((Yields.stringBody s).map _ fun x hx => ?_)
  subst hx
  exact ⟨rfl, rfl⟩

theorem bytes (data : List UInt8) : Passes relay origin (budget + 1) (.bytes data) := by
  refine Yields.leaf ((Yields.byteData data).map _ fun x hx => ?_)
  subst hx
  exact ⟨rfl, rfl⟩

theorem foreign (data : List UInt8) : Passes relay origin (budget + 1) (.foreign data) := by
  refine Yields.leaf ((Yields.byteData data).map _ fun x hx => ?_)
  subst hx
  exact ⟨rfl, rfl⟩

theorem isItem_keys (items : List Value) :
    ∀ w ∈ items.map fun w => keyOr (valueWriter origin w) w, IsItem w :=
  List.forall_mem_map.mpr fun w _ => (valueWriter_isItem w).keyOr w

section Items

variable {items : List Value} (h : ∀ w ∈ items, Passes relay origin budget w)

include h

theorem array (component : String) :
    Passes relay origin (budget + 1) (.array component items) := by
  have hitems : ∀ w ∈ Writer.name component :: items.map (valueWriter origin), IsItem w :=
    List.forall_mem_cons.mpr ⟨.name _, List.forall_mem_map.mpr fun w _ => valueWriter_isItem w⟩
  have hread := Yields.times h
  rw [Passes, valueWriter, itemsWriter_eq, ← Writer.concat_cons]
  refine .taggedCount hitems (by simp) rfl ?_
  refine (Yields.nameString component budget).bind hread.grows fun x hx => ?_
  subst hx
  exact hread.map _ fun _ hvs => .array x hvs

theorem keys {make : List Value → Value}
    (hmake : ∀ vs, List.Forall₂ (Value.PassesAs relay origin) items vs →
      (make items).PassesAs relay origin (make vs)) :
    Yields relay (.concat (items.map fun w => keyOr (valueWriter origin w) w))
      (Reader.times (Reader.value budget) items.length >>= fun vs => Pure.pure (make vs))
      ((make items).PassesAs relay origin) :=
  (Yields.times fun w hw => (h w hw).key).map make hmake

theorem list : Passes relay origin (budget + 1) (.list items) := by
  rw [Passes, valueWriter, keysWriter_eq]
  exact .taggedCount (isItem_keys items) (by simp) rfl (keys h fun _ => .list)

theorem set : Passes relay origin (budget + 1) (.set items) := by
  rw [Passes, valueWriter, keysWriter_eq]
  exact .taggedCount (isItem_keys items) (by simp) rfl (keys h fun _ => .set)

end Items

theorem map {entries : List (Value × Value)}
    (h : ∀ w ∈ (Value.map entries).children, Passes relay origin budget w) :
    Passes relay origin (budget + 1) (.map entries) := by
  have hpair : ∀ entry ∈ entries,
      Yields relay (keyOr (valueWriter origin entry.1) entry.1 ++ valueWriter origin entry.2)
        (Reader.pair (Reader.value budget) (Reader.value budget))
        (Value.PassesAs.Both relay origin entry) := by
    intro entry hentry
    obtain ⟨hk, hv⟩ := Value.mem_children_of_entry hentry
    exact (h entry.1 hk).key.bind (h entry.2 hv).grows fun k hk' =>
      Yields.map (h entry.2 hv) _ fun w hw' => ⟨hk', hw'⟩
  have hentries := (Yields.times hpair).map Value.map fun _ h => Value.PassesAs.map h
  rw [Passes, valueWriter, entriesWriter_eq_concat]
  refine .taggedCount ?_ (by simp [List.length_flatMap]; omega) rfl ?_
  · intro w hw
    obtain ⟨entry, -, hw⟩ := List.mem_flatMap.mp hw
    rcases List.mem_pair.mp hw with rfl | rfl
    · exact (valueWriter_isItem entry.1).keyOr entry.1
    · exact valueWriter_isItem entry.2
  · rw [← entriesWriter_eq_concat, entriesWriter_eq]
    exact hentries

theorem entry {k w : Value} (hk : Passes relay origin budget k)
    (hw : Passes relay origin budget w) : Passes relay origin (budget + 1) (.entry k w) :=
  .tagged (hk.key.bind hw.grows fun _ hk' => Yields.map hw _ fun _ hw' => .entry hk' hw')

theorem enum (e : EnumName) : Passes relay origin (budget + 1) (.enum e) := by
  obtain ⟨e', hname, hwire⟩ := Reader.exists_enumName e
  refine .tagged ((Yields.nameString e.wireName budget).thenQuiet fun x hx => ?_)
  subst hx
  rw [hname]
  exact .pure (.enum hwire)

theorem typeByName (name : String) : Passes relay origin (budget + 1) (.typeByName name) := by
  refine .tagged ((Yields.nameString name budget).map _ fun x hx => ?_)
  subst hx
  exact ⟨rfl, rfl⟩

theorem typeBySignature (signature : String) :
    Passes relay origin (budget + 1) (.typeBySignature signature) := by
  refine .tagged ((Yields.nameString signature budget).map _ fun x hx => ?_)
  subst hx
  exact ⟨rfl, rfl⟩

theorem free (h : relay.IsRelayFor origin) {typeName : String} {fields : List (String × Value)}
    (hsep : Separable typeName (fields.map Prod.fst))
    (hknown : relay.lookup? typeName = none ∨ typeName = RemoteFailure.typeName ∧
      RemoteFailure.recordType.layout.map Prod.fst = fields.map Prod.fst)
    (hfields : ∀ field ∈ fields, Passes relay origin budget field.2) :
    Yields relay (freeWriter origin typeName fields) (Reader.record budget) fun r' =>
      recordWriter relay r' (namedWriters relay r'.fields) =
        freeWriter origin typeName fields := by
  have hresolve := h.keepsBuiltin.holdsOnly.resolve_of_split hsep.split_signature hsep.typeName_ne
    (hknown.imp_right And.left)
  have hgrows : (Writer.concat (fields.map fun field => valueWriter origin field.2)).Grows :=
    .concat (List.forall_mem_map.mpr fun field _ => (valueWriter_isItem field.2).grows)
  refine (Yields.nameString _ budget).bind hgrows fun signature hsignature => ?_
  subst hsignature
  refine (Yields.resolve hresolve).quietThen hgrows fun layout hlayout => ?_
  subst hlayout
  rcases hknown with hnone | ⟨rfl, hnames⟩
  · have hpushes := Yields.pushes hfields (.empty typeName)
    simp only [Registry.layoutOf, hnone, WireLayout.isDynamic, WireLayout.blank,
      Option.isNone_none, List.map_map]
    refine hpushes.mono fun r' hr' => ?_
    obtain ⟨more, rfl, hmore⟩ := hr'
    have hwriter := recordWriter_of_unknown (g := relay) (r := ⟨typeName, more⟩) hnone
    exact hwriter.trans (freeWriter_eq typeName hmore)
  · have hlookup := h.keepsBuiltin.lookup?
    have hobjects : ∀ slot ∈ RemoteFailure.recordType.layout, slot.2 = .object := by decide
    have hstores := Yields.objects hobjects hnames hfields RemoteFailure.typeName []
    simp only [Registry.layoutOf, hlookup, WireLayout.isDynamic, WireLayout.blank,
      Option.isNone_some, ← hnames]
    rw [RecordType.slots_eq (by decide)]
    refine hstores.mono fun r' hr' => ?_
    obtain ⟨more, rfl, hmore⟩ := hr'
    have hwriter := recordWriter_of_objects (r := ⟨RemoteFailure.typeName, more⟩) hlookup hobjects
      (hnames.trans (map_eq_map_of_forall₂ hmore fun _ _ hf => hf.1).symm)
    exact hwriter.trans (freeWriter_eq _ hmore)

/-- A record is written in a form that does not show whether its type is known. -/
theorem exists_freeWriter (h : relay.IsRelayFor origin) {r : Record}
    (hr : (Value.record r).EveryRecord (RecordOf.IsForeign relay origin)) {e : NameIndex}
    (hwritten : (recordWriter origin r (namedWriters origin r.fields) e).failure? = none) :
    ∃ fields, recordWriter origin r (namedWriters origin r.fields) =
        freeWriter origin r.typeName fields ∧
      Separable r.typeName (fields.map Prod.fst) ∧
      (relay.lookup? r.typeName = none ∨ r.typeName = RemoteFailure.typeName ∧
        RemoteFailure.recordType.layout.map Prod.fst = fields.map Prod.fst) ∧
      ∀ field ∈ fields, field.2.EveryRecord (RecordOf.IsForeign relay origin) := by
  cases ht : origin.lookup? r.typeName with
  | none =>
    obtain ⟨hunknown, hsep⟩ := hr.self ht
    exact ⟨r.fields, recordWriter_of_unknown ht, hsep, .inl hunknown,
      fun field hfield => hr.child (List.mem_map_of_mem hfield)⟩
  | some t =>
    have hmem := List.mem_of_find?_eq_some ht
    have hname := Registry.name_of_lookup? ht
    refine ⟨t.inPlace r, recordWriter_of_known ht hwritten, ?_, ?_, ?_⟩
    · rw [map_fst_inPlace, ← hname]
      exact h.separable t hmem
    · rw [map_fst_inPlace, ← hname]
      by_cases hbuiltin : t.name = RemoteFailure.typeName
      · have hlookup := h.lookup?_builtin
        rw [← hbuiltin, hname, ht] at hlookup
        cases hlookup
        exact .inr ⟨rfl, rfl⟩
      · exact .inl (h.unknown t hmem hbuiltin)
    · intro field hfield
      obtain ⟨f, -, rfl⟩ := List.mem_map.mp hfield
      exact f.everyRecord_inPlace fun w name hw => hr.child (List.mem_map_of_mem hw)

theorem record (h : relay.IsRelayFor origin) {r : Record}
    (hr : (Value.record r).EveryRecord (RecordOf.IsForeign relay origin))
    (ih : ∀ v : Value, v.EveryRecord (RecordOf.IsForeign relay origin) →
      Passes relay origin budget v) : Passes relay origin (budget + 1) (.record r) := by
  refine .of_written (valueWriter_isItem _).grows fun e hwritten => ?_
  have hbody : (recordWriter origin r (namedWriters origin r.fields) e).failure? = none :=
    (Writer.failure?_of_append hwritten).2
  obtain ⟨fields, hfree, hsep, hknown, hfields⟩ := exists_freeWriter h hr hbody
  have hread := free h hsep hknown fun field hfield => ih _ (hfields field hfield)
  rw [← hfree] at hread
  exact .tagged (hread.map _ fun r' hr' => .record hr')

theorem value (h : relay.IsRelayFor origin) (hv : v.EveryRecord (RecordOf.IsForeign relay origin)) :
    Passes relay origin budget v := by
  induction budget generalizing v with
  | zero => exact ⟨(valueWriter_isItem v).grows, fun _ _ _ _ hr => by cases hr⟩
  | succ budget ih =>
    have hchild : ∀ w ∈ v.children, Passes relay origin budget w := fun w hw => ih (hv.child hw)
    cases v with
    | null | bool | byte | short | int | long | float | double => exact fixed rfl
    | char c => exact char c
    | string s => exact string s
    | bytes data => exact bytes data
    | foreign data => exact foreign data
    | array component items => exact array hchild component
    | list items => exact list hchild
    | set items => exact set hchild
    | map entries => exact map hchild
    | entry k w =>
      obtain ⟨hk, hw⟩ := List.forall_mem_cons.mp hchild
      exact entry hk (List.forall_mem_singleton.mp hw)
    | enum e => exact enum e
    | record r => exact record h hv fun w hw => ih hw
    | typeByName name => exact typeByName name
    | typeBySignature signature => exact typeBySignature signature

end Passes

def Encoder.writeAll (e : Encoder) (g : Registry) : List Value → List Encoding
  | [] => []
  | v :: vs =>
    let written := e.write (valueWriter g v)
    written :: written.encoder.writeAll g vs

/-- The values that a decoder reads, one from each input, each with what it leaves of the input. -/
def Decoder.readAll (d : Decoder) (g : Registry) :
    List (List UInt8) → Except Failure (List (Value × List UInt8))
  | [] => .ok []
  | input :: inputs =>
    let reading := d.read g Reader.value input
    match reading.result with
    | .ok a => (reading.decoder.readAll reading.registry inputs).map (a :: ·)
    | .error f => .error f

/-- A run from encoders and decoders in any state: the relay writes with an encoder that knows the
names the encoder of the origin knows. -/
theorem writeAll_relay (h : relay.IsRelayFor origin) {vs : List Value}
    (hvs : ∀ v ∈ vs, v.EveryRecord (RecordOf.IsForeign relay origin)) {e : Encoder} {d : Decoder}
    {known : Registry} (hfollows : Follows relay e.names d.names known)
    (hwritten : ∀ written ∈ e.writeAll origin vs, written.failure? = none ∧
      written.encoder.interned ≤ maxNames ∧ written.bytes.length < 2 ^ 64)
    {as : List (Value × List UInt8)}
    (hread : d.readAll known ((e.writeAll origin vs).map Encoding.bytes) = .ok as) :
    e.writeAll relay (as.map Prod.fst) = e.writeAll origin vs ∧ ∀ a ∈ as, a.2 = [] := by
  induction vs generalizing e d known as with
  | nil =>
    cases hread
    exact ⟨rfl, nofun⟩
  | cons v vs ih =>
    rw [List.forall_mem_cons] at hvs
    simp only [Encoder.writeAll, List.map_cons, Decoder.readAll] at hwritten hread
    rw [List.forall_mem_cons] at hwritten
    obtain ⟨⟨hok, hsize, hlt⟩, hwritten⟩ := hwritten
    cases hvalue : Reader.value d.budget
        ⟨d.names, known, (e.write (valueWriter origin v)).bytes⟩ with
    | error f t =>
      rw [Decoder.read_of_error hvalue] at hread
      cases hread
    | ok v' t =>
      rw [Decoder.read_of_ok hvalue] at hread
      rw [← List.append_nil (e.write _).bytes] at hvalue
      obtain ⟨hpasses, hinput, hfollows'⟩ :=
        (Passes.value h hvs.1).read hfollows hok hsize hlt hvalue
      have hsame : e.write (valueWriter relay v') = e.write (valueWriter origin v) := by
        rw [hpasses.writer_eq]
      cases hrest : Decoder.readAll ⟨t.names, d.depth⟩ t.registry
          (((e.write (valueWriter origin v)).encoder.writeAll origin vs).map Encoding.bytes) with
      | error f =>
        simp only [hrest] at hread
        cases hread
      | ok as' =>
        simp only [hrest] at hread
        cases hread
        obtain ⟨hframes, hempty⟩ := ih hvs.2 hfollows' hwritten hrest
        refine ⟨?_, List.forall_mem_cons.mpr ⟨hinput, hempty⟩⟩
        simp only [List.map_cons, Encoder.writeAll, hsame, hframes]

/-- What a relay writes for the values it has read is what it has read, frame by frame, as long as
the names fit the indexes. -/
theorem relay_writes_what_it_reads (h : relay.IsRelayFor origin) {vs : List Value}
    (hvs : ∀ v ∈ vs, v.EveryRecord (RecordOf.IsForeign relay origin))
    (hwritten : ∀ written ∈ Encoder.new.writeAll origin vs, written.failure? = none ∧
      written.encoder.interned ≤ maxNames ∧ written.bytes.length < 2 ^ 64)
    {as : List (Value × List UInt8)}
    (hread : Decoder.new.readAll relay ((Encoder.new.writeAll origin vs).map Encoding.bytes) =
      .ok as) :
    Encoder.new.writeAll relay (as.map Prod.fst) = Encoder.new.writeAll origin vs ∧
      ∀ a ∈ as, a.2 = [] :=
  writeAll_relay h hvs ⟨NameIndex.empty_agrees, .refl⟩ hwritten hread

/-- A record with a field of each sort of kind, which the relay does not know, and behind it a list
with the same name, a failure and a record that neither end knows. -/
theorem relay_writes_what_it_reads_point :
    let point : RecordType := ⟨"Point", [("x", .double), ("y", .float), ("n", .long), ("ok", .bool),
      ("mark", .char), ("label", .object)]⟩
    let origin := Registry.initial.register point
    let vs := [Value.record ⟨"Point", [("x", .double ⟨0x4004000000000000⟩),
        ("y", .float ⟨0x40000000⟩), ("n", .long 300), ("ok", .bool true), ("mark", .char 'x'),
        ("label", .string "a")]⟩,
      .list [.string "a", .record ⟨RemoteFailure.typeName, [("kind", .string "Io")]⟩,
        .record ⟨"Pair", [("left", .null), ("right", .null)]⟩]]
    ∃ as, Decoder.new.readAll .initial ((Encoder.new.writeAll origin vs).map Encoding.bytes) =
        .ok as ∧
      Encoder.new.writeAll .initial (as.map Prod.fst) = Encoder.new.writeAll origin vs := by
  intro point origin vs
  have hrelay : Registry.IsRelayFor .initial origin := by
    refine ⟨.initial, by decide, by decide, ?_⟩
    exact List.forall_mem_cons.mpr ⟨⟨by decide, by decide⟩,
      List.forall_mem_singleton.mpr ⟨by decide, by decide⟩⟩
  have hknown : ∀ r : Record, (origin.lookup? r.typeName).isSome →
      r.IsForeign .initial origin := fun r hr hnone => by
    rw [hnone] at hr
    cases hr
  have hvs : ∀ v ∈ vs, v.EveryRecord (RecordOf.IsForeign .initial origin) := by
    refine List.forall_mem_cons.mpr ⟨?_, List.forall_mem_singleton.mpr ?_⟩
    · refine .intro (fun r hr => ?_) fun w hw => ?_
      · cases hr
        exact hknown _ rfl
      · simp only [Value.children, List.map_cons, List.map_nil, List.mem_cons,
          List.not_mem_nil, or_false] at hw
        rcases hw with rfl | rfl | rfl | rfl | rfl | rfl <;> exact .leaf rfl rfl
    · refine .intro nofun fun w hw => ?_
      simp only [Value.children, List.mem_cons, List.not_mem_nil, or_false] at hw
      rcases hw with rfl | rfl | rfl
      · exact .leaf rfl rfl
      · refine .intro (fun r hr => ?_) (List.forall_mem_singleton.mpr (.leaf rfl rfl))
        cases hr
        exact hknown _ rfl
      · refine .intro (fun r hr => ?_) (List.forall_mem_cons.mpr
          ⟨.leaf rfl rfl, List.forall_mem_singleton.mpr (.leaf rfl rfl)⟩)
        cases hr
        exact fun _ => ⟨by decide, by decide, by decide⟩
  have hok : (Decoder.new.readAll .initial
      ((Encoder.new.writeAll origin vs).map Encoding.bytes)).toOption.isSome = true := by
    decide +kernel
  cases hread : Decoder.new.readAll .initial
      ((Encoder.new.writeAll origin vs).map Encoding.bytes) with
  | error f =>
    rw [hread] at hok
    cases hok
  | ok as =>
    exact ⟨as, rfl, (relay_writes_what_it_reads hrelay hvs (by decide +kernel) hread).1⟩

end Wire

end RemoteCall
