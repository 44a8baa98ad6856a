import RemoteCall.Proofs.Value.Identity
import RemoteCall.Proofs.Wire.Evolution
import RemoteCall.Proofs.Wire.Steps

/-!
# What is received can be sent

A decoder accepts far more than an encoder produces: numbers and lengths of any width, records of
unknown types, records that lack fields of their type or have others. But all that it accepts, it
takes for values that an encoder writes: names it knows are short because it read them, and what it
completes with zeros or drops leaves a record with the fields of its type. So whatever was received
can be sent, and arrives as it was.
-/

namespace RemoteCall

open Wire

/-- A registry whose types keep what their fields are given: they can be told apart on the wire,
none has a floating point field, and none has a signature too long to be read. The last is a limit
of the format, which writes the length of a signature in 32 bits. -/
structure Registry.IsExact (g : Registry) : Prop where
  isCurrent : g.IsCurrent
  isPlain : g.IsPlain
  not_float : ∀ t ∈ g.types, ∀ slot ∈ t.layout, slot.2 ≠ .float ∧ slot.2 ≠ .double
  isShort_signature : ∀ t ∈ g.types, IsShort t.signature

theorem FieldKind.holds_zero {kind : FieldKind} (h : kind ≠ .float ∧ kind ≠ .double) :
    kind.Holds kind.zero := by
  cases kind with
  | float => exact absurd rfl h.1
  | double => exact absurd rfl h.2
  | _ => constructor

theorem Registry.IsExact.initial : Registry.initial.IsExact where
  isCurrent := Registry.Grown.initial.isCurrent
  isPlain := .initial
  not_float := by decide
  isShort_signature t ht := by
    cases List.mem_singleton.mp ht
    unfold IsShort
    decide +kernel

structure Value.Within (g : Registry) (levels : Nat) (v : Value) : Prop where
  allFit : v.AllFit g
  wireDepth_le : v.wireDepth ≤ levels

namespace Value.Within

variable {g : Registry} {levels : Nat}

theorem leaf {v : Value} (hchildren : v.children = []) (hdepth : v.wireDepth = 1) (hv : v.Fits g)
    (hlevels : 0 < levels) : v.Within g levels where
  allFit := .leaf hchildren hv
  wireDepth_le := by omega

theorem string {s : String} (hs : IsShort s) : (Value.string s).Within g (levels + 1) :=
  leaf rfl rfl hs (Nat.succ_pos levels)

theorem zero (kind : FieldKind) (hlevels : 0 < levels) : kind.zero.Within g levels := by
  cases kind with
  | char => exact leaf rfl rfl (show (Char.ofNat 0).toNat ≤ 0xFFFF by decide) hlevels
  | _ => exact leaf rfl rfl trivial hlevels

theorem of_holds {kind : FieldKind} {v : Value} (h : kind.Holds v) (hkind : kind ≠ .object)
    (hunit : ∀ c, v = .char c → c.toNat ≤ 0xFFFF) (hlevels : 0 < levels) : v.Within g levels := by
  cases h with
  | char c => exact leaf rfl rfl (hunit c rfl) hlevels
  | object => exact absurd rfl hkind
  | _ => exact leaf rfl rfl trivial hlevels

theorem items {items : List Value} (h : ∀ v ∈ items, v.Within g levels) :
    itemsDepth items ≤ levels :=
  itemsDepth_le fun v hv => (h v hv).wireDepth_le

theorem list {items : List Value} (hlen : items.length ≤ Reader.maxLength)
    (h : ∀ v ∈ items, v.Within g levels) : (Value.list items).Within g (levels + 1) where
  allFit := .intro hlen fun v hv => (h v hv).allFit
  wireDepth_le := Nat.succ_le_succ (Within.items h)

theorem set {items : List Value} (hlen : items.length ≤ Reader.maxLength)
    (h : ∀ v ∈ items, v.Within g levels) : (Value.set items).Within g (levels + 1) where
  allFit := .intro hlen fun v hv => (h v hv).allFit
  wireDepth_le := Nat.succ_le_succ (Within.items h)

theorem array {component : String} {items : List Value} (hcomponent : IsShort component)
    (hlevels : 0 < levels) (hlen : items.length ≤ Reader.maxLength)
    (h : ∀ v ∈ items, v.Within g levels) : (Value.array component items).Within g (levels + 1) where
  allFit := .intro ⟨hcomponent, hlen⟩ fun v hv => (h v hv).allFit
  wireDepth_le := by
    rw [wireDepth]
    exact Nat.succ_le_succ (Nat.max_le.mpr ⟨hlevels, Within.items h⟩)

theorem map {entries : List (Value × Value)} (hlen : entries.length ≤ Reader.maxLength)
    (h : ∀ p ∈ entries, p.1.Within g levels ∧ p.2.Within g levels) :
    (Value.map entries).Within g (levels + 1) where
  allFit := by
    refine .intro hlen fun v hv => ?_
    obtain ⟨p, hp, hv⟩ := List.mem_flatMap.mp hv
    rcases List.mem_pair.mp hv with rfl | rfl
    · exact (h p hp).1.allFit
    · exact (h p hp).2.allFit
  wireDepth_le :=
    Nat.succ_le_succ (entriesDepth_le fun p hp => ⟨(h p hp).1.wireDepth_le, (h p hp).2.wireDepth_le⟩)

theorem entry {key value : Value} (hkey : key.Within g levels) (hvalue : value.Within g levels) :
    (Value.entry key value).Within g (levels + 1) where
  allFit := by
    refine .intro trivial fun v hv => ?_
    rcases List.mem_pair.mp hv with rfl | rfl
    · exact hkey.allFit
    · exact hvalue.allFit
  wireDepth_le := by
    rw [wireDepth]
    exact Nat.succ_le_succ (Nat.max_le.mpr ⟨hkey.wireDepth_le, hvalue.wireDepth_le⟩)

theorem record {r : Record} (hr : r.Fits g) (hlevels : 0 < levels)
    (h : ∀ p ∈ r.fields, p.2.Within g levels) : (Value.record r).Within g (levels + 1) where
  allFit := by
    refine .intro hr fun v hv => ?_
    obtain ⟨p, hp, rfl⟩ := List.mem_map.mp hv
    exact (h p hp).allFit
  wireDepth_le := by
    rw [wireDepth]
    exact Nat.succ_le_succ
      (Nat.max_le.mpr ⟨hlevels, fieldsDepth_le fun p hp => (h p hp).wireDepth_le⟩)

end Value.Within

namespace RecordType

variable {t : RecordType} {g : Registry} {levels : Nat}

def Accepts (t : RecordType) (g : Registry) (levels : Nat) (value? : String → Option Value) :
    Prop :=
  ∀ f ∈ t.fields, ∀ v, value? f.name = some v → f.kind.Holds v ∧ v.Within g levels

theorem eq_of_name_eq (hnodup : (t.layout.map Prod.fst).Nodup) {f f' : Field} (hf : f ∈ t.fields)
    (hf' : f' ∈ t.fields) (hname : f'.name = f.name) : f' = f := by
  have hfield := field?_name hnodup hf'
  rw [hname, field?_name hnodup hf] at hfield
  exact (Option.some.inj hfield).symm

theorem Accepts.update {value? : String → Option Value} (h : t.Accepts g levels value?)
    (hnodup : (t.layout.map Prod.fst).Nodup) {f : Field} (hf : f ∈ t.fields) {v : Value}
    (hholds : f.kind.Holds v) (hv : v.Within g levels) :
    t.Accepts g levels (Function.update value? f.name (some v)) := by
  intro f' hf' w hw
  by_cases hname : f'.name = f.name
  · obtain rfl := eq_of_name_eq hnodup hf hf' hname
    rw [Function.update_self] at hw
    cases hw
    exact ⟨hholds, hv⟩
  · rw [Function.update_of_ne hname] at hw
    exact h f' hf' w hw

theorem exists_field {slot : String × FieldKind} (h : slot ∈ t.layout) :
    ∃ f ∈ t.fields, f.name = slot.1 ∧ f.kind = slot.2 := by
  obtain ⟨i, hi⟩ := List.mem_iff_getElem?.mp h
  exact ⟨_, mem_fields hi, rfl, rfl⟩

/-- A field that was given nothing holds zero. -/
theorem Accepts.holds {value? : String → Option Value} (h : t.Accepts g levels value?)
    (hfloat : ∀ slot ∈ t.layout, slot.2 ≠ .float ∧ slot.2 ≠ .double) (hlevels : 0 < levels)
    {slot : String × FieldKind} (hslot : slot ∈ t.layout) :
    slot.2.Holds ((value? slot.1).getD slot.2.zero) ∧
      ((value? slot.1).getD slot.2.zero).Within g levels := by
  cases hvalue : value? slot.1 with
  | none => exact ⟨FieldKind.holds_zero (hfloat slot hslot), .zero slot.2 hlevels⟩
  | some v =>
    obtain ⟨f, hf, hname, hkind⟩ := exists_field hslot
    rw [← hkind]
    exact h f hf v (by rw [hname, hvalue])

theorem Accepts.describes {value? : String → Option Value} (h : t.Accepts g levels value?)
    (hnodup : (t.layout.map Prod.fst).Nodup)
    (hfloat : ∀ slot ∈ t.layout, slot.2 ≠ .float ∧ slot.2 ≠ .double) (hlevels : 0 < levels) :
    t.Describes (t.filled value?) := by
  refine ⟨hnodup, List.forall₂_map_right_iff.mpr (List.forall₂_same.mpr fun slot hslot => ?_)⟩
  exact ⟨rfl, (h.holds hfloat hlevels hslot).1⟩

end RecordType

namespace Wire

structure ReadState.Sound (g : Registry) (s : ReadState) : Prop where
  isShort : ∀ name ∈ s.names.names, IsShort name
  readsFor : s.registry.ReadsFor g

theorem ReadState.Sound.leads {g : Registry} {s t : ReadState} (hs : s.Sound g) (h : s.Leads t) :
    t.Sound g where
  isShort name hname := by
    obtain ⟨new, hnew, hshort⟩ := h.names
    rw [hnew, List.mem_append] at hname
    rcases hname with hname | hname
    · exact hs.isShort name hname
    · exact hshort name hname
  readsFor := hs.readsFor.trans h.resolves

namespace Reader

def Gives {α : Type} (g : Registry) (r : Reader α) (p : α → Prop) : Prop :=
  ∀ s a t, s.Sound g → r s = .ok a t → p a

namespace Gives

variable {α β : Type} {g : Registry} {r : Reader α} {p : α → Prop} {q : β → Prop}

theorem any (r : Reader α) : Gives g r fun _ => True :=
  fun _ _ _ _ _ => trivial

theorem mono {p' : α → Prop} (h : Gives g r p) (hp : ∀ a, p a → p' a) : Gives g r p' :=
  fun s a t hs hr => hp a (h s a t hs hr)

theorem pure {a : α} (ha : p a) : Gives g (Pure.pure a) p := by
  intro s b t _ h
  cases h
  exact ha

theorem corrupted (cause : Corruption) : Gives g (Reader.corrupted cause) p := by
  intro s a t _ h
  cases h

theorem ofExcept {result : Except Failure α} (h : ∀ a, result = .ok a → p a) :
    Gives g (Reader.ofExcept result) p := by
  cases result with
  | ok a => exact pure (h a rfl)
  | error f =>
    intro s a t _ h
    cases h

/-- The first reader leaves a sound state to the second. -/
theorem bind (hr : Stepwise r) (h : Gives g r p) {f : α → Reader β}
    (hf : ∀ a, p a → Gives g (f a) q) : Gives g (r >>= f) q := by
  intro s b u hs hb
  obtain ⟨a, t, ha, hb⟩ := bind_eq_ok_iff.mp hb
  exact hf a (h s a t hs ha) t b u (hs.leads (hr.leads_ok ha)) hb

theorem andThen (hr : Stepwise r) {f : α → Reader β} (hf : ∀ a, Gives g (f a) q) :
    Gives g (r >>= f) q :=
  (any r).bind hr fun a _ => hf a

theorem map (h : Gives g r p) {f : α → β} (hf : ∀ a, p a → q (f a)) :
    Gives g (r >>= fun a => Pure.pure (f a)) q := by
  intro s b u hs hb
  obtain ⟨a, t, ha, hb⟩ := bind_eq_ok_iff.mp hb
  cases hb
  exact hf a (h _ _ _ hs ha)

theorem ofState {f : ReadState → Reader α} (h : ∀ s, s.Sound g → Gives g (f s) p) :
    Gives g (get >>= f) p :=
  fun s a t hs ha => h s hs s a t hs ha

theorem times (hr : Stepwise r) (h : Gives g r p) (n : Nat) :
    Gives g (Reader.times r n) fun as => as.length = n ∧ ∀ a ∈ as, p a := by
  induction n with
  | zero => exact pure ⟨rfl, fun _ ha => by cases ha⟩
  | succ n ih =>
    refine h.bind hr fun a ha => ih.map fun as has => ?_
    exact ⟨congrArg (· + 1) has.1, List.forall_mem_cons.mpr ⟨ha, has.2⟩⟩

/-! ## Numbers, strings and names -/

theorem length : Gives g Reader.length (· ≤ maxLength) :=
  fun _ _ _ _ h => length_ok h

theorem stringBody : Gives g Reader.stringBody IsShort :=
  fun _ _ _ _ h => length_stringUnits_of_stringBody h

theorem byteData : Gives g Reader.byteData (·.length ≤ maxLength) := by
  intro s data t _ h
  obtain ⟨n, u, hn, h⟩ := bind_eq_ok_iff.mp h
  rw [(bytes_ok h).1]
  exact length_ok hn

/-- A name is short because it was read, now or before. -/
theorem nameBody : Gives g Reader.nameBody IsShort := by
  refine andThen .number fun n => ofState fun s hs => ?_
  dsimp only
  split
  · rename_i name hname
    split_ifs at hname
    exact pure (hs.isShort name (List.mem_of_getElem? hname))
  · split
    · refine stringBody.bind .stringBody fun name hname => ?_
      exact andThen (.learn hname) fun _ => pure hname
    · exact corrupted _

theorem char : Gives g Reader.char fun c => c.toNat ≤ 0xFFFF := by
  refine andThen ((Stepwise.bigEndian _ _).map _) fun unit => ?_
  split
  · rename_i c hc
    refine pure ?_
    rw [(Text.Utf16.unitsOfChar_of_unitChar? hc).1]
    exact Nat.le_of_lt_succ unit.toNat_lt
  · exact corrupted _

theorem enumName {wireName : String} (h : IsShort wireName) :
    Gives g (Reader.enumName wireName) fun e => (Value.enum e).Fits g := by
  unfold Reader.enumName
  split
  · rename_i typeName variant hparts
    have hwhole : EnumName.wireName ⟨typeName, variant⟩ = wireName :=
      Text.append_of_splitFirst? hparts
    exact pure ⟨Text.notMem_of_splitFirst? hparts, by rwa [hwhole]⟩
  · exact corrupted _

section Inner

/-! ## Records and values -/

variable {inner : Reader Value} {levels : Nat} (hmade : Stepwise inner)
  (hinner : Gives g inner (Value.Within g levels))

include hinner in
/-- A string that was read as a value is a level by itself. -/
theorem stringIn : Gives g (Reader.stringIn inner) fun s => IsShort s ∧ 0 < levels := by
  intro s x t hs h
  obtain ⟨v, u, hv, h⟩ := bind_eq_ok_iff.mp h
  have hwithin := hinner s v u hs hv
  cases v with
  | string y =>
    cases h
    exact ⟨hwithin.allFit.fits, hwithin.wireDepth_le⟩
  | _ => cases h

include hmade hinner

/-- The names of an unknown type are read with a value each. -/
theorem pushes (names : List String) (r : Record) :
    Gives g ((names.map fun name => (name, none)).foldlM (Reader.intoSlot inner true) r) fun r' =>
      ∃ more, r' = ⟨r.typeName, r.fields ++ more⟩ ∧ more.map Prod.fst = names ∧
        ∀ p ∈ more, p.2.Within g levels := by
  induction names generalizing r with
  | nil => exact pure ⟨[], by rw [List.append_nil], rfl, fun _ hp => by cases hp⟩
  | cons name names ih =>
    have hfirst : Gives g (Reader.intoSlot inner true r (name, none))
        fun r' => ∃ v, r' = r.push name v ∧ v.Within g levels :=
      hinner.map fun v hv => ⟨v, rfl, hv⟩
    refine hfirst.bind (.intoSlot hmade ..) fun r' hr' => ?_
    obtain ⟨v, rfl, hv⟩ := hr'
    refine (ih _).mono fun r' hr' => ?_
    obtain ⟨more, rfl, rfl, hmore⟩ := hr'
    refine ⟨(name, v) :: more, ?_, rfl, List.forall_mem_cons.mpr ⟨hv, hmore⟩⟩
    simp [RecordOf.push]

omit hmade in
theorem intoField {f : Field} (hfloat : f.kind ≠ .float ∧ f.kind ≠ .double) (hlevels : 0 < levels)
    (r : Record) :
    Gives g (Reader.intoField inner f r) fun r' =>
      ∃ v, r' = f.set r v ∧ f.kind.Holds v ∧ v.Within g levels := by
  have hinteger : f.kind.isIntegral = true → ∀ n,
      Gives g (Reader.ofExcept (f.setInt r n)) fun r' =>
        ∃ v, r' = f.set r v ∧ f.kind.Holds v ∧ v.Within g levels := by
    intro hf n
    refine ofExcept fun r' hr' => ?_
    unfold Field.setInt at hr'
    cases hv : f.intValue r n with
    | error e =>
      rw [hv] at hr'
      cases hr'
    | ok v =>
      rw [hv] at hr'
      cases hr'
      obtain ⟨hholds, hunit⟩ := Field.holds_of_intValue hf hv
      refine ⟨v, rfl, hholds, .of_holds hholds (fun hkind => ?_) hunit hlevels⟩
      rw [hkind] at hf
      cases hf
  cases hkind : f.kind with
  | bool =>
    simp only [Reader.intoField, hkind]
    exact (any _).map fun b _ => ⟨.bool b, rfl, .bool b, .leaf rfl rfl trivial hlevels⟩
  | float => exact absurd hkind hfloat.1
  | double => exact absurd hkind hfloat.2
  | object =>
    simp only [Reader.intoField, hkind]
    exact hinner.map fun v hv => ⟨v, rfl, .object v, hv⟩
  | byte | short | char | int | long =>
    simp only [Reader.intoField, hkind] at hinteger ⊢
    exact andThen .number (hinteger rfl)

/-- The names of a known type are read into its fields, and a value without a field is dropped. -/
theorem fills {t : RecordType} (hnodup : (t.layout.map Prod.fst).Nodup)
    (hfloat : ∀ slot ∈ t.layout, slot.2 ≠ .float ∧ slot.2 ≠ .double) (hlevels : 0 < levels)
    (names : List String) {value? : String → Option Value} (hvalue : t.Accepts g levels value?) :
    Gives g ((names.map fun name => (name, t.field? name)).foldlM (Reader.intoSlot inner false)
      (t.filled value?)) fun r => ∃ value?, r = t.filled value? ∧ t.Accepts g levels value? := by
  induction names generalizing value? with
  | nil => exact pure ⟨value?, rfl, hvalue⟩
  | cons name names ih =>
    have hfirst : Gives g (Reader.intoSlot inner false (t.filled value?) (name, t.field? name))
        fun r => ∃ value?, r = t.filled value? ∧ t.Accepts g levels value? := by
      cases hfield : t.field? name with
      | none => exact hinner.map fun v _ => ⟨value?, rfl, hvalue⟩
      | some f =>
        have hf : f ∈ t.fields := List.mem_of_find?_eq_some hfield
        have hkind := hfloat _ (List.mem_of_getElem? (RecordType.getElem?_layout hf))
        refine (intoField hinner hkind hlevels _).mono fun r hr => ?_
        obtain ⟨v, rfl, hholds, hv⟩ := hr
        refine ⟨_, ?_, hvalue.update hnodup hf hholds hv⟩
        rw [(RecordType.isAt_filled value? hf).set_eq, RecordType.set_filled value? hnodup hf]
    refine hfirst.bind (.intoSlot hmade ..) fun r hr => ?_
    obtain ⟨value?, rfl, hvalue⟩ := hr
    exact ih hvalue

omit hmade hinner in
theorem resolve (signature : String) :
    Gives g (Reader.resolve signature) fun layout =>
      ∃ typeName names, Text.split ',' signature = typeName :: names ∧ typeName ≠ "" ∧
        layout = g.layoutOf signature typeName names := by
  intro s layout t hs h
  obtain ⟨typeName, names, hsplit, hne, hlayout⟩ :=
    hs.readsFor.isCurrent.layout_of_resolve (resolve_eq_ok_iff.mp h).1
  rw [Registry.layoutOf_congr hs.readsFor.lookup?_eq] at hlayout
  exact ⟨typeName, names, hsplit, hne, hlayout⟩

theorem recordBody (hg : g.IsExact) :
    Gives g (Reader.recordBody inner) fun r => (Value.record r).Within g (levels + 1) := by
  refine (stringIn hinner).bind (.stringIn hmade) fun signature ⟨hshort, hlevels⟩ => ?_
  refine (resolve signature).bind (.resolve signature) fun layout hlayout => ?_
  obtain ⟨typeName, names, hsplit, hne, rfl⟩ := hlayout
  cases ht : g.lookup? typeName with
  | none =>
    simp only [Registry.layoutOf, ht]
    refine (pushes hmade hinner names (.empty typeName)).mono fun r hr => ?_
    obtain ⟨more, rfl, rfl, hmore⟩ := hr
    refine .record ⟨hne, fun s hs => ?_, ?_, fun t ht' => ?_⟩ hlevels hmore
    · exact Text.notMem_of_mem_split (hsplit ▸ hs)
    · have hjoin := Text.join_split ',' signature
      rw [hsplit] at hjoin
      have hsignature : signatureOf typeName (more.map Prod.fst) = signature := hjoin
      exact hsignature.symm ▸ hshort
    · cases ht.symm.trans ht'
  | some t =>
    have hmem : t ∈ g.types := List.mem_of_find?_eq_some ht
    have hfloat := hg.not_float t hmem
    have hplain := hg.isPlain t hmem
    obtain rfl := Registry.name_of_lookup? ht
    simp only [Registry.layoutOf, ht]
    have hblank : t.Accepts g levels fun _ => none := fun _ _ _ hv => by cases hv
    refine (fills hmade hinner hplain.nodup hfloat hlevels names hblank).mono fun r hr => ?_
    obtain ⟨value?, rfl, hvalue⟩ := hr
    have hdescribes := hvalue.describes hplain.nodup hfloat hlevels
    refine .record ⟨hne, ?_, ?_, fun t' ht' => ?_⟩ hlevels fun p hp => ?_
    · rw [← hdescribes.names_eq]
      exact hplain.separable.notMem_comma
    · rw [← hdescribes.names_eq]
      exact hg.isShort_signature t hmem
    · cases ht.symm.trans ht'
      exact hdescribes
    · obtain ⟨slot, hslot, rfl⟩ := List.mem_map.mp hp
      exact (hvalue.holds hfloat hlevels hslot).2

theorem payload (hg : g.IsExact) (t : Tag) :
    Gives g (Reader.payload inner t) (Value.Within g (levels + 1)) := by
  have hstring := stringIn hinner
  have hpos := Nat.succ_pos levels
  cases t with
  | null | boolTrue | boolFalse => exact pure (.leaf rfl rfl trivial hpos)
  | signed1 | signed2 | signed4 | signed8 | float4 | float8 =>
    exact (any _).map fun _ _ => .leaf rfl rfl trivial hpos
  | char => exact char.map fun c hc => .leaf rfl rfl hc hpos
  | string => exact stringBody.map fun s hs => .string hs
  | tag => exact nameBody.map fun s hs => .string hs
  | bytes | foreign => exact byteData.map fun data hdata => .leaf rfl rfl hdata hpos
  | array =>
    refine length.bind .length fun count hcount => ?_
    refine hstring.bind (.stringIn hmade) fun component hcomponent => ?_
    exact (hinner.times hmade count).map fun items hitems =>
      .array hcomponent.1 hcomponent.2 (hitems.1.trans_le hcount) hitems.2
  | list =>
    refine length.bind .length fun count hcount => ?_
    exact (hinner.times hmade count).map fun items hitems =>
      .list (hitems.1.trans_le hcount) hitems.2
  | set =>
    refine length.bind .length fun count hcount => ?_
    exact (hinner.times hmade count).map fun items hitems =>
      .set (hitems.1.trans_le hcount) hitems.2
  | map =>
    have hpair : Gives g (Reader.pair inner inner)
        fun p => p.1.Within g levels ∧ p.2.Within g levels :=
      hinner.bind hmade fun key hkey => hinner.map fun value hvalue => ⟨hkey, hvalue⟩
    have hpairMade : Stepwise (Reader.pair inner inner) := hmade.andThen fun key => hmade.map _
    refine length.bind .length fun count hcount => ?_
    exact (hpair.times hpairMade count).map fun entries hentries =>
      .map (hentries.1.trans_le hcount) hentries.2
  | entry => exact hinner.bind hmade fun key hkey => hinner.map fun value hvalue => .entry hkey hvalue
  | enum =>
    refine hstring.bind (.stringIn hmade) fun name hname => ?_
    refine (enumName hname.1).map fun e he => ⟨.leaf rfl he, ?_⟩
    exact Nat.succ_le_succ hname.2
  | record => exact (recordBody hmade hinner hg).map fun r hr => hr
  | className | fieldSignature =>
    exact hstring.map fun name hname => ⟨.leaf rfl hname.1, Nat.succ_le_succ hname.2⟩

end Inner

theorem value (hg : g.IsExact) (levels : Nat) :
    Gives g (Reader.value levels) (Value.Within g levels) := by
  induction levels with
  | zero => exact corrupted _
  | succ levels ih =>
    refine andThen .lead fun byte => ?_
    split
    · exact pure (.leaf rfl rfl trivial (Nat.succ_pos levels))
    · exact andThen (.tagOf byte) (payload (.value levels) ih hg)

end Gives

end Reader

/-- A decoder that came about by reading, whatever it was given to read and whether it could. -/
inductive Decoder.Reached : Decoder → Prop
  | new : Reached .new
  | read {d : Decoder} (g : Registry) (reads : List Read) (input : List UInt8) (h : Reached d) :
    Reached (d.read g (Read.all reads) input).decoder

theorem Decoder.Reached.isShort {d : Decoder} (h : d.Reached) :
    ∀ name ∈ d.names.names, IsShort name := by
  induction h with
  | new =>
    intro name hname
    cases hname
  | @read d g reads input _ ih =>
    have hleads := (Read.all_stepwise reads d.budget).leads ⟨d.names, g, input⟩
    have hnames : (d.read g (Read.all reads) input).decoder.names =
        ((Read.all reads d.budget).after ⟨d.names, g, input⟩).names := by
      cases hread : Read.all reads d.budget ⟨d.names, g, input⟩ with
      | ok a t => rw [Decoder.read_of_ok hread, Reader.after_of_ok hread]
      | error f t => rw [Decoder.read_of_error hread, Reader.after_of_error hread]
    intro name hname
    rw [hnames] at hname
    obtain ⟨new, hnew, hshort⟩ := hleads.names
    rw [hnew, List.mem_append] at hname
    rcases hname with hname | hname
    · exact ih name hname
    · exact hshort name hname

theorem portable_of_read {g : Registry} (hg : g.IsExact) {d : Decoder} (hd : d.Reached)
    {input rest : List UInt8} {v : Value}
    (h : (d.read g Reader.value input).result = .ok (v, rest)) : v.Portable g := by
  have hsound : ReadState.Sound g ⟨d.names, g, input⟩ := ⟨hd.isShort, rfl, hg.isCurrent⟩
  cases hread : Reader.value d.budget ⟨d.names, g, input⟩ with
  | error f t =>
    rw [Decoder.read_of_error hread] at h
    cases h
  | ok w t =>
    rw [Decoder.read_of_ok hread] at h
    cases h
    have hwithin := Reader.Gives.value hg d.budget _ _ _ hsound hread
    exact ⟨hwithin.allFit, hwithin.wireDepth_le.trans (Nat.sub_le ..)⟩

/-- What a decoder accepts, every encoder writes, and every decoder that agrees with that encoder
reads back from what was written, up to its end. The signatures that were resolved in between do not
matter on either side. -/
theorem write_received {g : Registry} (hg : g.IsExact) {d : Decoder} (hd : d.Reached)
    {input rest : List UInt8} {v : Value}
    (h : (d.read g Reader.value input).result = .ok (v, rest)) :
    v.wireDepth ≤ maxNesting ∧
      ∀ (e : Encoder) (writing : Registry), writing.ReadsFor g →
        let written := e.write (valueWriter writing v)
        written.failure? = none ∧
          ∀ (d' : Decoder) (reading : Registry) (more : List UInt8), Paired e d' →
            reading.ReadsFor g → written.encoder.interned ≤ maxNames →
            let again := d'.read reading Reader.value (written.bytes ++ more)
            again.result = .ok (v, more) ∧ Paired written.encoder again.decoder := by
  have hv := portable_of_read hg hd h
  have hcarries := Carries.value hv.allFit hv.wireDepth_le
  refine ⟨hv.wireDepth_le, fun e writing hwriting => ?_⟩
  have hwriter : valueWriter writing v = valueWriter g v :=
    valueWriter_congr hwriting.lookup?_eq v
  intro written
  refine ⟨?_, fun d' reading more hpair hreading hsize => ?_⟩
  · simp only [written, hwriter]
    exact hcarries.failure?_eq e.names
  · simp only [written, hwriter] at hsize ⊢
    obtain ⟨hresult, hpaired, -⟩ := hcarries.read_write hpair hreading hsize more
    exact ⟨hresult, hpaired⟩

/-- A record of a known type that lacks two of its three fields: the bytes that are sent on are
others, and they are read as the same record. -/
theorem write_received_partial :
    let signature := "tagrpc.RemoteError,stack"
    let input := 0xED :: 0xF3 :: 0 :: 24 :: unitBlock (stringUnits signature) ++ [5]
    let v : Value := .record ⟨RemoteFailure.typeName,
      [("kind", .null), ("message", .null), ("stack", .int 5)]⟩
    let written := Encoder.new.write (valueWriter .initial v)
    (Decoder.new.read .initial Reader.value input).result = .ok (v, []) ∧
      written.bytes ≠ input ∧
      (Decoder.new.read .initial Reader.value (written.bytes ++ [9])).result = .ok (v, [9]) := by
  intro signature input v written
  have hread : (Decoder.new.read .initial Reader.value input).result = .ok (v, []) := by
    decide +kernel
  have hexact := Registry.IsExact.initial
  have hreads : Registry.initial.ReadsFor .initial := ⟨rfl, hexact.isCurrent⟩
  refine ⟨hread, by decide +kernel, ?_⟩
  have hwritten := (write_received hexact .new hread).2 .new .initial hreads
  exact (hwritten.2 .new .initial [9] Paired.new hreads (by decide +kernel)).1

end Wire

end RemoteCall
