import RemoteCall.Proofs.Schema.Fields
import RemoteCall.Proofs.Schema.Layouts
import RemoteCall.Proofs.Wire.Carries
import RemoteCall.Wire.Codec

/-!
# Reading what was written

A portable value is written without failure and read back unchanged, by any decoder that agrees
with the encoder on the names and knows the same types. The proof is by induction on the levels of
nesting that the decoder has left: every constructor is a lead byte and a payload whose parts are
carried by induction.
-/

namespace RemoteCall

open Wire in
def Value.fixedBytes? : Value → Option (List UInt8)
  | .null => some [Tag.null.byte]
  | .bool b => some (boolBytes b)
  | .byte n => some (int8Bytes n)
  | .short n => some (int16Bytes n)
  | .int n => some (intBytes n)
  | .long n => some (int64Bytes n)
  | .float x => some (binary32Bytes x)
  | .double x => some (binary64Bytes x)
  | .char c => if c.toNat ≤ 0xFFFF then some (tagged .char (bigEndian 2 c.toNat)) else none
  | _ => none

namespace Wire

open NameIndex (Agrees)

namespace Reader

variable {α : Type}

theorem value_tagged (budget : Nat) (t : Tag) (names : NameTable) (g : Registry)
    (rest : List UInt8) :
    value (budget + 1) ⟨names, g, t.byte :: rest⟩ =
      payload (value budget) t ⟨names, g, rest⟩ := by
  rw [value, bind_of_ok (lead_cons ..), if_neg (UInt8.not_le.mpr t.maxLiteral_lt_byte),
    bind_of_ok (tagOf_byte ..)]

theorem value_literal {byte : UInt8} (h : byte ≤ Tag.maxLiteral) (budget : Nat)
    (names : NameTable) (g : Registry) (rest : List UInt8) :
    value (budget + 1) ⟨names, g, byte :: rest⟩ =
      .ok (.int (Int32.ofNat byte.toNat)) ⟨names, g, rest⟩ := by
  rw [value, bind_of_ok (lead_cons ..), if_pos h, pure_apply]

theorem char_append {c : Char} (h : c.toNat ≤ 0xFFFF) (names : NameTable) (g : Registry)
    (rest : List UInt8) :
    char ⟨names, g, Wire.bigEndian 2 c.toNat ++ rest⟩ = .ok c ⟨names, g, rest⟩ := by
  have hunit : unit16 ⟨names, g, Wire.bigEndian 2 c.toNat ++ rest⟩ =
      .ok c.toNat.toUInt16 ⟨names, g, rest⟩ :=
    word_append (by omega) rfl names g rest
  rw [char, bind_of_ok hunit]
  simp only [Text.Utf16.unitChar?_char (show c.toNat < 0x10000 by omega), pure_apply]

/-- The name of a constant has a space between type and variant, and is always cut somewhere. -/
theorem exists_enumName (e : EnumName) :
    ∃ e', enumName e.wireName = pure e' ∧ e'.wireName = e.wireName := by
  have hspace : ' ' ∈ e.wireName.toList := by simp [EnumName.wireName]
  obtain ⟨⟨typeName, variant⟩, hsplit⟩ := Text.exists_splitFirst? hspace
  exact ⟨⟨typeName, variant⟩, by simp only [enumName, hsplit], Text.append_of_splitFirst? hsplit⟩

theorem enumName_wireName {e : EnumName} (h : ' ' ∉ e.typeName.toList) :
    enumName e.wireName = pure e := by
  have hsplit : Text.splitFirst? ' ' e.wireName = some (e.typeName, e.variant) :=
    Text.splitFirst?_append h e.variant
  simp only [enumName, hsplit]

end Reader

section Fixed

variable {v : Value} {bytes : List UInt8} (h : v.fixedBytes? = some bytes)
include h

theorem valueWriter_of_fixedBytes? (g : Registry) : valueWriter g v = .emit bytes := by
  cases v with
  | char c =>
    simp only [Value.fixedBytes?] at h
    split_ifs at h with hc
    cases h
    rw [valueWriter, charWriter, if_pos hc]
  | null | bool | byte | short | int | long | float | double =>
    cases h
    rfl
  | _ => cases h

/-- Whatever follows, the value is read back from its bytes. -/
theorem Reader.value_fixedBytes? (budget : Nat) (names : NameTable) (g : Registry)
    (rest : List UInt8) :
    value (budget + 1) ⟨names, g, bytes ++ rest⟩ = .ok v ⟨names, g, rest⟩ := by
  cases v with
  | int n =>
    cases h
    unfold intBytes
    split_ifs with hlit
    · have hback : Int32.ofNat n.toInt.toNat = n := by
        rw [← Int32.toInt_inj, Int32.toInt_ofNat_of_lt (by omega)]
        omega
      rw [List.singleton_append, value_literal (intLiteral_le hlit), toNat_intLiteral hlit, hback]
    · rw [int32Bytes, tagged_append, value_tagged, payload, bind_of_ok (int32_append ..),
        pure_apply]
  | null => cases h; rfl
  | bool b => cases h; cases b <;> rfl
  | byte n =>
    cases h
    rw [int8Bytes, tagged_append, value_tagged, payload, bind_of_ok (int8_append ..), pure_apply]
  | short n =>
    cases h
    rw [int16Bytes, tagged_append, value_tagged, payload, bind_of_ok (int16_append ..), pure_apply]
  | long n =>
    cases h
    rw [int64Bytes, tagged_append, value_tagged, payload, bind_of_ok (int64_append ..), pure_apply]
  | float x =>
    cases h
    rw [binary32Bytes, tagged_append, value_tagged, payload, bind_of_ok (binary32_append ..),
      pure_apply]
  | double x =>
    cases h
    rw [binary64Bytes, tagged_append, value_tagged, payload, bind_of_ok (binary64_append ..),
      pure_apply]
  | char c =>
    simp only [Value.fixedBytes?] at h
    split_ifs at h with hc
    cases h
    rw [tagged_append, value_tagged, payload, bind_of_ok (char_append hc ..), pure_apply]
  | _ => cases h

end Fixed

/-- An object field is written as the value it holds, and as null if the record has none. -/
theorem getD_slot?_namedWriters (g : Registry) (r : Record) (f : Field) :
    (RecordOf.slot? ⟨r.typeName, namedWriters g r.fields⟩ f.index f.name).getD
      (.emit [Tag.null.byte]) = valueWriter g (f.get r) := by
  rw [namedWriters_eq, RecordOf.slot?_map, Field.get]
  cases r.slot? f.index f.name <;> rfl

/-- Both forms of a name, index alone and index with text, are read by the body of a name. -/
theorem exists_nameBody {e : NameIndex} {d : NameTable} (hd : e.Agrees d) {s : String}
    (hs : e.Conveys s) (hsize : (Writer.name s e).names.size ≤ maxNames) :
    ∃ body d', (Writer.name s e).bytes = Tag.tag.byte :: body ∧
      (Writer.name s e).names.Agrees d' ∧
      ∀ g rest, Reader.nameBody ⟨d, g, body ++ rest⟩ = .ok s ⟨d', g, rest⟩ := by
  cases hi : e.index? s with
  | some i =>
    rw [Writer.name_of_known hi] at hsize ⊢
    have hname := (hd.index?_eq_some_iff s i).mp hi
    have hlt := NameTable.lt_size_of_name? hname
    rw [← hd.size_eq] at hlt
    change e.size ≤ maxNames at hsize
    rw [maxNames] at hsize
    exact ⟨_, d, rfl, hd, Reader.nameBody_known hname (by omega)⟩
  | none =>
    rw [Writer.name_of_new hi] at hsize ⊢
    rw [NameIndex.size_insert] at hsize
    have hlt : d.size < 2 ^ 63 := by
      rw [← hd.size_eq]
      exact lt_trans hsize (by decide)
    refine ⟨_, d.push s, rfl, hd.insert hi hsize, fun g rest => ?_⟩
    rw [List.append_assoc, NameIndex.nextIndex_of_lt hsize, hd.size_eq, Reader.nameBody_new hlt,
      Reader.bind_of_ok (Reader.stringBody_append (hs.isShort hi) ..)]
    rfl

def ReadsBack (reads : Registry → Prop) (g : Registry) (r : Record) : Prop :=
  ∃ layout : WireLayout, layout.GivesBack g r ∧
    Carries reads .nothing (Reader.resolve (signatureOf r.typeName r.names)) layout

namespace Carries

variable {α : Type} {reads : Registry → Prop} {g : Registry} {w : Writer} {v : Value}
  {budget : Nat}

theorem name {r : Reader α} {f : String → α} {s : String} (hs : IsShort s)
    (hr : ∀ names g rest, r ⟨names, g, Tag.tag.byte :: rest⟩ =
      (Reader.nameBody >>= fun x => Pure.pure (f x)) ⟨names, g, rest⟩) :
    Carries reads (.name s) r (f s) where
  failure?_eq e := by
    cases hi : e.index? s with
    | some i => rw [Writer.name_of_known hi]
    | none => rw [Writer.name_of_new hi]
  size_le e := by
    cases hi : e.index? s with
    | some i => rw [Writer.name_of_known hi]
    | none =>
      rw [Writer.name_of_new hi, NameIndex.size_insert]
      exact Nat.le_succ _
  read e d g' rest hd hg' hsize := by
    obtain ⟨body, d', hbytes, hd', hbody⟩ := exists_nameBody hd (.inl hs) hsize
    refine ⟨d', g', ?_, hd', hg'⟩
    rw [hbytes, List.cons_append, hr, Reader.bind_of_ok (hbody g' rest)]
    rfl

theorem nameValue {s : String} (hs : IsShort s) :
    Carries reads (.name s) (Reader.value (budget + 1)) (.string s) :=
  name hs fun names g rest => by rw [Reader.value_tagged, Reader.payload]

theorem nameString {s : String} (hs : IsShort s) :
    Carries reads (.name s) (Reader.stringIn (Reader.value (budget + 1))) s :=
  (nameValue hs).thenQuiet (pure s)

theorem tagged {t : Tag} {bytes : List UInt8}
    (h : Carries reads (.emit bytes ++ w) (Reader.payload (Reader.value budget) t) v) :
    Carries reads (.emit (tagged t bytes) ++ w) (Reader.value (budget + 1)) v := by
  have hw : (Writer.emit (Wire.tagged t bytes) ++ w) = .emit [t.byte] ++ (.emit bytes ++ w) := by
    funext e
    simp [Writer.emit_append, Wire.tagged]
  rw [hw]
  exact h.behind (Reader.value_tagged budget t)

theorem payload {t : Tag} {bytes : List UInt8}
    (h : ∀ names g rest, Reader.payload (Reader.value budget) t ⟨names, g, bytes ++ rest⟩ =
      .ok v ⟨names, g, rest⟩) :
    Carries reads (.emit (Wire.tagged t bytes)) (Reader.value (budget + 1)) v :=
  emit fun names g rest => by rw [tagged_append, Reader.value_tagged, h]

theorem key {s : Writer} (hv : v.AllFit g) (hpos : 0 < budget)
    (h : Carries reads s (Reader.value budget) v) :
    Carries reads (keyOr s v) (Reader.value budget) v := by
  obtain ⟨budget, rfl⟩ := Nat.exists_eq_succ_of_ne_zero hpos.ne'
  cases v with
  | string s => exact nameValue hv.fits
  | _ => exact h

section Records

variable {value : Reader Value}

/-- A field of a registered type, read into a field that gives it back and has a place in its
record. -/
theorem field {f f' : Field} {r r' : Record} {w : Value} (hkind : f'.kind.GivesBack f.kind)
    (hv : f.kind.Holds v) (hunit : ∀ c, v = .char c → c.toNat ≤ 0xFFFF) (hr : f.get r = v)
    (hr' : f'.IsAt r' w) (hcarries : f'.kind = .object → Carries reads (valueWriter g v) value v) :
    Carries reads (fieldWriter r ⟨r.typeName, namedWriters g r.fields⟩ f)
      (Reader.intoField value f' r')
      { r' with fields := r'.fields.set f'.index (f'.name, v) } := by
  rw [← hr'.set_eq]
  rcases hkind with hkind | ⟨hobject, hbool⟩
  · have hint : f.kind.isIntegral = true → Carries reads (.ofExcept numberBytes (f.getInt r))
        (Reader.number >>= fun n => Reader.ofExcept (f'.setInt r' n)) (f'.set r' v) := by
      intro hf
      obtain ⟨n, hget, hvalue⟩ := f.exists_integer hf hv hunit hr
      have hset : f'.setInt r' n = .ok (f'.set r' v) := by
        rw [Field.setInt, hvalue f' r' hkind]
        rfl
      rw [hget]
      refine (emit (Reader.number_append n)).thenQuiet ?_
      rw [hset]
      exact pure _
    cases hwritten : f.kind with
    | bool =>
      rw [hwritten] at hv
      cases hv with
      | bool b =>
        have hget : f.getBool r = .ok b := by rw [Field.getBool, hr]
        simp only [fieldWriter, Reader.intoField, hkind, hwritten, hget]
        exact (emit (Reader.bool_append b)).map (f'.setBool r')
    | object =>
      simp only [fieldWriter, Reader.intoField, hkind, hwritten, getD_slot?_namedWriters, hr]
      exact (hcarries (hkind.trans hwritten)).map (f'.set r')
    | float | double =>
      rw [hwritten] at hv
      cases hv
    | byte | short | char | int | long =>
      simp only [fieldWriter, Reader.intoField, hkind, hwritten]
      exact hint (by rw [hwritten]; rfl)
  · rw [hbool] at hv
    cases hv with
    | bool b =>
      have hget : f.getBool r = .ok b := by rw [Field.getBool, hr]
      simp only [fieldWriter, Reader.intoField, hobject, hbool, hget]
      exact (hcarries hobject).map (f'.set r')

theorem fields {kept layout : List (String × FieldKind)} {todo : List (String × Value)}
    (hkept : List.Forall₂ (fun slot slot' => slot.1 = slot'.1 ∧ slot.2.GivesBack slot'.2) kept layout)
    (h : List.Forall₂ FieldKind.HoldsAs layout todo)
    (hall : ∀ p ∈ todo, p.2.AllFit g ∧ Carries reads (valueWriter g p.2) value p.2)
    (typeName : String) (done : List (String × Value)) :
    Carries reads
      (fieldWriters ⟨typeName, done ++ todo⟩ ⟨typeName, namedWriters g (done ++ todo)⟩
        (RecordType.fieldsFrom layout done.length))
      (((RecordType.fieldsFrom kept done.length).map fun f => (f.name, some f)).foldlM
        (Reader.intoSlot value false)
        ⟨typeName, done ++ kept.map fun slot => (slot.1, slot.2.zero)⟩)
      ⟨typeName, done ++ todo⟩ := by
  induction h generalizing kept done with
  | nil =>
    cases hkept
    exact pure _
  | @cons slot field layout todo hslot _ ih =>
    cases hkept with
    | @cons keptSlot _ kept _ hkind hkept =>
      obtain ⟨⟨name, kind⟩, ⟨_, v⟩, rfl, hv⟩ := slot, field, hslot
      obtain ⟨⟨keptName, keptKind⟩, hname, hkind⟩ := keptSlot, hkind
      obtain rfl : name = keptName := hname.symm
      obtain ⟨hfit, hcarries⟩ := hall (name, v) (List.mem_cons_self ..)
      have hunit : ∀ c, v = .char c → c.toNat ≤ 0xFFFF := by
        rintro c rfl
        exact hfit.fits
      have hwritten : Field.IsAt ⟨name, kind, done.length⟩
          ⟨typeName, done ++ (name, v) :: todo⟩ v := by
        simp [Field.IsAt]
      have hblank : Field.IsAt ⟨name, keptKind, done.length⟩
          ⟨typeName, done ++ (name, keptKind.zero) :: kept.map fun slot => (slot.1, slot.2.zero)⟩
          keptKind.zero := by
        simp [Field.IsAt]
      have hfirst := field hkind hv hunit hwritten.get_eq hblank fun _ => hcarries
      have hrest := ih hkept (fun p hp => hall p (List.mem_cons_of_mem _ hp)) (done ++ [(name, v)])
      simp only [List.append_assoc, List.singleton_append, List.length_append,
        List.length_singleton] at hrest
      simp only [List.set_append_right _ _ (Nat.le_refl done.length), Nat.sub_self,
        List.set_cons_zero] at hfirst
      exact hfirst.bind hrest

theorem pushes {todo : List (String × Value)}
    (hall : ∀ p ∈ todo, Carries reads (valueWriter g p.2) value p.2) (r : Record) :
    Carries reads (sequenceOf (namedWriters g todo))
      ((todo.map fun p => (p.1, none)).foldlM (Reader.intoSlot value true) r)
      ⟨r.typeName, r.fields ++ todo⟩ := by
  induction todo generalizing r with
  | nil =>
    rw [List.append_nil]
    exact pure r
  | cons p todo ih =>
    have hfirst : Carries reads (valueWriter g p.2) (Reader.intoSlot value true r (p.1, none))
        (r.push p.1 p.2) :=
      (hall p (List.mem_cons_self ..)).map fun v => r.push p.1 v
    have hrest := ih (fun q hq => hall q (List.mem_cons_of_mem _ hq)) (r.push p.1 p.2)
    rw [RecordOf.push, List.append_assoc] at hrest
    exact hfirst.bind hrest

theorem resolve {signature typeName : String} {names : List String}
    (hsplit : Text.split ',' signature = typeName :: names) (hne : typeName ≠ "") :
    Carries (·.ReadsFor g) .nothing (Reader.resolve signature)
      (g.layoutOf signature typeName names) :=
  quiet fun _ g' hg' => by
    have hres := Registry.resolve_of_split hg'.isCurrent hsplit hne
    rw [Registry.layoutOf_congr hg'.lookup?_eq] at hres
    refine ⟨_, hg'.resolve signature, fun rest => ?_⟩
    simp only [Reader.resolve]
    rw [← Prod.eta (g'.resolve _), hres]

/-- Reading a signature leaves what signatures stand for. -/
theorem resolveAs {signature : String} {layout : WireLayout}
    (h : (g.resolve signature).1 = .ok layout) :
    Carries g.Resolves .nothing (Reader.resolve signature) layout :=
  quiet fun _ known hknown => by
    have hlayout := (hknown.resolve_eq signature).trans h
    refine ⟨_, .resolve signature hknown, fun rest => ?_⟩
    simp only [Reader.resolve]
    rw [← Prod.eta (known.resolve signature), hlayout]

/-- A record in the order of its type, or with the fields it has if the type is unknown. -/
theorem recordBody {r : Record} (hr : r.Fits g) {layout : WireLayout}
    (hlayout : layout.GivesBack g r)
    (hresolve : Carries reads .nothing (Reader.resolve (signatureOf r.typeName r.names)) layout)
    (hall : ∀ p ∈ r.fields, p.2.AllFit g ∧ Carries reads (valueWriter g p.2) value p.2)
    (hname : ∀ s, IsShort s → Carries reads (.name s) (Reader.stringIn value) s) :
    Carries reads (recordWriter g r (namedWriters g r.fields)) (Reader.recordBody value) r := by
  cases hlayout with
  | @known t u ht hu isShadow =>
    have hd := hr.describes t ht
    simp only [recordWriter, ht, hr.signature_eq ht]
    refine (hname _ hr.isShort_signature).bind (hresolve.quietThen ?_)
    have hbody := fields hu.slots hd.holds hall r.typeName []
    have hnodup : (u.layout.map Prod.fst).Nodup := by
      rw [hu.names_eq]
      exact hd.nodup
    have hname : u.name = r.typeName := hu.name_eq.trans (Registry.name_of_lookup? ht)
    simp only [WireLayout.isDynamic, WireLayout.blank, RecordType.blank, Option.isNone_some, hname]
    rw [← hd.names_eq, ← hu.names_eq, RecordType.slots_eq hnodup]
    exact hbody
  | unknown ht isShadow =>
    simp only [recordWriter, ht]
    refine (hname _ hr.isShort_signature).bind (hresolve.quietThen ?_)
    have hbody := pushes (fun p hp => (hall p hp).2) (.empty r.typeName)
    simp only [WireLayout.isDynamic, WireLayout.blank, Option.isNone_none]
    rw [RecordOf.names, List.map_map]
    exact hbody

end Records

theorem items {f : Value → Writer} {vs : List Value}
    (h : ∀ v ∈ vs, Carries reads (f v) (Reader.value budget) v) :
    Carries reads (.concat (vs.map f)) (Reader.times (Reader.value budget) vs.length) vs :=
  times (List.forall₂_map_left_iff.mpr (List.forall₂_same.mpr h))

theorem entries {vs : List (Value × Value)}
    (h : ∀ p ∈ vs, Carries reads (keyOr (valueWriter g p.1) p.1 ++ valueWriter g p.2)
      (Reader.pair (Reader.value budget) (Reader.value budget)) p) :
    Carries reads (entriesWriter g vs)
      (Reader.times (Reader.pair (Reader.value budget) (Reader.value budget)) vs.length) vs := by
  rw [entriesWriter_eq]
  exact times (List.forall₂_map_left_iff.mpr (List.forall₂_same.mpr h))

theorem fixed {v : Value} {bytes : List UInt8} (h : v.fixedBytes? = some bytes) :
    Carries reads (valueWriter g v) (Reader.value (budget + 1)) v := by
  rw [valueWriter_of_fixedBytes? h]
  exact emit (Reader.value_fixedBytes? h budget)

section Levels

variable {k w : Value}

theorem arrayOf {component : String} {items : List Value} (hlength : items.length ≤ Reader.maxLength)
    (hname : Carries reads (.name component) (Reader.stringIn (Reader.value budget)) component)
    (h : ∀ v ∈ items, Carries reads (valueWriter g v) (Reader.value budget) v) :
    Carries reads (valueWriter g (.array component items)) (Reader.value (budget + 1))
      (.array component items) := by
  refine tagged ((emit (Reader.length_append hlength)).bind (hname.bind ?_))
  rw [itemsWriter_eq]
  exact (Carries.items h).map _

theorem mapOf {vs : List (Value × Value)} (hlength : vs.length ≤ Reader.maxLength)
    (hkey : ∀ p ∈ vs, Carries reads (keyOr (valueWriter g p.1) p.1) (Reader.value budget) p.1)
    (h : ∀ p ∈ vs, Carries reads (valueWriter g p.2) (Reader.value budget) p.2) :
    Carries reads (valueWriter g (.map vs)) (Reader.value (budget + 1)) (.map vs) := by
  refine tagged ((emit (Reader.length_append hlength)).bind ?_)
  exact (Carries.entries fun p hp => (hkey p hp).bind ((h p hp).map _)).map _

theorem entryOf (hkey : Carries reads (keyOr (valueWriter g k) k) (Reader.value budget) k)
    (h : Carries reads (valueWriter g w) (Reader.value budget) w) :
    Carries reads (valueWriter g (.entry k w)) (Reader.value (budget + 1)) (.entry k w) :=
  behind (Reader.value_tagged budget .entry) (hkey.bind (h.map _))

theorem enumOf {e : EnumName} (hspace : ' ' ∉ e.typeName.toList)
    (hname : Carries reads (.name e.wireName) (Reader.stringIn (Reader.value budget)) e.wireName) :
    Carries reads (valueWriter g (.enum e)) (Reader.value (budget + 1)) (.enum e) := by
  refine behind (Reader.value_tagged budget .enum) (hname.thenQuiet ?_)
  rw [Reader.enumName_wireName hspace]
  exact (pure e).map _

theorem recordOf {r : Record} (hr : r.Fits g) (hback : ReadsBack reads g r)
    (h : ∀ p ∈ r.fields, p.2.AllFit g ∧ Carries reads (valueWriter g p.2) (Reader.value budget) p.2)
    (hname : ∀ s, IsShort s → Carries reads (.name s) (Reader.stringIn (Reader.value budget)) s) :
    Carries reads (valueWriter g (.record r)) (Reader.value (budget + 1)) (.record r) := by
  obtain ⟨layout, hlayout, hresolve⟩ := hback
  exact behind (Reader.value_tagged budget .record) ((recordBody hr hlayout hresolve h hname).map _)

end Levels

/-- Induction on the levels left: the parts of a value are carried with one level less. -/
theorem valueOf {v : Value} (hv : v.AllFit g) (hreads : v.EveryRecord (ReadsBack reads g))
    (hdepth : v.wireDepth ≤ budget) : Carries reads (valueWriter g v) (Reader.value budget) v := by
  induction budget generalizing v with
  | zero =>
    have := v.wireDepth_pos
    omega
  | succ budget ih =>
    have hchild : ∀ w ∈ v.children, Carries reads (valueWriter g w) (Reader.value budget) w :=
      fun w hw => ih (hv.child hw) (hreads.child hw) (by
        have := Value.wireDepth_lt_of_mem_children hw
        omega)
    have hkey : ∀ w ∈ v.children,
        Carries reads (keyOr (valueWriter g w) w) (Reader.value budget) w :=
      fun w hw => key (hv.child hw) (by
        have := Value.wireDepth_lt_of_mem_children hw
        have := w.wireDepth_pos
        omega) (hchild w hw)
    have hname : 2 ≤ v.wireDepth → ∀ s, IsShort s →
        Carries reads (.name s) (Reader.stringIn (Reader.value budget)) s := by
      intro h2 s hs
      obtain ⟨levels, rfl⟩ := Nat.exists_eq_succ_of_ne_zero (show budget ≠ 0 by omega)
      exact nameString hs
    cases v with
    | null | bool | byte | short | int | long | float | double => exact fixed rfl
    | char c => exact fixed (if_pos hv.fits)
    | string s =>
      exact payload fun names g rest => by
        rw [Reader.payload, Reader.bind_of_ok (Reader.stringBody_append hv.fits ..),
          Reader.pure_apply]
    | array component items =>
      exact arrayOf hv.fits.2 (hname (by rw [Value.wireDepth]; omega) component hv.fits.1) hchild
    | list items | set items =>
      refine tagged ((emit (Reader.length_append hv.fits)).bind ?_)
      rw [keysWriter_eq]
      exact (Carries.items hkey).map _
    | map entries =>
      exact mapOf hv.fits (fun p hp => hkey p.1 (Value.mem_children_of_entry hp).1)
        fun p hp => hchild p.2 (Value.mem_children_of_entry hp).2
    | entry k w =>
      exact entryOf (hkey k (List.mem_cons_self ..))
        (hchild w (List.mem_cons_of_mem _ (List.mem_cons_self ..)))
    | enum e => exact enumOf hv.fits.1 (hname (by rw [Value.wireDepth]) _ hv.fits.2)
    | record r =>
      have hmem : ∀ p ∈ r.fields, p.2 ∈ (Value.record r).children :=
        fun p hp => List.mem_map_of_mem hp
      exact recordOf hv.fits hreads.self (fun p hp => ⟨hv.child (hmem p hp), hchild _ (hmem p hp)⟩)
        (hname (by rw [Value.wireDepth]; omega))
    | bytes data | foreign data =>
      exact payload fun names g rest => by
        rw [Reader.payload, List.append_assoc,
          Reader.bind_of_ok (Reader.byteData_append hv.fits ..), Reader.pure_apply]
    | typeByName name | typeBySignature name =>
      exact behind (Reader.value_tagged budget _) ((hname (by rw [Value.wireDepth]) name hv.fits).map _)

theorem value {v : Value} (hv : v.AllFit g) (hdepth : v.wireDepth ≤ budget) :
    Carries (·.ReadsFor g) (valueWriter g v) (Reader.value budget) v :=
  valueOf hv (hv.everyRecord fun r hr =>
    ⟨_, g.givesBack_layoutOf r _, resolve hr.split_signature hr.typeName_ne⟩) hdepth

end Carries

namespace Decoder

variable {α : Type} {d : Decoder} {g : Registry} {r : Nat → Reader α} {input : List UInt8}
  {s : ReadState}

theorem read_of_ok {a : α} (h : r d.budget ⟨d.names, g, input⟩ = .ok a s) :
    d.read g r input = ⟨.ok (a, s.input), ⟨s.names, d.depth⟩, s.registry⟩ := by
  have hrun : (r d.budget).run ⟨d.names, g, input⟩ = .ok a s := h
  simp only [read, hrun]

theorem read_of_error {f : Failure} (h : r d.budget ⟨d.names, g, input⟩ = .error f s) :
    d.read g r input = ⟨.error f, ⟨s.names, d.depth⟩, s.registry⟩ := by
  have hrun : (r d.budget).run ⟨d.names, g, input⟩ = .error f s := h
  simp only [read, hrun]

theorem result_read_eq_ok_iff {a : α} {rest : List UInt8} :
    (d.read g r input).result = .ok (a, rest) ↔
      ∃ s, r d.budget ⟨d.names, g, input⟩ = .ok a s ∧ s.input = rest := by
  cases hread : r d.budget ⟨d.names, g, input⟩ with
  | ok a' s => simp [read_of_ok hread]
  | error f s => simp [read_of_error hread]

theorem exists_of_read {a : α} {rest : List UInt8}
    (h : (d.read g r input).result = .ok (a, rest)) :
    ∃ s, r d.budget ⟨d.names, g, input⟩ = .ok a s := by
  obtain ⟨s, hread, -⟩ := result_read_eq_ok_iff.mp h
  exact ⟨s, hread⟩

end Decoder

theorem Carries.decode {α : Type} {reads : Registry → Prop} {g : Registry} {w : Writer}
    {r : Nat → Reader α} {a : α} {e : Encoder} {d : Decoder} (h : Carries reads w (r d.budget) a)
    (hagrees : e.names.Agrees d.names) (hg : reads g)
    (hsize : (e.write w).encoder.interned ≤ maxNames) (rest : List UInt8) :
    let reading := d.read g r ((e.write w).bytes ++ rest)
    reading.result = .ok (a, rest) ∧ (e.write w).encoder.names.Agrees reading.decoder.names ∧
      reading.decoder.depth = d.depth ∧ reads reading.registry := by
  intro reading
  obtain ⟨names, g', hr, hnames, hg'⟩ := h.read e.names d.names g rest hagrees hg hsize
  have hread : reading = _ := Decoder.read_of_ok hr
  rw [hread]
  exact ⟨rfl, hnames, rfl, hg'⟩

/-- An encoder and a decoder of one direction, between two values. -/
structure Paired (e : Encoder) (d : Decoder) : Prop where
  agrees : e.names.Agrees d.names
  depth_eq : d.depth = 0

theorem Paired.new : Paired .new .new := ⟨NameIndex.empty_agrees, rfl⟩

theorem Paired.budget_eq {e : Encoder} {d : Decoder} (h : Paired e d) : d.budget = maxNesting := by
  rw [Decoder.budget, h.depth_eq, Nat.sub_zero]

theorem Carries.read_write {α : Type} {reads : Registry → Prop} {g : Registry} {w : Writer}
    {r : Nat → Reader α} {a : α} (h : Carries reads w (r maxNesting) a) {e : Encoder} {d : Decoder}
    (hpair : Paired e d) (hg : reads g) (hsize : (e.write w).encoder.interned ≤ maxNames)
    (rest : List UInt8) :
    (d.read g r ((e.write w).bytes ++ rest)).result = .ok (a, rest) ∧
      Paired (e.write w).encoder (d.read g r ((e.write w).bytes ++ rest)).decoder ∧
      reads (d.read g r ((e.write w).bytes ++ rest)).registry := by
  rw [← hpair.budget_eq] at h
  obtain ⟨hresult, hnames, hdepth, hg'⟩ := h.decode hpair.agrees hg hsize rest
  exact ⟨hresult, ⟨hnames, hdepth.trans hpair.depth_eq⟩, hg'⟩

theorem read_write_value {g : Registry} (hg : g.Grown) {e : Encoder} {d : Decoder}
    (hpair : Paired e d) {v : Value} (hv : v.Portable g)
    (hsize : (e.write (valueWriter g v)).encoder.interned ≤ maxNames) (rest : List UInt8) :
    let written := e.write (valueWriter g v)
    let reading := d.read g Reader.value (written.bytes ++ rest)
    written.failure? = none ∧ reading.result = .ok (v, rest) ∧
      Paired written.encoder reading.decoder ∧ reading.registry.ReadsFor g := by
  have hcarries := Carries.value hv.allFit hv.wireDepth_le
  exact ⟨hcarries.failure?_eq e.names, hcarries.read_write hpair hg.readsFor hsize rest⟩

/-- A list of a name and a record of a known type, read with another byte behind it. -/
theorem read_write_value_record :
    (Decoder.new.read .initial Reader.value
      ((Encoder.new.write (valueWriter .initial
        (.list [.string "Io", .record ⟨RemoteFailure.typeName,
          [("kind", .string "Io"), ("message", .char 'x'), ("stack", .null)]⟩]))).bytes ++
        [7])).result =
      .ok (.list [.string "Io", .record ⟨RemoteFailure.typeName,
        [("kind", .string "Io"), ("message", .char 'x'), ("stack", .null)]⟩], [7]) := by
  refine (read_write_value .initial Paired.new ⟨?_, by decide⟩ (by decide +kernel) [7]).2.1
  have hshort : IsShort "Io" := by
    unfold IsShort
    decide
  have hrecord : RecordOf.Fits .initial ⟨RemoteFailure.typeName,
      [("kind", .string "Io"), ("message", .char 'x'), ("stack", .null)]⟩ := by
    refine ⟨by decide, by decide, by unfold IsShort; decide +kernel, fun t ht => ?_⟩
    cases ht
    exact ⟨by decide, .cons ⟨rfl, .object _⟩ (.cons ⟨rfl, .object _⟩ (.cons ⟨rfl, .object _⟩ .nil))⟩
  have htwo : 2 ≤ Reader.maxLength := by decide
  refine .intro htwo fun w hw => ?_
  rcases List.mem_pair.mp hw with rfl | rfl
  · exact .leaf rfl hshort
  · refine .intro hrecord fun w hw => ?_
    rcases List.mem_cons.mp hw with rfl | hw
    · exact .leaf rfl hshort
    · rcases List.mem_pair.mp hw with rfl | rfl
      · exact .leaf rfl (show 'x'.toNat ≤ 0xFFFF by decide)
      · exact .leaf rfl trivial

end Wire

end RemoteCall
