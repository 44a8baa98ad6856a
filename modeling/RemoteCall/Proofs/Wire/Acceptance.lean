import RemoteCall.Proofs.Wire.CharFields
import RemoteCall.Proofs.Wire.Refusals
import RemoteCall.Proofs.Wire.Verdict

/-!
# What a reader accepts of what a writer accepts

A value that a writer accepts is read back exactly if it is legible: otherwise the reader fails on
the bytes that were sent. The proof is by induction on the levels of nesting that the reader has
left, one case for each constructor.
-/

namespace RemoteCall.Wire

theorem Reader.length_le_of_data {data a : List UInt8} {names : NameTable} {known : Registry}
    {rest : List UInt8} {s : ReadState} (hlt : (countBytes data.length ++ data).length < 2 ^ 64)
    (h : Reader.byteData ⟨names, known, countBytes data.length ++ data ++ rest⟩ = .ok a s) :
    data.length ≤ Reader.maxLength := by
  rw [List.length_append] at hlt
  rw [List.append_assoc] at h
  exact Reader.length_le_of_byteData (by omega) h

namespace OnTrack

variable {g : Registry} {conveyed : String → Prop} {ws : List Writer} {e final : NameIndex}
  {s : ReadState}

theorem resolve (h : OnTrack g conveyed ws e final s) {signature typeName : String}
    {names : List String} (hsplit : Text.split ',' signature = typeName :: names)
    (hne : typeName ≠ "") :
    ∃ t, Reader.resolve signature s = .ok (g.layoutOf signature typeName names) t ∧
      OnTrack g conveyed ws e final t := by
  have hlayout := Registry.resolve_of_split h.readsFor.isCurrent hsplit hne
  rw [Registry.layoutOf_congr h.readsFor.lookup?_eq] at hlayout
  have hkeeps := (h.ahead.keepsSlots.resolve signature).1
  exact ⟨_, Reader.resolve_eq_ok_iff.mpr ⟨hlayout, rfl⟩, h.ahead.withRegistry hkeeps,
    h.readsFor.resolve signature, h.conveys_iff⟩

end OnTrack

namespace TakesIff

variable {α : Type} {g : Registry} {conveyed : String → Prop} {p : Prop} {ws : List Writer}
  {budget : Nat}

theorem resolve {signature typeName : String} {names : List String}
    (hsplit : Text.split ',' signature = typeName :: names) (hne : typeName ≠ "")
    {f : WireLayout → Reader α}
    (h : TakesIff g conveyed p ws (f (g.layoutOf signature typeName names))) :
    TakesIff g conveyed p ws (Reader.resolve signature >>= f) where
  takes := by
    intro hp rest e final s hs
    obtain ⟨t, hresolve, ht⟩ := hs.resolve hsplit hne
    rw [Reader.bind_of_ok hresolve]
    exact h.takes hp ht
  overruns := by
    intro hp rest e final s a t hs hread
    obtain ⟨u, hresolve, hu⟩ := hs.resolve hsplit hne
    rw [Reader.bind_of_ok hresolve] at hread
    exact h.overruns hp hu hread

/-- With a comma in a name the signature has a slot too many, and without a type none at all. -/
theorem inseparable {typeName : String} {names : List String} (h : ¬ Separable typeName names)
    (hlength : ws.length = names.length) {ρ : Type}
    {step : WireLayout → ρ → String × Option Field → Reader ρ}
    (hstep : ∀ layout b a, Consumes 1 (step layout b a)) (init : WireLayout → ρ) :
    TakesIff g conveyed False ws (do
      let layout ← Reader.resolve (signatureOf typeName names)
      layout.slots.foldlM (step layout) (init layout)) where
  takes hp := hp.elim
  overruns := by
    intro _ rest e final s a t hs hread
    obtain ⟨layout, u, hresolve, hread⟩ := Reader.bind_eq_ok_iff.mp hread
    obtain ⟨hlayout, rfl⟩ := Reader.resolve_eq_ok_iff.mp hresolve
    obtain ⟨hkeeps, hslots⟩ := hs.ahead.keepsSlots.resolve (signatureOf typeName names)
    have hcount := hslots layout hlayout
    by_cases hcomma : ∃ s ∈ typeName :: names, ',' ∈ s.toList
    · -- the slot too many takes an item of what stands behind the record
      have hparts := Text.length_lt_length_split_join hcomma
      change _ < (Text.split ',' (signatureOf typeName names)).length at hparts
      rw [List.length_cons] at hparts
      obtain ⟨ws', e', ht, hpassed⟩ := Consumes.foldlM (hstep layout) layout.slots (init layout)
        (hs.ahead.withRegistry hkeeps) hread
      refine ⟨ws', e', ht, hpassed.length_lt ?_⟩
      rw [List.length_append]
      omega
    · have hnone : ∀ s ∈ typeName :: names, ',' ∉ s.toList := by
        intro s hs hmem
        exact hcomma ⟨s, hs, hmem⟩
      have hempty : typeName = "" := by
        by_contra hne
        exact h ⟨hne, hnone⟩
      subst hempty
      have hsplit : Text.split ',' (signatureOf "" names) = "" :: names := Text.split_join hnone
      rw [Registry.resolve_of_split_empty hs.readsFor.isCurrent hsplit] at hlayout
      cases hlayout

section Records

variable {inner : Value → Prop}

theorem field (f : Field) (r r' : Record)
    (hinner : ∀ v, TakesIff g conveyed (inner v) [valueWriter g v] (Reader.value budget)) :
    TakesIff g conveyed (f.Legible inner r)
      [fieldWriter r ⟨r.typeName, namedWriters g r.fields⟩ f]
      (Reader.intoField (Reader.value budget) f r') := by
  have hint : ∀ n, TakesIff g conveyed (f.kind = .char → 0 ≤ n ∧ n ≤ 0xFFFF)
      [.emit (numberBytes n)] (Reader.number >>= fun n => Reader.ofExcept (f.setInt r' n)) := by
    intro n
    refine congr (emit (fun hset names g rest => ?_) fun names g rest a t _ hread => ?_)
      (Field.setInt_eq_ok_iff (r := r'))
    · obtain ⟨r'', hset⟩ := hset
      exact ⟨r'', by rw [Reader.bind_of_ok (Reader.number_append ..), hset]; rfl⟩
    · rw [Reader.bind_of_ok (Reader.number_append ..)] at hread
      cases hset : f.setInt r' n with
      | ok r'' => exact ⟨r'', rfl⟩
      | error e =>
        rw [hset] at hread
        cases hread
  cases hkind : f.kind with
  | bool =>
    simp only [fieldWriter, Reader.intoField, Field.Legible, hkind]
    refine ofExcept fun b _ => ?_
    exact (always fun names g rest => ⟨b, Reader.bool_append b names g rest⟩).map _
  | float | double =>
    simp only [fieldWriter, Reader.intoField, Field.Legible, hkind]
    refine ofExcept fun x _ => always fun names g rest => ?_
    obtain ⟨r'', hset⟩ := f.exists_setFloat (by simp [hkind]) r' x.unsignedZero
    exact ⟨r'', by rw [Reader.bind_of_ok (Reader.float_append x names g rest), hset]; rfl⟩
  | object =>
    simp only [fieldWriter, Reader.intoField, Field.Legible, hkind, getD_slot?_namedWriters]
    exact (hinner (f.get r)).map _
  | char =>
    simp only [fieldWriter, Reader.intoField, Field.Legible, hkind]
    refine ofExcept fun n hn => (hint n).congr ?_
    simp [hkind, hn]
  | byte | short | int | long =>
    simp only [fieldWriter, Reader.intoField, Field.Legible, hkind]
    refine ofExcept fun n _ => (hint n).congr ?_
    simp [hkind]

/-- A record of a known type is read field by field, in the order of its type. -/
theorem recordOfType {r : Record} {t : RecordType} (ht : g.lookup? r.typeName = some t)
    (hplain : t.IsPlain)
    (hinner : ∀ v, TakesIff g conveyed (inner v) [valueWriter g v] (Reader.value budget)) :
    TakesIff g conveyed
      ((conveyed t.signature ∧ 0 < budget) ∧ ∀ f ∈ t.fields, f.Legible inner r)
      (.name t.signature ::
        t.fields.map (fieldWriter r ⟨r.typeName, namedWriters g r.fields⟩))
      (Reader.recordBody (Reader.value budget)) := by
  refine named (resolve hplain.separable.split_signature hplain.separable.typeName_ne ?_)
  have hname : g.lookup? t.name = some t := by rw [Registry.name_of_lookup? ht, ht]
  simp only [Registry.layoutOf, hname, RecordType.slots_eq hplain.nodup]
  exact foldlM (fun r' f _ => field f r r' hinner)
    (Reader.intoSlot_consumes (Reader.value_consumes budget) _) _

/-- A record of an unknown type is read with the names that its signature falls into. -/
theorem recordAsWritten {r : Record} (ht : g.lookup? r.typeName = none)
    (hinner : ∀ v, TakesIff g conveyed (inner v) [valueWriter g v] (Reader.value budget)) :
    TakesIff g conveyed
      ((conveyed (signatureOf r.typeName r.names) ∧ 0 < budget) ∧
        Separable r.typeName r.names ∧ ∀ p ∈ r.fields, inner p.2)
      (.name (signatureOf r.typeName r.names) :: r.fields.map fun p => valueWriter g p.2)
      (Reader.recordBody (Reader.value budget)) := by
  have hslot : ∀ layout : WireLayout, ∀ b a,
      Consumes 1 (Reader.intoSlot (Reader.value budget) layout.isDynamic b a) :=
    fun layout => Reader.intoSlot_consumes (Reader.value_consumes budget) _
  by_cases hsep : Separable r.typeName r.names
  · refine named (congr (resolve hsep.split_signature hsep.typeName_ne ?_)
      (show (∀ p ∈ r.fields, inner p.2) ↔ _ from (and_iff_right hsep).symm))
    simp only [Registry.layoutOf, ht, RecordOf.names, List.map_map]
    exact foldlM (fun r' p _ => (hinner p.2).map fun v => r'.push p.1 v) (hslot _) _
  · refine named (congr (inseparable hsep ?_ hslot WireLayout.blank) ?_)
    · simp [RecordOf.names]
    · simp [hsep]

end Records

theorem key {inner : Value → Prop} {v : Value}
    (h : TakesIff g conveyed (inner v) [valueWriter g v] (Reader.value budget)) :
    TakesIff g conveyed (v.LegibleKey inner fun s => conveyed s ∧ 0 < budget)
      [keyOr (valueWriter g v) v] (Reader.value budget) := by
  cases v with
  | string s => exact name s budget
  | _ => exact h

theorem leaf {v : Value} {bytes : List UInt8} (hbytes : valueWriter g v = .emit bytes)
    (hchildren : v.children = []) (hfits : v.Fits g) (hdepth : v.wireDepth = 1) :
    TakesIff g conveyed True [valueWriter g v] (Reader.value (budget + 1)) := by
  have hcarries : Carries (·.ReadsFor g) (valueWriter g v) (Reader.value (budget + 1)) v :=
    Carries.value (.leaf hchildren hfits) (by omega)
  rw [hbytes] at hcarries ⊢
  exact ofCarries hcarries

/-- Of a leaf with a length it is enough that nothing too long can be read. -/
theorem leafIff {v : Value} {t : Tag} {bytes : List UInt8}
    (hbytes : valueWriter g v = .emit (Wire.tagged t bytes)) (hchildren : v.children = [])
    (hdepth : v.wireDepth = 1)
    (hfits : ∀ names known rest a s, bytes.length < 2 ^ 64 →
      Reader.payload (Reader.value budget) t ⟨names, known, bytes ++ rest⟩ = .ok a s → v.Fits g) :
    TakesIff g conveyed (v.Fits g) [valueWriter g v] (Reader.value (budget + 1)) := by
  by_cases hv : v.Fits g
  · exact (leaf hbytes hchildren hv hdepth).congr (iff_of_true trivial hv)
  · rw [hbytes]
    refine emit (fun h => absurd h hv) fun names known rest a s hlt hread => ?_
    rw [tagged_append, Reader.value_tagged] at hread
    rw [Wire.tagged, List.length_cons] at hlt
    exact hfits names known rest a s (by omega) hread

theorem tagged {t : Tag} (hitems : ∀ w ∈ ws, IsItem w)
    (h : TakesIff g conveyed p ws (Reader.payload (Reader.value budget) t)) :
    TakesIff g conveyed p [.emit [t.byte] ++ .concat ws] (Reader.value (budget + 1)) :=
  group hitems (fun names g rest => Reader.value_tagged budget t names g rest) h

theorem taggedCount {t : Tag} {n : Nat} {f : Nat → Reader Value} (hitems : ∀ w ∈ ws, IsItem w)
    (hn : n ≤ ws.length) (hr : Reader.payload (Reader.value budget) t = Reader.length >>= f)
    (h : TakesIff g conveyed p ws (f n)) :
    TakesIff g conveyed (n ≤ Reader.maxLength ∧ p)
      [.emit (Wire.tagged t (countBytes n)) ++ .concat ws] (Reader.value (budget + 1)) := by
  refine counted hitems hn (fun names g rest => ?_) h
  rw [tagged_append, Reader.value_tagged, hr]

theorem taggedName {t : Tag} {x : String} {f : String → Reader Value}
    (hr : Reader.payload (Reader.value budget) t = Reader.stringIn (Reader.value budget) >>= f)
    (h : TakesIff g conveyed True [] (f x)) :
    TakesIff g conveyed (conveyed x ∧ 0 < budget) [.emit [t.byte] ++ .name x]
      (Reader.value (budget + 1)) := by
  have hitems : ∀ w ∈ [Writer.name x], IsItem w := List.forall_mem_singleton.mpr (.name x)
  have hnamed : TakesIff g conveyed ((conveyed x ∧ 0 < budget) ∧ True) [.name x]
      (Reader.stringIn (Reader.value budget) >>= f) := named h
  rw [← hr, and_true] at hnamed
  have htagged := tagged hitems hnamed
  rwa [Writer.concat_singleton] at htagged

theorem enum (e : EnumName) :
    TakesIff g conveyed (conveyed e.wireName ∧ 0 < budget) [valueWriter g (.enum e)]
      (Reader.value (budget + 1)) := by
  obtain ⟨e', hname, -⟩ := Reader.exists_enumName e
  refine taggedName rfl ?_
  rw [hname]
  exact (pure _).map _

theorem items {p : Value → Prop} {w : Value → Writer} {vs : List Value}
    (h : ∀ v ∈ vs, TakesIff g conveyed (p v) [w v] (Reader.value budget)) :
    TakesIff g conveyed (∀ v ∈ vs, p v) (vs.map w)
      (Reader.times (Reader.value budget) vs.length) := by
  rw [List.map_eq_flatMap]
  exact times h (fun _ => rfl) (Reader.value_consumes budget)

section Values

variable {inner : Value → Prop}
  (hinner : ∀ v, TakesIff g conveyed (inner v) [valueWriter g v] (Reader.value budget))
include hinner

theorem keys (vs : List Value) :
    TakesIff g conveyed (∀ v ∈ vs, v.LegibleKey inner fun s => conveyed s ∧ 0 < budget)
      (vs.map fun v => keyOr (valueWriter g v) v)
      (Reader.times (Reader.value budget) vs.length) := items fun v _ => key (hinner v)

theorem pair (p : Value × Value) :
    TakesIff g conveyed
      (p.1.LegibleKey inner (fun s => conveyed s ∧ 0 < budget) ∧ inner p.2)
      [keyOr (valueWriter g p.1) p.1, valueWriter g p.2]
      (Reader.pair (Reader.value budget) (Reader.value budget)) :=
  (key (hinner p.1)).bind (fun k => (hinner p.2).map fun v => (k, v)) fun k =>
    (Reader.value_consumes budget).map fun v => (k, v)

theorem entries (vs : List (Value × Value)) :
    TakesIff g conveyed
      (∀ p ∈ vs, p.1.LegibleKey inner (fun s => conveyed s ∧ 0 < budget) ∧ inner p.2)
      (vs.flatMap fun p => [keyOr (valueWriter g p.1) p.1, valueWriter g p.2])
      (Reader.times (Reader.pair (Reader.value budget) (Reader.value budget)) vs.length) := by
  have hpair : Consumes 2 (Reader.pair (Reader.value budget) (Reader.value budget)) :=
    (Reader.value_consumes budget).bind fun k => (Reader.value_consumes budget).map fun v => (k, v)
  exact times (fun p _ => pair hinner p) (fun _ => rfl) hpair

theorem mapOf (vs : List (Value × Value)) :
    TakesIff g conveyed
      (vs.length ≤ Reader.maxLength ∧
        ∀ p ∈ vs, p.1.LegibleKey inner (fun s => conveyed s ∧ 0 < budget) ∧ inner p.2)
      [valueWriter g (.map vs)] (Reader.value (budget + 1)) := by
  rw [valueWriter, entriesWriter_eq_concat]
  refine taggedCount ?_ (by simp [List.length_flatMap]; omega) rfl ((entries hinner vs).map _)
  intro w hw
  obtain ⟨p, -, hw⟩ := List.mem_flatMap.mp hw
  rcases List.mem_pair.mp hw with rfl | rfl
  · exact (valueWriter_isItem p.1).keyOr p.1
  · exact valueWriter_isItem p.2

theorem entry (k w : Value) :
    TakesIff g conveyed (k.LegibleKey inner (fun s => conveyed s ∧ 0 < budget) ∧ inner w)
      [valueWriter g (.entry k w)] (Reader.value (budget + 1)) := by
  rw [valueWriter, ← (valueWriter g w).append_nothing]
  have hitems : ∀ u ∈ [keyOr (valueWriter g k) k, valueWriter g w], IsItem u :=
    List.forall_mem_cons.mpr ⟨(valueWriter_isItem k).keyOr k,
      List.forall_mem_singleton.mpr (valueWriter_isItem w)⟩
  exact tagged (t := .entry) hitems
    ((key (hinner k)).bind (fun k => (hinner w).map (Value.entry k)) fun k =>
      (Reader.value_consumes budget).map (Value.entry k))

theorem record (hg : g.IsPlain) (r : Record) :
    TakesIff g conveyed (r.Legible inner (fun s => conveyed s ∧ 0 < budget) g)
      [valueWriter g (.record r)] (Reader.value (budget + 1)) := by
  obtain ⟨typeName, fields⟩ := r
  have hitem : ∀ p ∈ namedWriters g fields, IsItem p.2 := by
    rw [namedWriters_eq]
    exact List.forall_mem_map.mpr fun p _ => valueWriter_isItem p.2
  rw [valueWriter, recordWriter, RecordOf.Legible]
  cases ht : g.lookup? typeName with
  | some t =>
    dsimp only
    rw [fieldWriters_eq, ← Writer.concat_cons]
    refine tagged ?_ ((recordOfType (r := ⟨typeName, fields⟩) ht (hg.of_lookup? ht) hinner).map _)
    exact List.forall_mem_cons.mpr ⟨.name _, List.forall_mem_map.mpr fun f _ =>
      fieldWriter_isItem hitem f⟩
  | none =>
    dsimp only
    rw [sequenceOf_eq, ← Writer.concat_cons, namedWriters_eq, List.map_map]
    refine tagged ?_ ((recordAsWritten (r := ⟨typeName, fields⟩) ht hinner).map _)
    exact List.forall_mem_cons.mpr ⟨.name _, List.forall_mem_map.mpr fun p _ =>
      valueWriter_isItem p.2⟩

end Values

/-- Induction on the levels left: the values inside a value are read with one level less. -/
theorem value (hg : g.IsPlain) (budget : Nat) (v : Value) :
    TakesIff g conveyed (v.Legible g conveyed budget) [valueWriter g v]
      (Reader.value budget) := by
  induction budget generalizing v with
  | zero =>
    exact ⟨fun h => h.elim, fun _ _ _ _ _ _ _ _ h => nomatch h⟩
  | succ budget ih =>
    have hitem : ∀ w, IsItem (valueWriter g w) := valueWriter_isItem
    have hkey : ∀ w, IsItem (keyOr (valueWriter g w) w) := fun w => (hitem w).keyOr w
    cases v with
    | null | bool | byte | short | int | long | float | double =>
      exact leaf rfl rfl trivial rfl
    | char c =>
      by_cases hc : c.toNat ≤ 0xFFFF
      · exact leaf (if_pos hc) rfl hc rfl
      · rw [valueWriter, charWriter, if_neg hc]
        exact fail _ _ _
    | string s =>
      refine leafIff (v := .string s) rfl rfl rfl fun names known rest a t hlt hread => ?_
      obtain ⟨x, u, hx, -⟩ := Reader.bind_eq_ok_iff.mp hread
      have hunits := length_units_le s
      exact Reader.length_le_of_stringBody (by omega) hx
    | bytes data =>
      refine leafIff (v := .bytes data) rfl rfl rfl fun names known rest a t hlt hread => ?_
      obtain ⟨x, u, hx, -⟩ := Reader.bind_eq_ok_iff.mp hread
      exact Reader.length_le_of_data hlt hx
    | foreign data =>
      refine leafIff (v := .foreign data) rfl rfl rfl fun names known rest a t hlt hread => ?_
      obtain ⟨x, u, hx, -⟩ := Reader.bind_eq_ok_iff.mp hread
      exact Reader.length_le_of_data hlt hx
    | array component vs =>
      rw [valueWriter, itemsWriter_eq]
      have hitems : ∀ w ∈ Writer.name component :: vs.map (valueWriter g), IsItem w :=
        List.forall_mem_cons.mpr ⟨.name _, List.forall_mem_map.mpr fun w _ => hitem w⟩
      exact taggedCount hitems (by simp) rfl (named ((items fun w _ => ih w).map _))
    | list vs | set vs =>
      rw [valueWriter, keysWriter_eq]
      refine taggedCount (List.forall_mem_map.mpr fun w _ => hkey w) (by simp) rfl ?_
      exact (keys ih vs).map _
    | map vs => exact mapOf ih vs
    | entry k w => exact entry ih k w
    | enum e => exact enum e
    | typeByName name => exact taggedName rfl (pure _)
    | typeBySignature signature => exact taggedName rfl (pure _)
    | record r => exact record ih hg r

end TakesIff

/-- Before the first item an encoder and its decoder are on track. -/
theorem Paired.onTrack {g : Registry} (hg : g.Grown) {e : Encoder} {d : Decoder}
    (hpair : Paired e d) {v : Value} (haccepted : (e.write (valueWriter g v)).failure? = none)
    (hsize : (e.write (valueWriter g v)).encoder.interned ≤ maxNames)
    (hlength : (e.write (valueWriter g v)).bytes.length < 2 ^ 64) :
    OnTrack g e.names.Conveys ([valueWriter g v] ++ []) e.names
      (e.write (valueWriter g v)).encoder.names
      ⟨d.names, g, (e.write (valueWriter g v)).bytes⟩ := by
  have hitem : IsItem (valueWriter g v) := valueWriter_isItem v
  have hconcat : Writer.concat ([valueWriter g v] ++ []) = valueWriter g v :=
    Writer.concat_singleton _
  refine ⟨⟨List.forall_mem_singleton.mpr hitem, hpair.agrees, hg.isCurrent.keepsSlots,
    ?_, ?_, ?_, hsize, hlength⟩, hg.readsFor, fun _ => Iff.rfl⟩
  · rw [hconcat]
    rfl
  · rw [hconcat]
    exact haccepted
  · rw [hconcat]
    rfl

section Paired

variable {g : Registry} (hg : g.Grown) (hplain : g.IsPlain) {e : Encoder} {d : Decoder}
  (hpair : Paired e d) {v : Value} (haccepted : (e.write (valueWriter g v)).failure? = none)
  (hsize : (e.write (valueWriter g v)).encoder.interned ≤ maxNames)
  (hlength : (e.write (valueWriter g v)).bytes.length < 2 ^ 64)
include hg hplain hpair haccepted hsize hlength

/-- A legible value is read to the last byte, and the two ends agree after it. -/
theorem read_of_legible (hv : v.Legible g e.names.Conveys maxNesting) :
    let reading := d.read g Reader.value (e.write (valueWriter g v)).bytes
    (∃ w, reading.result = .ok (w, [])) ∧
      Paired (e.write (valueWriter g v)).encoder reading.decoder ∧
      reading.registry.ReadsFor g := by
  intro reading
  have htrack := hpair.onTrack hg haccepted hsize hlength
  obtain ⟨w, t, e', hread, ht⟩ := (TakesIff.value hplain maxNesting v).takes hv htrack
  rw [← hpair.budget_eq] at hread
  have hreading : reading = ⟨.ok (w, t.input), ⟨t.names, d.depth⟩, t.registry⟩ :=
    Decoder.read_of_ok hread
  have hnames : e' = (e.write (valueWriter g v)).encoder.names := ht.ahead.names_eq
  have hinput : t.input = [] := ht.ahead.input_eq
  have hagrees := ht.ahead.agrees
  rw [hnames] at hagrees
  rw [hreading, hinput]
  exact ⟨⟨w, rfl⟩, ⟨hagrees, hpair.depth_eq⟩, ht.readsFor⟩

theorem read_of_not_legible (hv : ¬ v.Legible g e.names.Conveys maxNesting) :
    ∃ f, (d.read g Reader.value (e.write (valueWriter g v)).bytes).result = .error f := by
  have htrack := hpair.onTrack hg haccepted hsize hlength
  cases hread : Reader.value d.budget ⟨d.names, g, (e.write (valueWriter g v)).bytes⟩ with
  | error f s => exact ⟨f, congrArg Decoding.result (Decoder.read_of_error hread)⟩
  | ok w t =>
    rw [hpair.budget_eq] at hread
    obtain ⟨ws', e', -, hlt⟩ := (TakesIff.value hplain maxNesting v).overruns hv htrack hread
    exact absurd hlt (Nat.not_lt_zero _)

end Paired

/-- A writer refuses a value or accepts it. What it accepts is read back to the last byte exactly if
it is legible, and then the two ends agree; if it is not legible, the read fails. -/
theorem accepted_reads_iff_legible {g : Registry} (hg : g.Grown) (hplain : g.IsPlain) {e : Encoder}
    {d : Decoder} (hpair : Paired e d) (v : Value)
    (hsize : (e.write (valueWriter g v)).encoder.interned ≤ maxNames)
    (hlength : (e.write (valueWriter g v)).bytes.length < 2 ^ 64) :
    let written := e.write (valueWriter g v)
    let reading := d.read g Reader.value written.bytes
    (∀ f, written.failure? = some f → f.IsRefusal ∧ f.isFatal = false) ∧
      (written.failure? = none →
        ((∃ w, reading.result = .ok (w, [])) ↔ v.Legible g e.names.Conveys maxNesting) ∧
        ((∃ f, reading.result = .error f) ↔ ¬ v.Legible g e.names.Conveys maxNesting) ∧
        (v.Legible g e.names.Conveys maxNesting →
          Paired written.encoder reading.decoder ∧ reading.registry.ReadsFor g)) := by
  intro written reading
  have hrefuses : ∀ f, written.failure? = some f → f.IsRefusal ∧ f.isFatal = false := by
    intro f hf
    have hrefusal := valueWriter_onlyRefuses v e.names f hf
    exact ⟨hrefusal, hrefusal.not_isFatal⟩
  refine ⟨hrefuses, fun haccepted => ?_⟩
  have htakes := read_of_legible hg hplain hpair haccepted hsize hlength
  have hfails := read_of_not_legible hg hplain hpair haccepted hsize hlength
  refine ⟨⟨?_, fun hv => (htakes hv).1⟩, ⟨?_, hfails⟩, fun hv => (htakes hv).2⟩
  · rintro ⟨w, hw⟩
    by_contra hv
    obtain ⟨f, hf⟩ := hfails hv
    cases hw.symm.trans hf
  · rintro ⟨f, hf⟩ hv
    obtain ⟨⟨w, hw⟩, -⟩ := htakes hv
    cases hw.symm.trans hf

/-- Two fields are read back, and one field with a comma in its name is not. -/
theorem accepted_reads_iff_legible_pair :
    let received := fun fields => (Decoder.new.read .initial Reader.value
      (Encoder.new.write (valueWriter .initial (.record ⟨"Pair", fields⟩))).bytes).result
    (∃ w, received [("left", .null), ("right", .null)] = .ok (w, [])) ∧
      ∃ f, received [("left,right", .null)] = .error f := by
  have hunknown : Registry.initial.lookup? "Pair" = none := by decide
  have hnone : ∀ fields, Registry.initial.lookup? (⟨"Pair", fields⟩ : Record).typeName = none :=
    fun _ => hunknown
  constructor
  · refine ((accepted_reads_iff_legible .initial .initial Paired.new _ (by decide +kernel)
      (by decide +kernel)).2 (by decide +kernel)).1.mpr ?_
    have hshort : IsShort "Pair,left,right" := by decide +kernel
    refine (Value.legible_record_iff (hnone _) 255).mpr
      ⟨⟨.inl hshort, by decide⟩, ⟨by decide, by decide⟩, ?_⟩
    exact List.forall_mem_cons.mpr ⟨trivial, List.forall_mem_singleton.mpr trivial⟩
  · refine ((accepted_reads_iff_legible .initial .initial Paired.new _ (by decide +kernel)
      (by decide +kernel)).2 (by decide +kernel)).2.1.mpr fun hlegible => ?_
    obtain ⟨-, hseparable, -⟩ := (Value.legible_record_iff (hnone _) 255).mp hlegible
    exact hseparable.notMem_comma "left,right" (by decide) (by decide)

def nestedList : Nat → Value
  | 0 => .null
  | n + 1 => .list [nestedList n]

/-- Three values that are accepted and not read back: a number too large for the character of its
field, a comma in the name of a field, and lists nested too deeply. -/
theorem accepted_not_read :
    let g := Registry.initial.register cellType
    let sent := fun v => Encoder.new.write (valueWriter g v)
    let received := fun v => (Decoder.new.read g Reader.value (sent v).bytes).result
    let cell := Value.record ⟨"Cell", [("unit", .int 0x10000)]⟩
    let pair := Value.record ⟨"Pair", [("left,right", .null)]⟩
    let deep := nestedList maxNesting
    (g.Grown ∧ g.IsPlain ∧ Paired .new .new) ∧
      ((sent cell).failure? = none ∧
        received cell = .error (.notSerializable (.notACharUnit "Cell" "unit" 0x10000))) ∧
      ((sent pair).failure? = none ∧
        received pair = .error (.streamCorrupted (.truncated "value" 1 0))) ∧
      (sent deep).failure? = none ∧ received deep = .error (.streamCorrupted .nestedTooDeeply) := by
  have hcell : cellType.IsPlain := ⟨⟨by decide, by decide⟩, by decide⟩
  exact ⟨⟨.register .initial (by decide), .register .initial hcell, .new⟩,
    ⟨by decide +kernel, by decide +kernel⟩, ⟨by decide +kernel, by decide +kernel⟩,
    by decide +kernel, by decide +kernel⟩

end RemoteCall.Wire
