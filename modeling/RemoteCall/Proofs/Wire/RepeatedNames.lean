import RemoteCall.Proofs.Schema.DistinctNames
import RemoteCall.Proofs.Value.Identity
import RemoteCall.Proofs.Wire.Typed

/-!
# Records whose signature repeats a name

A record of a known type is read into the fields of its type. A record of an unknown type gets a new
field for each name in its signature, and nothing looks whether the name was there before. So the
names of a record that is read are distinct exactly if its type is known or its signature repeats
none, and then, whatever is done with the record, a field is the same by its position and by its
name.
-/

namespace RemoteCall

open Wire

def Registry.NamesOnce (g : Registry) (signature : String) : Prop :=
  ∀ layout, (g.resolve signature).1 = .ok layout → layout.isDynamic = true →
    (Text.split ',' signature).tail.Nodup

namespace Wire

def Decoder.Announces (d : Decoder) (g : Registry) (input : List UInt8) (signature : String) :
    Prop :=
  ∃ rest, (d.read g Reader.string input).result = .ok (signature, rest)

/-- Whatever signature a record starts with in the input, it names no field twice. -/
def Decoder.FindsOnce (d : Decoder) (g : Registry) (input : List UInt8) : Prop :=
  ∀ signature, d.Announces g input signature → g.NamesOnce signature

namespace Reader.Makes

variable {inner : Reader Value} {r : Record}

theorem intoField_nodup (inner : Reader Value) (f : Field) (hr : r.names.Nodup) :
    Makes (Reader.intoField inner f r) (·.names.Nodup) := by
  apply (intoField_types inner f r).mono
  rintro r' ⟨v, rfl, -⟩
  exact f.nodup_names_set hr v

/-- By the layout of a known type nothing but its fields is written. -/
theorem known_nodup (inner : Reader Value) (slots : List (String × Option Field))
    (hr : r.names.Nodup) :
    Makes (slots.foldlM (Reader.intoSlot inner false) r) (·.names.Nodup) := by
  refine foldlM ?_ slots hr
  rintro r ⟨name, _ | f⟩ hr
  · exact (any inner).map fun _ _ => hr
  · exact intoField_nodup inner f hr

/-- By the layout of an unknown type each name makes a field. -/
theorem unknown_names (inner : Reader Value) (names : List String) (r : Record) :
    Makes ((names.map fun name => (name, none)).foldlM (Reader.intoSlot inner true) r)
      fun r' => r'.names = r.names ++ names := by
  induction names generalizing r with
  | nil => exact pure (List.append_nil _).symm
  | cons name names ih =>
    rw [List.map_cons, List.foldlM_cons]
    have hpush : Makes (Reader.intoSlot inner true r (name, none))
        fun r' => r'.names = r.names ++ [name] := by
      apply (any inner).map
      intro v _
      rw [if_pos rfl, RecordOf.push, RecordOf.names, List.map_append]
      rfl
    apply hpush.bind
    intro r' hr'
    apply (ih r').mono
    intro r'' hr''
    rw [hr'', hr', List.append_assoc, List.singleton_append]

end Reader.Makes

namespace Decoder

variable {d : Decoder} {g : Registry} {input rest : List UInt8} {r : Record}

/-- A record that is read starts with a signature, which the registry resolves. -/
theorem exists_layout_of_read (h : (d.read g Reader.record input).result = .ok (r, rest)) :
    ∃ signature layout s t, d.Announces g input signature ∧
      (g.resolve signature).1 = .ok layout ∧
      layout.slots.foldlM (Reader.intoSlot (Reader.value d.budget) layout.isDynamic) layout.blank s
        = .ok r t := by
  obtain ⟨t, hread⟩ := exists_of_read h
  obtain ⟨signature, u, hsignature, hread⟩ := Reader.bind_eq_ok_iff.mp hread
  obtain ⟨layout, s, hlayout, hfields⟩ := Reader.bind_eq_ok_iff.mp hread
  have hresolves : g.Resolves u.registry :=
    ((Reader.Stepwise.value d.budget).stringIn.leads_ok hsignature).resolves
  have hresolve := (Reader.resolve_eq_ok_iff.mp hlayout).1
  rw [hresolves.resolve_eq] at hresolve
  have hstring : Reader.string d.budget ⟨d.names, g, input⟩ = .ok signature u := hsignature
  exact ⟨signature, layout, s, t, ⟨u.input, by rw [read_of_ok hstring]⟩, hresolve, hfields⟩

theorem Announces.unique {signature signature' : String} (h : d.Announces g input signature)
    (h' : d.Announces g input signature') : signature = signature' := by
  obtain ⟨rest, hread⟩ := h
  obtain ⟨rest', hread'⟩ := h'
  rw [hread] at hread'
  cases hread'
  rfl

/-- The names of a record that is read repeat exactly if its signature repeats them. -/
theorem nodup_names_iff_of_read (hg : g.HasDistinctFields)
    (h : (d.read g Reader.record input).result = .ok (r, rest)) :
    r.names.Nodup ↔ d.FindsOnce g input := by
  obtain ⟨signature, layout, s, t, hsignature, hlayout, hfields⟩ := exists_layout_of_read h
  rcases hg.layout_cases hlayout with ⟨type, hknown, htype⟩ | ⟨typeName, names, hsplit, rfl⟩
  · have hdynamic : layout.isDynamic = false := by rw [WireLayout.isDynamic, hknown]; rfl
    have hblank : layout.blank.names.Nodup := by
      rw [WireLayout.blank, hknown]
      dsimp only
      rw [type.names_blank]
      exact htype
    rw [hdynamic] at hfields
    apply iff_of_true
    · exact (Reader.Makes.known_nodup _ layout.slots hblank).of_ok hfields
    · intro signature' hsignature' layout' hlayout' hdynamic'
      rw [hsignature'.unique hsignature, hlayout] at hlayout'
      cases hlayout'
      rw [hdynamic] at hdynamic'
      cases hdynamic'
  · have hnames : r.names = names := (Reader.Makes.unknown_names _ names _).of_ok hfields
    rw [hnames]
    constructor
    · intro hnodup signature' hsignature' _ _ _
      rw [hsignature'.unique hsignature, hsplit]
      exact hnodup
    · intro honce
      have htail := honce signature hsignature _ hlayout rfl
      rwa [hsplit] at htail

theorem hasDistinctFields_read (hg : g.HasDistinctFields) (d : Decoder) (input : List UInt8) :
    (d.read g Reader.record input).registry.HasDistinctFields := by
  have hleads : ReadState.Leads ⟨d.names, g, input⟩
      ((Reader.record d.budget).after ⟨d.names, g, input⟩) :=
    (Reader.Stepwise.value d.budget).recordBody.leads _
  cases hread : Reader.record d.budget ⟨d.names, g, input⟩ with
  | ok r s =>
    rw [read_of_ok hread]
    rw [Reader.after_of_ok hread] at hleads
    exact hleads.resolves.hasDistinctFields hg
  | error f s =>
    rw [read_of_error hread]
    rw [Reader.after_of_error hread] at hleads
    exact hleads.resolves.hasDistinctFields hg

end Decoder

end Wire

/-! ## Everything that is done with records -/

/-- A record that was made by the operations that there are. What a record is read from has to be
allowed. -/
inductive Record.Obtained (allowed : Decoder → Registry → List UInt8 → Prop) : Record → Prop
  | empty (typeName : String) : Obtained allowed (.empty typeName)
  | blank {t : RecordType} (ht : t.HasDistinctNames) : Obtained allowed t.blank
  | set {r : Record} (h : Obtained allowed r) (name : String) (v : Value) :
    Obtained allowed (r.set name v)
  | take {r : Record} (h : Obtained allowed r) (name : String) : Obtained allowed (r.take name).2
  | field {r : Record} (h : Obtained allowed r) (f : Field) (v : Value) :
    Obtained allowed (f.set r v)
  | bool {r : Record} (h : Obtained allowed r) (f : Field) (b : Bool) :
    Obtained allowed (f.setBool r b)
  | int {r r' : Record} (h : Obtained allowed r) {f : Field} {n : Int64}
    (hset : f.setInt r n = .ok r') : Obtained allowed r'
  | float {r r' : Record} (h : Obtained allowed r) {f : Field} {x : Binary64}
    (hset : f.setFloat r x = .ok r') : Obtained allowed r'
  | read {d : Decoder} {g : Registry} {input rest : List UInt8} {r : Record}
    (hg : g.HasDistinctFields) (hallowed : allowed d g input)
    (hread : (d.read g Reader.record input).result = .ok (r, rest)) : Obtained allowed r

namespace Record

/-- No name stands in the record twice, so a field is the same by its position and by its name, and
writing it changes it only. -/
structure Unambiguous (r : Record) : Prop where
  nodup_names : r.names.Nodup
  get_eq : ∀ f : Field, f.get r = (r.get? f.name).getD .null
  set_eq : ∀ (f : Field) (v : Value), f.set r v = r.set f.name v
  changesOnly : ∀ (f : Field) (v : Value), r.ChangesOnly f.name v (f.set r v)

variable {allowed : Decoder → Registry → List UInt8 → Prop} {r : Record}

theorem unambiguous_of_nodup (h : r.names.Nodup) : r.Unambiguous where
  nodup_names := h
  get_eq f := f.get_eq_get? h
  set_eq f v := f.set_eq_set h v
  changesOnly f v := by
    rw [f.set_eq_set h]
    exact RecordOf.changesOnly_set r f.name v

theorem Obtained.nodup_names (h : Obtained allowed r)
    (honce : ∀ d g input r rest, g.HasDistinctFields → allowed d g input →
      (d.read g Reader.record input).result = .ok (r, rest) → d.FindsOnce g input) :
    r.names.Nodup := by
  induction h with
  | empty typeName => exact List.nodup_nil
  | @blank t ht =>
    rw [t.names_blank]
    exact ht
  | set _ name v ih => exact RecordOf.nodup_names_set ih name v
  | take _ name ih => exact RecordOf.nodup_names_take ih name
  | field _ f v ih => exact f.nodup_names_set ih v
  | bool _ f b ih => exact f.nodup_names_set ih (.bool b)
  | int _ hset ih =>
    obtain ⟨v, rfl⟩ := Field.exists_set_of_setInt hset
    exact Field.nodup_names_set _ ih v
  | float _ hset ih =>
    obtain ⟨v, rfl⟩ := Field.exists_set_of_setFloat hset
    exact Field.nodup_names_set _ ih v
  | read hg hallowed hread =>
    exact (Decoder.nodup_names_iff_of_read hg hread).mpr (honce _ _ _ _ _ hg hallowed hread)

/-- Whatever is done with records, in all of them a field is the same by its position and by its
name exactly if none of those that were read had a signature with a repeated name. -/
theorem obtained_unambiguous_iff (allowed : Decoder → Registry → List UInt8 → Prop) :
    (∀ r : Record, Obtained allowed r → r.Unambiguous) ↔
      ∀ (d : Decoder) (g : Registry) (input : List UInt8) (r : Record) (rest : List UInt8),
        g.HasDistinctFields → allowed d g input →
        (d.read g Reader.record input).result = .ok (r, rest) → d.FindsOnce g input := by
  constructor
  · intro h d g input r rest hg hallowed hread
    have hr : r.Unambiguous := h r (.read hg hallowed hread)
    exact (Decoder.nodup_names_iff_of_read hg hread).mp hr.nodup_names
  · intro honce r h
    exact unambiguous_of_nodup (h.nodup_names honce)

/-- A record of a known type is read, and then one of an unknown type by the same decoder. -/
theorem obtained_unambiguous_pair :
    let g := Registry.initial.register ⟨"t.Cell", [("n", .int)]⟩
    let first := Decoder.new.read g Reader.record
      [0xF3, 0, 8, 0x74, 0x2E, 0x43, 0x65, 0x6C, 0x6C, 0x2C, 0x6E, 7]
    let input : List UInt8 :=
      [0xF3, 1, 10, 0x74, 0x2E, 0x50, 0x61, 0x69, 0x72, 0x2C, 0x61, 0x2C, 0x62, 1, 2]
    let second := first.decoder.read first.registry Reader.record input
    let pair : Record := ⟨"t.Pair", [("a", .int 1), ("b", .int 2)]⟩
    second.result = .ok (pair, []) ∧ pair.Unambiguous := by
  intro g first input second pair
  have hg : g.HasDistinctFields :=
    Registry.HasDistinctFields.initial.register (by unfold RecordType.HasDistinctNames; decide)
  have hread : second.result = .ok (pair, []) := by decide +kernel
  have hsignature : first.decoder.Announces first.registry input "t.Pair,a,b" :=
    ⟨[1, 2], by decide +kernel⟩
  have honce : first.decoder.FindsOnce first.registry input := by
    intro signature h _ _ _
    rw [h.unique hsignature]
    decide
  have hall := (obtained_unambiguous_iff Decoder.FindsOnce).mpr fun _ _ _ _ _ _ h _ => h
  exact ⟨hread, hall pair (.read (Decoder.hasDistinctFields_read hg _ _) honce hread)⟩

/-- A record of an unknown type with the signature `t.Twice,a,a` is read into two fields of one
name. At the second position stands another value than by the name, and what is written there is not
found by the name. -/
theorem repeated_name_read :
    let twice : Record := ⟨"t.Twice", [("a", .int 1), ("a", .int 2)]⟩
    let second : Field := ⟨"a", .object, 1⟩
    Obtained (fun _ _ _ => True) twice ∧ ¬ twice.names.Nodup ∧
      second.get twice ≠ (twice.get? second.name).getD .null ∧
      (second.set twice (.int 3)).get? second.name ≠ some (.int 3) := by
  intro twice second
  let input : List UInt8 :=
    [0xF3, 0, 11, 0x74, 0x2E, 0x54, 0x77, 0x69, 0x63, 0x65, 0x2C, 0x61, 0x2C, 0x61, 1, 2]
  have hread : (Decoder.new.read .initial Reader.record input).result = .ok (twice, []) := by
    decide +kernel
  exact ⟨.read .initial trivial hread, by decide, by decide, by decide⟩

end Record

end RemoteCall
