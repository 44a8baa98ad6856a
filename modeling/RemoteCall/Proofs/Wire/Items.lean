import RemoteCall.Proofs.Schema.Fields
import RemoteCall.Proofs.Wire.Interning

/-!
# Items

What an encoder writes falls into items, each a lead byte, a payload and further items that the
lead byte announces. A record announces no number: its fields are as many as the names in its
signature, or fewer, if names with commas in them look like several.
-/

namespace RemoteCall

/-- A value is reached from the values inside it. -/
theorem Value.inductionOnChildren {motive : Value → Prop}
    (step : ∀ v : Value, (∀ w ∈ v.children, motive w) → motive v) (v : Value) : motive v :=
  (measure Value.wireDepth).wf.induction v fun v ih =>
    step v fun w hw => ih w (Value.wireDepth_lt_of_mem_children hw)

theorem Value.EveryRecord.of_forall {p : Record → Prop} (h : ∀ r, p r) (v : Value) :
    v.EveryRecord p := by
  induction v using Value.inductionOnChildren with
  | step v ih => exact .intro (fun r _ => h r) ih

def Tag.width? : Tag → Option Nat
  | .null | .boolTrue | .boolFalse => some 0
  | .signed1 => some 1
  | .signed2 | .char => some 2
  | .signed4 | .float4 => some 4
  | .signed8 | .float8 => some 8
  | _ => none

namespace Wire

inductive IsLeaf : Tag → List UInt8 → Prop
  | fixed {t : Tag} {bytes : List UInt8} (h : t.width? = some bytes.length) : IsLeaf t bytes
  | string (s : String) : IsLeaf .string (stringBody s)
  | bytes (data : List UInt8) : IsLeaf .bytes (countBytes data.length ++ data)
  | foreign (data : List UInt8) : IsLeaf .foreign (countBytes data.length ++ data)

inductive Announces : Tag → List UInt8 → List Writer → Prop
  | array (s : String) (ws : List Writer) :
    Announces .array (countBytes ws.length) (.name s :: ws)
  | list (ws : List Writer) : Announces .list (countBytes ws.length) ws
  | set (ws : List Writer) : Announces .set (countBytes ws.length) ws
  | map {n : Nat} {ws : List Writer} (h : ws.length = n * 2) : Announces .map (countBytes n) ws
  | entry (key value : Writer) : Announces .entry [] [key, value]
  | enum (s : String) : Announces .enum [] [.name s]
  | record {s : String} {ws : List Writer} (h : ws.length < (Text.split ',' s).length) :
    Announces .record [] (.name s :: ws)
  | className (s : String) : Announces .className [] [.name s]
  | fieldSignature (s : String) : Announces .fieldSignature [] [.name s]

inductive IsItem : Writer → Prop
  | fail (f : Failure) : IsItem (.fail f)
  | literal {byte : UInt8} (h : byte ≤ Tag.maxLiteral) : IsItem (.emit [byte])
  | leaf {t : Tag} {bytes : List UInt8} (h : IsLeaf t bytes) : IsItem (.emit (tagged t bytes))
  | name (s : String) : IsItem (.name s)
  | group {t : Tag} {bytes : List UInt8} {ws : List Writer} (h : Announces t bytes ws)
    (hws : ∀ w ∈ ws, IsItem w) : IsItem (.emit (tagged t bytes) ++ .concat ws)

theorem IsItem.grows {w : Writer} (h : IsItem w) : w.Grows := by
  induction h with
  | fail f => exact .fail f
  | literal | leaf => exact .emit _
  | name s => exact .name s
  | group _ _ ih => exact (Writer.Grows.emit _).append (.concat ih)

/-- Every item that is written takes a byte or more. -/
theorem IsItem.length_pos {w : Writer} (h : IsItem w) {e : NameIndex}
    (hf : (w e).failure? = none) : 0 < (w e).bytes.length := by
  cases h with
  | fail => cases hf
  | literal | leaf => exact Nat.succ_pos _
  | name s =>
    cases hi : e.index? s with
    | some i =>
      rw [Writer.name_of_known hi]
      exact Nat.succ_pos _
    | none =>
      rw [Writer.name_of_new hi]
      exact Nat.succ_pos _
  | group =>
    rw [Writer.emit_append]
    exact Nat.succ_pos _

theorem length_le_concat {ws : List Writer} (h : ∀ w ∈ ws, IsItem w) {e : NameIndex}
    (hf : (Writer.concat ws e).failure? = none) :
    ws.length ≤ (Writer.concat ws e).bytes.length := by
  induction ws generalizing e with
  | nil => exact Nat.zero_le _
  | cons w ws ih =>
    rw [Writer.concat_cons] at hf
    obtain ⟨hw, hws⟩ := Writer.failure?_of_append hf
    have hpos := (h w (List.mem_cons_self ..)).length_pos hw
    have htail := ih (fun v hv => h v (List.mem_cons_of_mem w hv)) hws
    rw [Writer.concat_cons, Writer.append_of_none hw, List.length_append, List.length_cons]
    omega

namespace IsItem

theorem fixed {t : Tag} {bytes : List UInt8} (h : t.width? = some bytes.length) :
    IsItem (.emit (tagged t bytes)) := .leaf (.fixed h)

theorem number (n : Int64) : IsItem (.emit (numberBytes n)) := by
  unfold numberBytes
  split_ifs with hlit
  · exact .literal (literal_le hlit)
  all_goals exact fixed (by rw [length_bigEndian]; rfl)

theorem bool (b : Bool) : IsItem (.emit (boolBytes b)) := by
  cases b with
  | false => exact .leaf (t := .boolFalse) (.fixed rfl)
  | true => exact .leaf (t := .boolTrue) (.fixed rfl)

theorem float (x : Binary64) : IsItem (.emit (floatBytes x)) := by
  unfold floatBytes
  split_ifs
  · exact number _
  all_goals exact fixed (by rw [length_bigEndian]; rfl)

theorem ofExcept {α : Type} {bytes : α → List UInt8} (h : ∀ a, IsItem (.emit (bytes a)))
    (result : Except Failure α) : IsItem (.ofExcept bytes result) := by
  cases result with
  | ok a => exact h a
  | error f => exact .fail f

theorem keyOr {w : Writer} (h : IsItem w) (v : Value) : IsItem (keyOr w v) := by
  cases v with
  | string s => exact .name s
  | _ => exact h

theorem int (n : Int32) : IsItem (.emit (intBytes n)) := by
  unfold intBytes
  split_ifs with hlit
  · exact .literal (intLiteral_le hlit)
  · exact fixed (by rw [length_bigEndian]; rfl)

theorem behindTag {t : Tag} {w : Writer} (h : Announces t [] [w]) (hw : IsItem w) :
    IsItem (.emit [t.byte] ++ w) := by
  rw [← w.append_nothing]
  exact .group h (List.forall_mem_singleton.mpr hw)

end IsItem

section Values

variable {g : Registry}

theorem fieldWriter_isItem {r : Record} {written : RecordOf Writer}
    (h : ∀ p ∈ written.fields, IsItem p.2) (f : Field) : IsItem (fieldWriter r written f) := by
  unfold fieldWriter
  split
  · exact .ofExcept .bool _
  · exact .ofExcept .float _
  · exact .ofExcept .float _
  · cases hw : written.slot? f.index f.name with
    | none => exact .fixed (t := .null) rfl
    | some w =>
      obtain ⟨name, hmem⟩ := RecordOf.mem_of_slot? hw
      exact h _ hmem
  all_goals exact .ofExcept .number _

theorem fieldWriters_eq (r : Record) (written : RecordOf Writer) (fs : List Field) :
    fieldWriters r written fs = .concat (fs.map (fieldWriter r written)) := by
  induction fs with
  | nil => rfl
  | cons f fs ih => rw [fieldWriters, ih, List.map_cons, Writer.concat_cons]

theorem sequenceOf_eq (written : List (String × Writer)) :
    sequenceOf written = .concat (written.map Prod.snd) := by
  induction written with
  | nil => rfl
  | cons p written ih => rw [sequenceOf, ih, List.map_cons, Writer.concat_cons]

theorem lt_length_split_signatureOf (typeName : String) (names : List String) :
    names.length < (Text.split ',' (signatureOf typeName names)).length :=
  Text.length_le_length_split_join ',' typeName names

/-- A record is the item of its signature and an item for each field. -/
theorem recordWriter_isItem {r : Record} {written : List (String × Writer)}
    (hlength : written.length = r.fields.length) (h : ∀ p ∈ written, IsItem p.2) :
    IsItem (.emit [Tag.record.byte] ++ recordWriter g r written) := by
  unfold recordWriter
  split
  · rename_i t _
    rw [fieldWriters_eq]
    refine .group (t := .record) (.record (s := t.signature) ?_) ?_
    · have := lt_length_split_signatureOf t.name (t.layout.map Prod.fst)
      simpa [RecordType.fields, RecordType.signature] using this
    · exact List.forall_mem_cons.mpr ⟨.name _, List.forall_mem_map.mpr fun f _ =>
        fieldWriter_isItem h f⟩
  · rw [sequenceOf_eq]
    refine .group (t := .record) (.record (s := signatureOf r.typeName r.names) ?_) ?_
    · have := lt_length_split_signatureOf r.typeName r.names
      simpa [RecordOf.names, hlength] using this
    · exact List.forall_mem_cons.mpr ⟨.name _, List.forall_mem_map.mpr h⟩

theorem entriesWriter_eq_concat (vs : List (Value × Value)) :
    entriesWriter g vs =
      .concat (vs.flatMap fun p => [keyOr (valueWriter g p.1) p.1, valueWriter g p.2]) := by
  induction vs with
  | nil => rfl
  | cons p vs ih =>
    rw [entriesWriter, ih, List.flatMap_cons, List.cons_append, List.cons_append, List.nil_append,
      Writer.concat_cons, Writer.concat_cons]

theorem valueWriter_isItem (v : Value) : IsItem (valueWriter g v) := by
  induction v using Value.inductionOnChildren with
  | step v ih =>
    cases v with
    | null => exact .fixed (t := .null) rfl
    | bool b => exact .bool b
    | int n => exact .int n
    | byte | short | long | float | double => exact .fixed (by rw [length_bigEndian]; rfl)
    | char c =>
      rw [valueWriter, charWriter]
      split_ifs
      · exact .fixed (by rw [length_bigEndian]; rfl)
      · exact .fail _
    | string s => exact .leaf (.string s)
    | bytes data => exact .leaf (.bytes data)
    | foreign data => exact .leaf (.foreign data)
    | array component items =>
      rw [valueWriter, itemsWriter_eq]
      have h := Announces.array component (items.map (valueWriter g))
      rw [List.length_map] at h
      exact .group h (List.forall_mem_cons.mpr ⟨.name _, List.forall_mem_map.mpr ih⟩)
    | list items =>
      rw [valueWriter, keysWriter_eq]
      have h := Announces.list (items.map fun v => keyOr (valueWriter g v) v)
      rw [List.length_map] at h
      exact .group h (List.forall_mem_map.mpr fun w hw => (ih w hw).keyOr w)
    | set items =>
      rw [valueWriter, keysWriter_eq]
      have h := Announces.set (items.map fun v => keyOr (valueWriter g v) v)
      rw [List.length_map] at h
      exact .group h (List.forall_mem_map.mpr fun w hw => (ih w hw).keyOr w)
    | map entries =>
      rw [valueWriter, entriesWriter_eq_concat]
      refine .group (.map (by simp [List.length_flatMap])) ?_
      intro w hw
      obtain ⟨p, hp, hw⟩ := List.mem_flatMap.mp hw
      obtain ⟨hk, hv⟩ := Value.mem_children_of_entry hp
      rcases List.mem_pair.mp hw with rfl | rfl
      · exact (ih p.1 hk).keyOr p.1
      · exact ih p.2 hv
    | entry k v =>
      rw [valueWriter, ← (valueWriter g v).append_nothing]
      refine .group (t := .entry) (.entry _ _) ?_
      have hk := (ih k (List.mem_cons_self ..)).keyOr k
      have hv := ih v (List.mem_cons_of_mem _ (List.mem_cons_self ..))
      exact List.forall_mem_cons.mpr ⟨hk, List.forall_mem_singleton.mpr hv⟩
    | enum e => exact .behindTag (.enum e.wireName) (.name _)
    | typeByName name => exact .behindTag (.className name) (.name _)
    | typeBySignature signature => exact .behindTag (.fieldSignature signature) (.name _)
    | record r =>
      refine recordWriter_isItem (by rw [namedWriters_eq, List.length_map]) ?_
      rw [namedWriters_eq]
      exact List.forall_mem_map.mpr fun p hp => ih p.2 (List.mem_map_of_mem hp)

end Values

/-- Only the types of the records inside a value matter for writing it. -/
theorem valueWriter_congr_of_records {g g' : Registry} {v : Value}
    (h : v.EveryRecord fun r => g'.lookup? r.typeName = g.lookup? r.typeName) :
    valueWriter g' v = valueWriter g v := by
  induction v using Value.inductionOnChildren with
  | step v ih =>
    replace ih : ∀ w ∈ v.children, valueWriter g' w = valueWriter g w :=
      fun w hw => ih w hw (h.child hw)
    cases v with
    | array component items =>
      have hitems : itemsWriter g' items = itemsWriter g items := by
        rw [itemsWriter_eq, itemsWriter_eq]
        exact congrArg _ (List.map_congr_left ih)
      rw [valueWriter, valueWriter, hitems]
    | list items | set items =>
      have hkeys : keysWriter g' items = keysWriter g items := by
        rw [keysWriter_eq, keysWriter_eq]
        exact congrArg _ (List.map_congr_left fun w hw => by rw [ih w hw])
      rw [valueWriter, valueWriter, hkeys]
    | map entries =>
      have hentries : entriesWriter g' entries = entriesWriter g entries := by
        rw [entriesWriter_eq, entriesWriter_eq]
        refine congrArg _ (List.map_congr_left fun p hp => ?_)
        obtain ⟨hk, hv⟩ := Value.mem_children_of_entry hp
        rw [ih p.1 hk, ih p.2 hv]
      rw [valueWriter, valueWriter, hentries]
    | entry k w =>
      rw [valueWriter, valueWriter, ih k (List.mem_cons_self ..),
        ih w (List.mem_cons_of_mem _ (List.mem_cons_self ..))]
    | record r =>
      obtain ⟨typeName, fields⟩ := r
      have hfields : namedWriters g' fields = namedWriters g fields := by
        rw [namedWriters_eq, namedWriters_eq]
        exact List.map_congr_left fun p hp => by rw [ih p.2 (List.mem_map_of_mem hp)]
      rw [valueWriter, valueWriter, hfields, recordWriter, recordWriter, h.self]
    | _ => rfl

/-- Only the types that a registry knows matter for writing. -/
theorem valueWriter_congr {g g' : Registry} (h : g'.lookup? = g.lookup?) (v : Value) :
    valueWriter g' v = valueWriter g v :=
  valueWriter_congr_of_records (.of_forall (fun r => congrFun h r.typeName) v)

end Wire

end RemoteCall
