import Mathlib.Data.List.Nodup
import RemoteCall.Proofs.Schema.Fields

/-!
# Records without repeated names

A field of a record is found by its position or by its name. The two ways lead to the same field if
no name stands in the record twice, which is what every way to write a field keeps. A record that is
made for a registered type has the names of the type.
-/

namespace RemoteCall

namespace RecordOf

variable {α : Type}

structure ChangesOnly (name : String) (v : α) (r r' : RecordOf α) : Prop where
  typeName_eq : r'.typeName = r.typeName
  get?_eq : r'.get? name = some v
  names_eq : r'.names = if name ∈ r.names then r.names else r.names ++ [name]
  others_eq : r'.fields.filter (·.1 ≠ name) = r.fields.filter (·.1 ≠ name)

variable {r : RecordOf α} {fields : List (String × α)} {name : String} {v w : α} {i : Nat}

/-! ## Writing by name -/

theorem map_fst_putField (name : String) (v : α) (fields : List (String × α)) :
    (putField name v fields).map Prod.fst =
      if name ∈ fields.map Prod.fst then fields.map Prod.fst
      else fields.map Prod.fst ++ [name] := by
  induction fields with
  | nil => rfl
  | cons field fields ih =>
    obtain ⟨n, u⟩ := field
    by_cases hn : n = name
    · simp [putField, hn]
    · have hn' : name ≠ n := Ne.symm hn
      rw [putField, if_neg hn, List.map_cons, ih]
      by_cases hmem : name ∈ fields.map Prod.fst
      · simp [hmem]
      · simp [hmem, hn']

theorem fieldValue?_putField (name : String) (v : α) (fields : List (String × α)) :
    fieldValue? name (putField name v fields) = some v := by
  induction fields with
  | nil => simp [putField, fieldValue?]
  | cons field fields ih =>
    obtain ⟨n, u⟩ := field
    by_cases hn : n = name
    · simp [putField, fieldValue?, hn]
    · simp [putField, fieldValue?, hn, ih]

theorem filter_putField (name : String) (v : α) (fields : List (String × α)) :
    (putField name v fields).filter (·.1 ≠ name) = fields.filter (·.1 ≠ name) := by
  induction fields with
  | nil => simp [putField]
  | cons field fields ih =>
    obtain ⟨n, u⟩ := field
    by_cases hn : n = name
    · simp [putField, hn]
    · rw [putField, if_neg hn, List.filter_cons, List.filter_cons, ih]

theorem changesOnly_set (r : RecordOf α) (name : String) (v : α) :
    r.ChangesOnly name v (r.set name v) where
  typeName_eq := rfl
  get?_eq := fieldValue?_putField name v r.fields
  names_eq := map_fst_putField name v r.fields
  others_eq := filter_putField name v r.fields

theorem nodup_names_set (h : r.names.Nodup) (name : String) (v : α) :
    (r.set name v).names.Nodup := by
  rw [(changesOnly_set r name v).names_eq]
  by_cases hmem : name ∈ r.names
  · rw [if_pos hmem]
    exact h
  · rw [if_neg hmem, ← List.concat_eq_append]
    exact List.Nodup.concat hmem h

theorem dropField_sublist (name : String) (fields : List (String × α)) :
    (dropField name fields).Sublist fields := by
  induction fields with
  | nil => exact List.Sublist.refl _
  | cons field fields ih =>
    obtain ⟨n, u⟩ := field
    rw [dropField]
    split_ifs
    · exact List.sublist_cons_self _ _
    · exact ih.cons_cons _

theorem nodup_names_take (h : r.names.Nodup) (name : String) : (r.take name).2.names.Nodup :=
  h.sublist ((dropField_sublist name r.fields).map Prod.fst)

/-! ## Positions -/

theorem ne_of_nodup_cons {field : String × α} (h : ((field :: fields).map Prod.fst).Nodup)
    (hi : fields[i]? = some (name, v)) : field.1 ≠ name := by
  rw [List.map_cons, List.nodup_cons] at h
  rintro rfl
  exact h.1 (List.mem_map.mpr ⟨_, List.mem_of_getElem? hi, rfl⟩)

/-- With distinct names a field is found by its name wherever it stands. -/
theorem fieldValue?_of_getElem? (h : (fields.map Prod.fst).Nodup)
    (hi : fields[i]? = some (name, v)) : fieldValue? name fields = some v := by
  induction fields generalizing i with
  | nil => cases hi
  | cons field fields ih =>
    cases i with
    | zero =>
      cases hi
      rw [fieldValue?, if_pos rfl]
    | succ i =>
      rw [List.getElem?_cons_succ] at hi
      rw [fieldValue?, if_neg (ne_of_nodup_cons h hi)]
      exact ih (List.nodup_cons.mp h).2 hi

theorem putField_of_getElem? (h : (fields.map Prod.fst).Nodup)
    (hi : fields[i]? = some (name, w)) : putField name v fields = fields.set i (name, v) := by
  induction fields generalizing i with
  | nil => cases hi
  | cons field fields ih =>
    cases i with
    | zero =>
      cases hi
      rw [putField, if_pos rfl, List.set_cons_zero]
    | succ i =>
      rw [List.getElem?_cons_succ] at hi
      rw [putField, if_neg (ne_of_nodup_cons h hi), ih (List.nodup_cons.mp h).2 hi,
        List.set_cons_succ]

theorem slot?_eq_get? (h : r.names.Nodup) (i : Nat) (name : String) :
    r.slot? i name = r.get? name := by
  unfold slot?
  split
  · next n v hi =>
    split_ifs with hn
    · subst hn
      exact (fieldValue?_of_getElem? h hi).symm
    · rfl
  · rfl

theorem setSlot_eq_set (h : r.names.Nodup) (i : Nat) (name : String) (v : α) :
    r.setSlot i name v = r.set name v := by
  unfold setSlot
  split
  · next n w hi =>
    split_ifs with hn
    · subst hn
      rw [set, putField_of_getElem? h hi]
    · rfl
  · rfl

end RecordOf

/-! ## The accessors of a field -/

namespace Field

variable {r r' : Record}

theorem get_eq_get? (f : Field) (h : r.names.Nodup) : f.get r = (r.get? f.name).getD .null := by
  rw [get, RecordOf.slot?_eq_get? h]

theorem set_eq_set (f : Field) (h : r.names.Nodup) (v : Value) : f.set r v = r.set f.name v :=
  RecordOf.setSlot_eq_set h f.index f.name v

theorem nodup_names_set (f : Field) (h : r.names.Nodup) (v : Value) : (f.set r v).names.Nodup := by
  rw [f.set_eq_set h]
  exact RecordOf.nodup_names_set h f.name v

theorem exists_set_of_setInt {f : Field} {n : Int64} (h : f.setInt r n = .ok r') :
    ∃ v, r' = f.set r v := by
  unfold setInt at h
  cases hv : f.intValue r n with
  | error e =>
    rw [hv] at h
    cases h
  | ok v =>
    rw [hv] at h
    cases h
    exact ⟨v, rfl⟩

theorem exists_set_of_setFloat {f : Field} {x : Binary64} (h : f.setFloat r x = .ok r') :
    ∃ v, r' = f.set r v := by
  unfold setFloat at h
  split_ifs at h
  · exact exists_set_of_setInt h
  · cases h
    exact ⟨_, rfl⟩
  · cases h
    exact ⟨_, rfl⟩

end Field

/-! ## Records of registered types -/

def RecordType.HasDistinctNames (t : RecordType) : Prop := (t.layout.map Prod.fst).Nodup

theorem RecordType.names_blank (t : RecordType) : t.blank.names = t.layout.map Prod.fst := by
  rw [blank, RecordOf.names, List.map_map]
  rfl

namespace Registry

/-- No type of the registry has two fields of one name, nor had one for which a resolution is
kept. -/
structure HasDistinctFields (g : Registry) : Prop where
  types : ∀ t ∈ g.types, t.HasDistinctNames
  kept : ∀ signature layout, g.resolved.lookup signature = some layout →
    ∃ t, layout.known? = some t ∧ t.HasDistinctNames

variable {g g' : Registry}

theorem HasDistinctFields.initial : HasDistinctFields .initial where
  types := by
    intro t ht
    rw [List.mem_singleton.mp ht]
    unfold RecordType.HasDistinctNames
    decide
  kept := by
    intro signature layout h
    cases h

theorem HasDistinctFields.register (h : g.HasDistinctFields) {t : RecordType}
    (ht : t.HasDistinctNames) : (g.register t).HasDistinctFields where
  types := by
    intro u hu
    rcases List.mem_cons.mp hu with rfl | hu
    · exact ht
    · exact h.types u (List.mem_filter.mp hu).1
  kept := h.kept

theorem HasDistinctFields.layoutOf (h : g.HasDistinctFields) (signature typeName : String)
    (names : List String) :
    (∃ t, (g.layoutOf signature typeName names).known? = some t ∧ t.HasDistinctNames) ∨
      g.layoutOf signature typeName names =
        ⟨typeName, none, names.map fun name => (name, none), false⟩ := by
  cases hlookup : g.lookup? typeName with
  | none =>
    right
    simp only [Registry.layoutOf, hlookup]
  | some t =>
    left
    exact ⟨t, by simp only [Registry.layoutOf, hlookup],
      h.types t (List.mem_of_find?_eq_some hlookup)⟩

/-- A signature is read by a type with distinct fields, or its type is unknown and each name in it
stands for a new field. -/
theorem HasDistinctFields.layout_cases (h : g.HasDistinctFields) {signature : String}
    {layout : WireLayout} (hlayout : (g.resolve signature).1 = .ok layout) :
    (∃ t, layout.known? = some t ∧ t.HasDistinctNames) ∨
      ∃ typeName names, Text.split ',' signature = typeName :: names ∧
        layout = ⟨typeName, none, names.map fun name => (name, none), false⟩ := by
  have hcases := g.resolvesTo signature
  generalize g.resolve signature = outcome at hlayout hcases
  cases hcases with
  | kept hkept =>
    cases hlayout
    exact .inl (h.kept signature _ hkept)
  | refused => cases hlayout
  | dynamic hsplit | learned hsplit =>
    cases hlayout
    exact (h.layoutOf signature _ _).imp_right fun heq => ⟨_, _, hsplit, heq⟩

theorem HasDistinctFields.resolve (h : g.HasDistinctFields) (signature : String) :
    (g.resolve signature).2.HasDistinctFields := by
  have hcases := g.resolvesTo signature
  generalize g.resolve signature = outcome at hcases ⊢
  cases hcases with
  | @learned typeName names hsplit hne hknown =>
    obtain ⟨t, ht⟩ := Option.isSome_iff_exists.mp hknown
    constructor
    · exact h.types
    · intro s layout hs
      by_cases hsignature : s = signature
      · rw [hsignature, List.lookup_cons_self, Option.some.injEq] at hs
        subst hs
        exact ⟨t, by simp only [Registry.layoutOf, ht],
          h.types t (List.mem_of_find?_eq_some ht)⟩
      · rw [List.lookup_cons, beq_eq_false_iff_ne.mpr hsignature] at hs
        exact h.kept s layout hs
  | _ => exact h

theorem Resolves.hasDistinctFields (h : g.Resolves g') (hg : g.HasDistinctFields) :
    g'.HasDistinctFields := by
  induction h with
  | refl => exact hg
  | resolve signature _ ih => exact ih.resolve signature

end Registry

end RemoteCall
