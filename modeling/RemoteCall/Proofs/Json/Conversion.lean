import RemoteCall.Json.Conversion
import RemoteCall.Proofs.Json.Members
import RemoteCall.Proofs.Width
import RemoteCall.Proofs.Wire.Items

/-!
# JSON through values

What a value becomes has the keys of its objects in order, integers of 64 bits and no number that is
not finite. Every such document comes back from the value that it becomes itself, whether its
objects are read as records or as maps.
-/

namespace RemoteCall

theorem RecordOf.putField_of_notMem {α : Type} {name : String} {v : α}
    {fields : List (String × α)} (h : name ∉ fields.map Prod.fst) :
    putField name v fields = fields ++ [(name, v)] := by
  induction fields with
  | nil => rfl
  | cons p fields ih =>
    rw [List.map_cons, List.mem_cons, not_or] at h
    rw [putField, if_neg (Ne.symm h.1), ih h.2, List.cons_append]

theorem RecordOf.foldl_set_eq {α : Type} {fields : List (String × α)} {r : RecordOf α}
    (h : ((r.fields ++ fields).map Prod.fst).Nodup) :
    fields.foldl (fun r (name, v) => r.set name v) r = ⟨r.typeName, r.fields ++ fields⟩ := by
  induction fields generalizing r with
  | nil => rw [List.foldl_nil, List.append_nil]
  | cons p fields ih =>
    obtain ⟨name, v⟩ := p
    have hset : r.set name v = ⟨r.typeName, r.fields ++ [(name, v)]⟩ := by
      have hnew : name ∉ r.fields.map Prod.fst := by
        rw [List.map_append, List.nodup_append] at h
        exact fun hmem => h.2.2 name hmem name (List.mem_cons_self ..) rfl
      rw [RecordOf.set, RecordOf.putField_of_notMem hnew]
    have hrest := ih (r := ⟨r.typeName, r.fields ++ [(name, v)]⟩) (by simpa using h)
    rw [List.append_assoc, List.singleton_append] at hrest
    simpa only [List.foldl_cons, hset] using hrest

def JsonNumber.Fits : JsonNumber → Prop
  | .integer n => fitsWidth 64 n = true
  | .real x => x.isFinite = true

namespace Value

theorem itemsToJson_eq (items : List Value) : itemsToJson items = items.map toJson := by
  induction items with
  | nil => rfl
  | cons v vs ih => rw [itemsToJson, ih, List.map_cons]

theorem entriesToJson_eq (entries : List (Value × Value)) :
    entriesToJson entries = entries.map fun p => (p.1.toJson, p.2.toJson) := by
  induction entries with
  | nil => rfl
  | cons p vs ih => rw [entriesToJson, ih, List.map_cons]

theorem fieldsToJson_eq (fields : List (String × Value)) :
    fieldsToJson fields = fields.map fun p => (p.1, p.2.toJson) := by
  induction fields with
  | nil => rfl
  | cons p vs ih => rw [fieldsToJson, ih, List.map_cons]

end Value

namespace Json

theorem itemValues_eq (items : List Json) : itemValues items = items.map toValue := by
  induction items with
  | nil => rfl
  | cons j js ih => rw [itemValues, ih, List.map_cons]

theorem memberValues_eq (members : List (String × Json)) :
    memberValues members = members.map fun p => (p.1, p.2.toValue) := by
  induction members with
  | nil => rfl
  | cons p js ih => rw [memberValues, ih, List.map_cons]

/-! ## Documents that come back -/

theorem toJson_numberValue_integer {n : Int} (h : fitsWidth 64 n = true) :
    (numberValue (.integer n)).toJson = .number (.integer n) := by
  rw [numberValue]
  split_ifs with h32
  · rw [Value.toJson, toInt_int32 h32, ofInt]
  · rw [Value.toJson, toInt_int64 h, ofInt]

section Objects

variable {members : List (String × Json)}

theorem stringKeys?_eq_some (fields : List (String × Value)) :
    stringKeys? (fields.map fun p => (.string p.1, p.2)) = some (fields.map Prod.fst) := by
  induction fields with
  | nil => rfl
  | cons p fields ih =>
    rw [List.map_cons, stringKeys?, ih]
    rfl

theorem toJson_map_strings (fields : List (String × Value)) :
    (Value.map (fields.map fun p => (.string p.1, p.2))).toJson =
      .object (sortMembers (fields.map fun p => (p.1, p.2.toJson))) := by
  have hvalues : (Value.entriesToJson (fields.map fun p => (.string p.1, p.2))).map Prod.snd =
      fields.map fun p => p.2.toJson := by
    rw [Value.entriesToJson_eq, List.map_map, List.map_map]
    rfl
  rw [Value.toJson, ofEntries, stringKeys?_eq_some]
  dsimp only
  rw [hvalues, List.zip_map']

theorem map_toJson_toValue (hback : ∀ p ∈ members, p.2.toValue.toJson = p.2) :
    (members.map fun p => (p.1, p.2.toValue)).map (fun p => (p.1, p.2.toJson)) = members := by
  rw [List.map_map]
  refine (List.map_congr_left fun p hp => ?_).trans (List.map_id members)
  exact Prod.ext rfl (hback p hp)

/-- The member that names the type can be put in front of the others. -/
theorem perm_of_lookup {key : String} {j : Json} (h : Ascending members)
    (hkey : members.lookup key = some j) :
    ((key, j) :: members.filter (·.1 != key)).Perm members := by
  obtain ⟨before, after, rfl, -⟩ := List.lookup_eq_some_iff.mp hkey
  have hothers : ∀ p ∈ before ++ after, p.1 != key := by
    have hmiddle : (before ++ (key, j) :: after).Perm ((key, j) :: (before ++ after)) :=
      List.perm_middle
    have hnodup := (hmiddle.map Prod.fst).nodup_iff.mp h.nodup
    rw [List.map_cons, List.nodup_cons] at hnodup
    intro p hp
    have hmem : p.1 ∈ (before ++ after).map Prod.fst := List.mem_map_of_mem hp
    exact bne_iff_ne.mpr fun he => hnodup.1 (he ▸ hmem)
  rw [List.filter_append, List.filter_cons_of_neg (by simp), ← List.filter_append,
    List.filter_eq_self.mpr hothers]
  exact List.perm_middle.symm

theorem toJson_objectValue_record {typeName : String} (h : Ascending members)
    (hkey : members.lookup typeKey = some (.string typeName))
    (hback : ∀ p ∈ members, p.2.toValue.toJson = p.2) :
    (objectValue members (memberValues members)).toJson = .object members := by
  have hrecord : objectValue members (memberValues members) =
      .record ⟨typeName, (memberValues members).filter (·.1 != typeKey)⟩ := by
    have hnodup : (((memberValues members).filter (·.1 != typeKey)).map Prod.fst).Nodup := by
      have hothers : Ascending (members.filter (·.1 != typeKey)) := List.Pairwise.filter _ h
      rw [memberValues_eq, List.filter_map, List.map_map]
      exact hothers.nodup
    simp only [objectValue, hkey]
    rw [RecordOf.foldl_set_eq hnodup]
    rfl
  have hfields : Value.fieldsToJson ((memberValues members).filter (·.1 != typeKey)) =
      members.filter (·.1 != typeKey) := by
    rw [Value.fieldsToJson_eq, memberValues_eq, List.filter_map]
    exact map_toJson_toValue fun p hp => hback p (List.mem_of_mem_filter hp)
  rw [hrecord, Value.toJson, hfields, sortMembers_eq_of_perm h (perm_of_lookup h hkey)]

theorem toJson_objectValue_map (h : Ascending members)
    (hkey : ∀ typeName, members.lookup typeKey ≠ some (.string typeName))
    (hback : ∀ p ∈ members, p.2.toValue.toJson = p.2) :
    (objectValue members (memberValues members)).toJson = .object members := by
  have hmap : objectValue members (memberValues members) =
      .map ((memberValues members).map fun p => (.string p.1, p.2)) := by
    rw [objectValue]
    split
    · next typeName h => exact absurd h (hkey typeName)
    · rfl
  rw [hmap, toJson_map_strings, memberValues_eq, map_toJson_toValue hback,
    sortMembers_eq_of_perm h (.refl _)]

end Objects

/-- Induction on the document. An object is read in one of two ways, and is the same afterwards. -/
theorem toJson_toValue {j : Json} (h : j.InOrder JsonNumber.Fits) : j.toValue.toJson = j := by
  induction h with
  | null | bool | string => rfl
  | @number n h =>
    cases n with
    | integer n => exact toJson_numberValue_integer h
    | real x => exact if_pos h
  | array h ih =>
    rw [toValue, Value.toJson, itemValues_eq, Value.itemsToJson_eq, List.map_map]
    exact congrArg Json.array ((List.map_congr_left ih).trans (List.map_id _))
  | @object members hascending _ ih =>
    by_cases hkey : ∃ typeName, members.lookup typeKey = some (.string typeName)
    · obtain ⟨typeName, hkey⟩ := hkey
      exact toJson_objectValue_record hascending hkey ih
    · exact toJson_objectValue_map hascending (fun typeName h => hkey ⟨typeName, h⟩) ih

/-! ## What values become -/

theorem inOrder_ofBinary64 (x : Binary64) : (ofBinary64 x).InOrder JsonNumber.Fits := by
  rw [ofBinary64]
  split_ifs with h
  · exact .number h
  · exact .null

theorem inOrder_ofBytes (data : List UInt8) : (ofBytes data).InOrder JsonNumber.Fits := by
  refine .array (List.forall_mem_map.mpr fun b _ => .number ?_)
  have hlt := b.toNat_lt
  rw [JsonNumber.Fits, fitsWidth_iff, minSigned, maxSigned, Nat.pow_eq]
  omega

theorem inOrder_map {entries : List (Value × Value)}
    (h : ∀ p ∈ entries, p.1.toJson.InOrder JsonNumber.Fits ∧ p.2.toJson.InOrder JsonNumber.Fits) :
    (Value.map entries).toJson.InOrder JsonNumber.Fits := by
  rw [Value.toJson, Value.entriesToJson_eq, ofEntries]
  split
  · refine inOrder_sortMembers fun p hp => ?_
    have hvalue := (List.of_mem_zip hp).2
    rw [List.map_map, List.mem_map] at hvalue
    obtain ⟨entry, hentry, hp⟩ := hvalue
    rw [← hp]
    exact (h entry hentry).2
  · rw [List.map_map]
    refine .array (List.forall_mem_map.mpr fun entry hentry => .array ?_)
    exact List.forall_mem_cons.mpr ⟨(h entry hentry).1,
      List.forall_mem_singleton.mpr (h entry hentry).2⟩

theorem inOrder_toJson (v : Value) : v.toJson.InOrder JsonNumber.Fits := by
  induction v using Value.inductionOnChildren with
  | step v ih =>
    cases v with
    | null => exact .null
    | bool b => exact .bool b
    | byte n => exact .number (fitsWidth_mono (by decide) (fitsWidth_int8 n))
    | short n => exact .number (fitsWidth_mono (by decide) (fitsWidth_int16 n))
    | int n => exact .number (fitsWidth_mono (by decide) (fitsWidth_int32 n))
    | long n => exact .number (fitsWidth_int64 n)
    | float x => exact inOrder_ofBinary64 _
    | double x => exact inOrder_ofBinary64 _
    | char | string | enum | typeByName | typeBySignature => exact .string _
    | bytes data => exact inOrder_ofBytes data
    | foreign data => exact inOrder_ofBytes data
    | array _ items | list items | set items =>
      rw [Value.toJson, Value.itemsToJson_eq]
      exact .array (List.forall_mem_map.mpr ih)
    | map entries =>
      refine inOrder_map fun p hp => ?_
      obtain ⟨hkey, hvalue⟩ := Value.mem_children_of_entry hp
      exact ⟨ih p.1 hkey, ih p.2 hvalue⟩
    | entry key value =>
      refine .object (List.pairwise_pair.mpr (by decide : "key" < "value")) ?_
      refine List.forall_mem_cons.mpr ⟨ih key (List.mem_cons_self ..), ?_⟩
      have hvalue := ih value (List.mem_cons_of_mem _ (List.mem_cons_self ..))
      exact List.forall_mem_singleton.mpr hvalue
    | record r =>
      obtain ⟨typeName, fields⟩ := r
      rw [Value.toJson, Value.fieldsToJson_eq]
      refine inOrder_sortMembers (List.forall_mem_cons.mpr ⟨.string _, ?_⟩)
      exact List.forall_mem_map.mpr fun p hp => ih p.2 (List.mem_map_of_mem hp)

/-- Every document in order with such numbers comes back from the value it becomes, so what a value
becomes is the same after another trip. -/
theorem documents_come_back :
    (∀ j : Json, j.InOrder JsonNumber.Fits → j.toValue.toJson = j) ∧
      ∀ v : Value, v.toJson.toValue.toJson = v.toJson :=
  ⟨fun _ h => toJson_toValue h, fun v => toJson_toValue (inOrder_toJson v)⟩

/-- An object that is read as a record, and in it one that is read as a map. -/
theorem documents_come_back_nested :
    let half : Binary64 := ⟨0x3FE0000000000000⟩
    let inner : Json := .object [("@type", ofInt 5), ("x", .array [.number (.real half), .null])]
    let j : Json := .object [("@type", .string "Point"), ("inner", inner)]
    j.toValue = .record ⟨"Point", [("inner",
        .map [(.string "@type", .int 5), (.string "x", .list [.double half, .null])])]⟩ ∧
      j.toValue.toJson = j := by
  intro half inner j
  have hitems : ∀ item ∈ [Json.number (.real half), .null], item.InOrder JsonNumber.Fits :=
    List.forall_mem_cons.mpr ⟨.number (by decide : half.isFinite = true),
      List.forall_mem_singleton.mpr .null⟩
  have hinner : inner.InOrder JsonNumber.Fits :=
    .object (by decide) (List.forall_mem_cons.mpr ⟨.number (by decide : fitsWidth 64 5 = true),
      List.forall_mem_singleton.mpr (.array hitems)⟩)
  have hj : j.InOrder JsonNumber.Fits :=
    .object (by decide) (List.forall_mem_cons.mpr ⟨.string _, List.forall_mem_singleton.mpr hinner⟩)
  exact ⟨rfl, documents_come_back.1 j hj⟩

end Json

end RemoteCall
