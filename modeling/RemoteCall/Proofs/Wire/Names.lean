import RemoteCall.Proofs.Value.Portable
import RemoteCall.Proofs.Wire.StringBody
import RemoteCall.Wire.Codec

/-!
# Names on both ends

The two ends agree when the index of a name is its position and both know as many names. They agree
after a name that both know has crossed as its index, and after a new name has crossed with its
text.
-/

namespace RemoteCall.Wire

namespace NameIndex

/-- The reading end finds each name under the index that the writing end has for it. -/
structure Agrees (e : NameIndex) (d : NameTable) : Prop where
  size_eq : e.size = d.size
  index?_eq_some_iff : ∀ s i, e.index? s = some i ↔ d.name? i = some s

theorem empty_agrees : empty.Agrees .empty where
  size_eq := rfl
  index?_eq_some_iff s i := by simp [empty, index?, NameTable.empty, NameTable.name?]

theorem size_insert (e : NameIndex) (s : String) : (e.insert s).size = e.size + 1 := by
  simp [insert, size]

theorem nextIndex_of_lt {e : NameIndex} (h : e.size < maxNames) : e.nextIndex = e.size :=
  Nat.mod_eq_of_lt h

theorem index?_insert_self {e : NameIndex} {s : String} (h : e.index? s = none) :
    (e.insert s).index? s = some e.nextIndex := by
  unfold index? at h ⊢
  simp [insert, List.lookup_append, h]

theorem index?_insert_of_ne {e : NameIndex} {s t : String} (h : t ≠ s) :
    (e.insert s).index? t = e.index? t := by
  have hne : (t == s) = false := beq_eq_false_iff_ne.mpr h
  simp [index?, insert, List.lookup_append, List.lookup_cons, hne]

end NameIndex

namespace NameTable

theorem size_push (d : NameTable) (s : String) : (d.push s).size = d.size + 1 := by
  simp [push, size]

theorem lt_size_of_name? {d : NameTable} {i : Nat} {s : String} (h : d.name? i = some s) :
    i < d.size := (List.getElem?_eq_some_iff.mp h).1

theorem name?_push_size (d : NameTable) (s : String) : (d.push s).name? d.size = some s := by
  simp [name?, push, size]

theorem name?_push_of_ne {d : NameTable} {s : String} {i : Nat} (h : i ≠ d.size) :
    (d.push s).name? i = d.name? i := by
  unfold name? push
  by_cases hlt : i < d.names.length
  · exact List.getElem?_append_left hlt
  · have hgt : d.names.length < i := by
      unfold size at h
      omega
    rw [List.getElem?_append_right hgt.le, List.getElem?_eq_none hgt.le,
      List.getElem?_eq_none (by simp; omega)]

theorem name?_size (d : NameTable) : d.name? d.size = none :=
  List.getElem?_eq_none le_rfl

end NameTable

namespace NameIndex

variable {e : NameIndex} {d : NameTable}

theorem Agrees.insert (h : e.Agrees d) {s : String} (hs : e.index? s = none)
    (hsize : e.size < maxNames) : (e.insert s).Agrees (d.push s) where
  size_eq := by rw [size_insert, NameTable.size_push, h.size_eq]
  index?_eq_some_iff t i := by
    by_cases ht : t = s
    · subst ht
      rw [index?_insert_self hs, nextIndex_of_lt hsize, h.size_eq]
      constructor
      · intro hi
        cases hi
        exact d.name?_push_size t
      · intro hi
        by_contra hne
        rw [NameTable.name?_push_of_ne (fun he => hne (by rw [he])),
          ← h.index?_eq_some_iff, hs] at hi
        cases hi
    · rw [index?_insert_of_ne ht]
      constructor
      · intro hi
        have hlt := NameTable.lt_size_of_name? ((h.index?_eq_some_iff t i).mp hi)
        rw [NameTable.name?_push_of_ne hlt.ne, ← h.index?_eq_some_iff, hi]
      · intro hi
        have hne : i ≠ d.size := by
          rintro rfl
          rw [NameTable.name?_push_size] at hi
          exact ht (Option.some.inj hi).symm
        rwa [NameTable.name?_push_of_ne hne, ← h.index?_eq_some_iff] at hi

/-- A name crosses if it is short, or if the reading end knows it already. -/
def Conveys (e : NameIndex) (s : String) : Prop := IsShort s ∨ (e.index? s).isSome

instance (e : NameIndex) (s : String) : Decidable (e.Conveys s) :=
  inferInstanceAs (Decidable (IsShort s ∨ (e.index? s).isSome))

theorem conveys_of_index? {s : String} {i : Nat} (h : e.index? s = some i) : e.Conveys s :=
  .inr (by rw [h]; rfl)

theorem Conveys.isShort {s : String} (h : e.Conveys s) (hs : e.index? s = none) : IsShort s := by
  rcases h with h | h
  · exact h
  · rw [hs] at h
    cases h

end NameIndex

namespace Writer

theorem name_of_known {e : NameIndex} {s : String} {i : Nat} (h : e.index? s = some i) :
    name s e = ⟨tagged .tag (countBytes i), e, none⟩ := by
  simp only [name, h]

theorem name_of_new {e : NameIndex} {s : String} (h : e.index? s = none) :
    name s e = ⟨tagged .tag (countBytes e.nextIndex ++ stringBody s), e.insert s, none⟩ := by
  simp only [name, h]

end Writer

namespace Reader

theorem nameBody_known {d : NameTable} {i : Nat} {s : String} (hs : d.name? i = some s)
    (hi : i < 2 ^ 63) (g : Registry) (rest : List UInt8) :
    nameBody ⟨d, g, countBytes i ++ rest⟩ = .ok s ⟨d, g, rest⟩ := by
  have hint : (Int64.ofNat i).toInt = i := toInt_ofNat_of_lt hi
  rw [nameBody, countBytes, bind_of_ok (number_append ..), get_bind, hint]
  simp only [Int.natCast_nonneg, if_true, Int.toNat_natCast, hs, pure_apply]

theorem nameBody_new {d : NameTable} (hd : d.size < 2 ^ 63) (g : Registry) (bs : List UInt8) :
    nameBody ⟨d, g, countBytes d.size ++ bs⟩ =
      (do
        let name ← Reader.stringBody
        modify fun s => { s with names := s.names.push name }
        return name : Reader String) ⟨d, g, bs⟩ := by
  have hint : (Int64.ofNat d.size).toInt = d.size := toInt_ofNat_of_lt hd
  rw [nameBody, countBytes, bind_of_ok (number_append ..), get_bind, hint]
  simp only [Int.natCast_nonneg, if_true, Int.toNat_natCast, d.name?_size]

end Reader

theorem length_units_le (s : String) : (stringUnits s).length ≤ (stringBody s).length := by
  rw [stringBody, List.length_append, List.length_append, length_unitBlock]
  omega

/-- A name that can be read is the one that was written, and crosses. -/
theorem nameBody_ok {e : NameIndex} {d : NameTable} (hd : e.Agrees d) {s : String}
    (hsize : (Writer.name s e).names.size ≤ maxNames)
    (hlt : (Writer.name s e).bytes.length < 2 ^ 64) :
    ∃ body, (Writer.name s e).bytes = Tag.tag.byte :: body ∧
      ∀ g rest a t, Reader.nameBody ⟨d, g, body ++ rest⟩ = .ok a t →
        a = s ∧ e.Conveys s ∧ ∃ d', t = ⟨d', g, rest⟩ ∧ (Writer.name s e).names.Agrees d' := by
  have hmax : maxNames < 2 ^ 63 := by decide
  cases hi : e.index? s with
  | some i =>
    have hname := (hd.index?_eq_some_iff s i).mp hi
    have hi_lt := NameTable.lt_size_of_name? hname
    rw [← hd.size_eq] at hi_lt
    rw [Writer.name_of_known hi] at hsize ⊢
    change e.size ≤ maxNames at hsize
    refine ⟨_, rfl, fun g rest a t hr => ?_⟩
    rw [Reader.nameBody_known hname (by omega)] at hr
    cases hr
    exact ⟨rfl, NameIndex.conveys_of_index? hi, d, rfl, hd⟩
  | none =>
    rw [Writer.name_of_new hi] at hsize hlt ⊢
    rw [NameIndex.size_insert] at hsize
    refine ⟨_, rfl, fun g rest a t hr => ?_⟩
    have hunits := length_units_le s
    simp only [tagged, List.length_cons, List.length_append] at hlt
    rw [NameIndex.nextIndex_of_lt hsize, hd.size_eq, List.append_assoc,
      Reader.nameBody_new (by rw [← hd.size_eq]; omega), Reader.bind_eq_ok_iff] at hr
    obtain ⟨x, u, hx, hr⟩ := hr
    have hshort : IsShort s := Reader.length_le_of_stringBody (by omega) hx
    obtain ⟨rfl, rfl⟩ := Reader.stringBody_ok (by omega) hx
    cases hr
    exact ⟨rfl, .inl hshort, d.push a, rfl, hd.insert hi hsize⟩

end RemoteCall.Wire
