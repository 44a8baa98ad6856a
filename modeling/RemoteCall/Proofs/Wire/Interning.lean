import Mathlib.Data.List.Nodup
import RemoteCall.Proofs.Wire.Carries

/-!
# Indexes without gaps

The names that an encoder knows have the indexes from 0 on, each of them once, as long as they are
not more than there are indexes. Writing only adds names behind those already there, so forgetting
all names from a mark on restores the index that was there when the mark was taken.
-/

namespace RemoteCall.Wire

namespace NameIndex

structure IsBijection (e : NameIndex) : Prop where
  lt_size : ∀ s i, e.index? s = some i → i < e.size
  existsUnique : ∀ i < e.size, ∃! s, e.index? s = some i

structure Dense (e : NameIndex) : Prop where
  nodup : (e.entries.map Prod.fst).Nodup
  indexes_eq : e.entries.map Prod.snd = List.range e.size

theorem Dense.empty : Dense .empty := ⟨List.nodup_nil, rfl⟩

variable {e e' : NameIndex}

theorem index?_eq_none_iff {s : String} : e.index? s = none ↔ s ∉ e.entries.map Prod.fst := by
  rw [index?, List.lookup_eq_none_iff, List.mem_map]
  simp only [bne_iff_ne, ne_eq]
  constructor
  · rintro h ⟨p, hp, rfl⟩
    exact h p hp rfl
  · intro h p hp hs
    exact h ⟨p, hp, hs.symm⟩

theorem mem_of_index? {s : String} {i : Nat} (h : e.index? s = some i) : (s, i) ∈ e.entries := by
  obtain ⟨before, after, hsplit, -⟩ := List.lookup_eq_some_iff.mp h
  rw [hsplit]
  exact List.mem_append_right _ (List.mem_cons_self ..)

theorem Dense.index?_of_mem (h : e.Dense) {s : String} {i : Nat} (hmem : (s, i) ∈ e.entries) :
    e.index? s = some i := by
  cases hi : e.index? s with
  | none => exact absurd (List.mem_map_of_mem hmem) (index?_eq_none_iff.mp hi)
  | some j =>
    have heq := List.inj_on_of_nodup_map h.nodup (mem_of_index? hi) hmem rfl
    rw [Prod.mk.injEq] at heq
    rw [heq.2]

theorem Dense.lt_size_of_mem (h : e.Dense) {p : String × Nat} (hp : p ∈ e.entries) :
    p.2 < e.size := by
  have hmem : p.2 ∈ e.entries.map Prod.snd := List.mem_map_of_mem hp
  rwa [h.indexes_eq, List.mem_range] at hmem

theorem Dense.isBijection (h : e.Dense) : e.IsBijection where
  lt_size s i hi := h.lt_size_of_mem (mem_of_index? hi)
  existsUnique i hi := by
    have hmem : i ∈ e.entries.map Prod.snd := by rwa [h.indexes_eq, List.mem_range]
    obtain ⟨⟨s, _⟩, hs, rfl⟩ := List.mem_map.mp hmem
    refine ⟨s, h.index?_of_mem hs, fun t ht => ?_⟩
    have hnodup : (e.entries.map Prod.snd).Nodup := by
      rw [h.indexes_eq]
      exact List.nodup_range
    have heq := List.inj_on_of_nodup_map hnodup (mem_of_index? ht) hs rfl
    rw [Prod.mk.injEq] at heq
    exact heq.1

theorem Dense.insert (h : e.Dense) {s : String} (hs : e.index? s = none)
    (hsize : e.size < maxNames) : (e.insert s).Dense where
  nodup := by
    have hnew := index?_eq_none_iff.mp hs
    simp only [NameIndex.insert, List.map_append, List.map_cons, List.map_nil]
    exact List.nodup_append.mpr ⟨h.nodup, List.nodup_singleton s, fun t ht u hu => by
      rw [List.mem_singleton] at hu
      rintro rfl
      exact hnew (hu ▸ ht)⟩
  indexes_eq := by
    rw [size_insert, List.range_succ, ← h.indexes_eq]
    simp [NameIndex.insert, nextIndex_of_lt hsize]

/-- Each name stands at its index. -/
theorem Dense.index_eq (h : e.Dense) {p : String × Nat} {i : Nat} (hi : e.entries[i]? = some p) :
    p.2 = i := by
  have hindex : (List.range e.size)[i]? = some p.2 := by
    rw [← h.indexes_eq, List.getElem?_map, hi]
    rfl
  obtain ⟨hlt, hp⟩ := List.getElem?_eq_some_iff.mp hindex
  rw [← hp, List.getElem_range]

theorem Dense.entries_rollback (h : e.Dense) (mark : Nat) :
    (e.rollback mark).entries = e.entries.take mark := by
  have hkept : (e.entries.take mark).filter (·.2 < mark) = e.entries.take mark := by
    rw [List.filter_eq_self]
    intro p hp
    obtain ⟨i, hi⟩ := List.mem_iff_getElem?.mp hp
    rw [List.getElem?_take] at hi
    split_ifs at hi with hlt
    rw [decide_eq_true_eq, h.index_eq hi]
    exact hlt
  have hdropped : (e.entries.drop mark).filter (·.2 < mark) = [] := by
    rw [List.filter_eq_nil_iff]
    intro p hp
    obtain ⟨i, hi⟩ := List.mem_iff_getElem?.mp hp
    rw [List.getElem?_drop] at hi
    rw [decide_eq_true_eq, h.index_eq hi]
    omega
  unfold NameIndex.rollback
  split_ifs with hmark
  · dsimp only
    conv_lhs => rw [← List.take_append_drop mark e.entries]
    rw [List.filter_append, hkept, hdropped, List.append_nil]
  · exact (List.take_of_length_le (Nat.not_lt.mp hmark)).symm

theorem Dense.rollback (h : e.Dense) (mark : Nat) : (e.rollback mark).Dense where
  nodup := by
    rw [h.entries_rollback]
    exact h.nodup.sublist ((List.take_sublist mark e.entries).map Prod.fst)
  indexes_eq := by
    rw [size, h.entries_rollback, List.map_take, h.indexes_eq, List.take_range, List.length_take]
    rfl

theorem Dense.rollback_eq (h' : e'.Dense) (hgrown : e.entries <+: e'.entries) :
    e'.rollback e.size = e := by
  cases e
  rw [mk.injEq, h'.entries_rollback]
  exact (List.prefix_iff_eq_take.mp hgrown).symm

/-- A reading end that has the names in their order agrees. -/
theorem Dense.agrees (h : e.Dense) : e.Agrees ⟨e.entries.map Prod.fst⟩ where
  size_eq := (List.length_map Prod.fst).symm
  index?_eq_some_iff s i := by
    rw [NameTable.name?, List.getElem?_map, Option.map_eq_some_iff]
    constructor
    · intro hs
      obtain ⟨j, hj⟩ := List.mem_iff_getElem?.mp (mem_of_index? hs)
      obtain rfl : i = j := h.index_eq hj
      exact ⟨(s, i), hj, rfl⟩
    · rintro ⟨⟨t, j⟩, hi, rfl⟩
      obtain rfl : j = i := h.index_eq hi
      exact h.index?_of_mem (List.mem_of_getElem? hi)

end NameIndex

namespace Writer

/-- Whatever it writes and wherever it fails, the writer only adds names behind those known. They
have the next indexes as long as there are enough of these. -/
structure Grows (w : Writer) : Prop where
  isPrefix : ∀ e, e.entries <+: (w e).names.entries
  dense : ∀ {e}, e.Dense → (w e).names.size ≤ maxNames → (w e).names.Dense

namespace Grows

variable {w w₁ w₂ : Writer}

theorem size_le (h : w.Grows) (e : NameIndex) : e.size ≤ (w e).names.size := (h.isPrefix e).length_le

theorem emit (bytes : List UInt8) : Grows (.emit bytes) :=
  ⟨fun e => List.prefix_refl e.entries, fun he _ => he⟩

theorem fail (f : Failure) : Grows (.fail f) :=
  ⟨fun e => List.prefix_refl e.entries, fun he _ => he⟩

theorem name (s : String) : Grows (.name s) where
  isPrefix e := by
    cases hi : e.index? s with
    | some i =>
      simp only [name_of_known hi, List.prefix_refl]
    | none =>
      rw [name_of_new hi]
      exact List.prefix_append e.entries _
  dense {e} he hsize := by
    cases hi : e.index? s with
    | some i =>
      rw [name_of_known hi]
      exact he
    | none =>
      rw [name_of_new hi] at hsize ⊢
      rw [NameIndex.size_insert] at hsize
      exact he.insert hi hsize

theorem append (h₁ : w₁.Grows) (h₂ : w₂.Grows) : (w₁ ++ w₂).Grows where
  isPrefix e := by
    cases hf : (w₁ e).failure? with
    | some f =>
      rw [append_of_some hf]
      exact h₁.isPrefix e
    | none =>
      rw [append_of_none hf]
      exact (h₁.isPrefix e).trans (h₂.isPrefix _)
  dense {e} he hsize := by
    cases hf : (w₁ e).failure? with
    | some f =>
      rw [append_of_some hf] at hsize ⊢
      exact h₁.dense he hsize
    | none =>
      rw [append_of_none hf] at hsize ⊢
      exact h₂.dense (h₁.dense he ((h₂.size_le _).trans hsize)) hsize

theorem concat {ws : List Writer} (h : ∀ w ∈ ws, w.Grows) : (concat ws).Grows := by
  induction ws with
  | nil => exact emit []
  | cons w ws ih =>
    exact (h w (List.mem_cons_self ..)).append
      (ih fun v hv => h v (List.mem_cons_of_mem w hv))

end Grows

end Writer

end RemoteCall.Wire
