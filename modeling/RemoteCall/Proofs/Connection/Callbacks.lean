import Mathlib.Data.List.Nodup
import RemoteCall.Connection.Callbacks

/-!
# Tables of callbacks

The entries of a table after an insertion or a removal, and what one of many callbacks hears. When
each callback is told at most once in a round, one that is told hears just that.
-/

namespace RemoteCall

namespace CallbackTable

variable {t : CallbackTable} {q : UInt64} {p : PendingCallback} {e : UInt64 × PendingCallback}

theorem mem_erase : e ∈ (t.erase q).entries ↔ e ∈ t.entries ∧ e.1 ≠ q := by
  rw [erase, List.mem_filter, bne_iff_ne]

theorem mem_insert : e ∈ (t.insert q p).entries ↔ e = (q, p) ∨ e ∈ t.entries ∧ e.1 ≠ q := by
  rw [insert, List.mem_cons, mem_erase]

theorem mem_of_find? (h : t.find? q = some p) : (q, p) ∈ t.entries := by
  obtain ⟨l₁, l₂, hentries, -⟩ := List.lookup_eq_some_iff.mp h
  rw [hentries]
  simp

theorem isSome_find?_iff : (t.find? q).isSome ↔ ∃ e ∈ t.entries, e.1 = q := by
  rw [find?, List.lookup_isSome_iff]
  constructor
  · rintro ⟨e, he, hq⟩
    exact ⟨e, he, (beq_iff_eq.mp hq).symm⟩
  · rintro ⟨e, he, rfl⟩
    exact ⟨e, he, beq_self_eq_true _⟩

end CallbackTable

section ToldTo

variable {α : Type} {l l' : List (Nat × α)} {i j : Nat} {a : α}

def toldTo (l : List (Nat × α)) (i : Nat) : List α := (l.filter (·.1 = i)).map Prod.snd

@[simp] theorem toldTo_nil (i : Nat) : toldTo ([] : List (Nat × α)) i = [] := rfl

theorem toldTo_append (l l' : List (Nat × α)) (i : Nat) :
    toldTo (l ++ l') i = toldTo l i ++ toldTo l' i := by
  rw [toldTo, List.filter_append, List.map_append, toldTo, toldTo]

theorem toldTo_cons_self (i : Nat) (a : α) (l : List (Nat × α)) :
    toldTo ((i, a) :: l) i = a :: toldTo l i := by
  simp [toldTo]

theorem toldTo_cons_of_ne (h : j ≠ i) (a : α) (l : List (Nat × α)) :
    toldTo ((j, a) :: l) i = toldTo l i := by
  simp [toldTo, h]

theorem toldTo_eq_nil (h : i ∉ l.map Prod.fst) : toldTo l i = [] := by
  induction l with
  | nil => rfl
  | cons x l ih =>
    obtain ⟨j, b⟩ := x
    rw [List.map_cons, List.mem_cons, not_or] at h
    rw [toldTo_cons_of_ne (Ne.symm h.1)]
    exact ih h.2

theorem toldTo_eq_singleton (hnodup : (l.map Prod.fst).Nodup) (h : (i, a) ∈ l) :
    toldTo l i = [a] := by
  induction l with
  | nil => cases h
  | cons x l ih =>
    obtain ⟨j, b⟩ := x
    rw [List.map_cons, List.nodup_cons] at hnodup
    rcases List.mem_cons.mp h with heq | h
    · cases heq
      rw [toldTo_cons_self, toldTo_eq_nil hnodup.1]
    · have hne : j ≠ i := by
        rintro rfl
        exact hnodup.1 (List.mem_map.mpr ⟨_, h, rfl⟩)
      rw [toldTo_cons_of_ne hne]
      exact ih hnodup.2 h

end ToldTo

end RemoteCall
