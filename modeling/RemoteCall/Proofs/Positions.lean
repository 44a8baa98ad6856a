import Mathlib.Logic.Basic

/-!
# Lists by position

What stands at each position of a list after one element was replaced or added at the end.
-/

namespace RemoteCall

variable {α : Type} {l : List α} {i : Nat} {a : α}

theorem getElem?_set_of_some (h : l[i]? = some a) (b : α) (j : Nat) :
    (l.set i b)[j]? = if j = i then some b else l[j]? := by
  have hlt := (List.getElem?_eq_some_iff.mp h).1
  rw [List.getElem?_set]
  by_cases hj : j = i
  · rw [if_pos hj, if_pos hj.symm, if_pos (hj ▸ hlt)]
  · rw [if_neg hj, if_neg (Ne.symm hj)]

theorem getElem?_concat (l : List α) (a : α) (j : Nat) :
    (l ++ [a])[j]? = if j = l.length then some a else l[j]? := by
  rcases Nat.lt_trichotomy j l.length with hj | hj | hj
  · rw [List.getElem?_append_left hj, if_neg (Nat.ne_of_lt hj)]
  · rw [hj, if_pos rfl, List.getElem?_concat_length]
  · have hle : (l ++ [a]).length ≤ j := by
      rw [List.length_append]
      exact hj
    rw [if_neg (Nat.ne_of_gt hj), List.getElem?_eq_none hle,
      List.getElem?_eq_none (Nat.le_of_lt hj)]

end RemoteCall
