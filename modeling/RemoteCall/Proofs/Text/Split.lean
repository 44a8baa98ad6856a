import Mathlib.Data.List.TakeDrop
import Mathlib.Data.List.TakeWhile
import Mathlib.Tactic.Common
import RemoteCall.Text.Split

/-!
# Cutting joined texts

Texts without the separator come back from their join one by one. And the parts of any text have no
separator in them and give it back when they are joined.
-/

namespace RemoteCall.Text

theorem splitChars_ne_nil (sep : Char) (cs : List Char) : splitChars sep cs ≠ [] := by
  induction cs with
  | nil => simp [splitChars]
  | cons c cs ih =>
    cases h : splitChars sep cs with
    | nil => exact absurd h ih
    | cons part parts =>
      simp only [splitChars, h]
      split <;> simp

theorem splitChars_cons_sep (sep : Char) (cs : List Char) :
    splitChars sep (sep :: cs) = [] :: splitChars sep cs := by
  cases h : splitChars sep cs with
  | nil => exact absurd h (splitChars_ne_nil sep cs)
  | cons part parts => simp [splitChars, h]

theorem splitChars_cons_of_ne {sep c : Char} (hc : c ≠ sep) {cs part : List Char}
    {parts : List (List Char)} (h : splitChars sep cs = part :: parts) :
    splitChars sep (c :: cs) = (c :: part) :: parts := by
  simp [splitChars, h, hc]

theorem splitChars_of_notMem {sep : Char} {cs : List Char} (h : sep ∉ cs) :
    splitChars sep cs = [cs] := by
  induction cs with
  | nil => rfl
  | cons c cs ih =>
    rw [List.mem_cons, not_or] at h
    exact splitChars_cons_of_ne (Ne.symm h.1) (ih h.2)

theorem splitChars_append_sep {sep : Char} {cs : List Char} (h : sep ∉ cs) (rest : List Char) :
    splitChars sep (cs ++ sep :: rest) = cs :: splitChars sep rest := by
  induction cs with
  | nil => exact splitChars_cons_sep sep rest
  | cons c cs ih =>
    rw [List.mem_cons, not_or] at h
    exact splitChars_cons_of_ne (Ne.symm h.1) (ih h.2)

theorem toList_join_cons (sep : Char) (s t : String) (ss : List String) :
    (join (String.singleton sep) (s :: t :: ss)).toList =
      s.toList ++ sep :: (join (String.singleton sep) (t :: ss)).toList := by
  simp [join]

theorem splitChars_join {sep : Char} {s : String} {ss : List String}
    (h : ∀ t ∈ s :: ss, sep ∉ t.toList) :
    splitChars sep (join (String.singleton sep) (s :: ss)).toList =
      (s :: ss).map String.toList := by
  induction ss generalizing s with
  | nil => exact splitChars_of_notMem (h s (List.mem_singleton.mpr rfl))
  | cons t ss ih =>
    rw [toList_join_cons, splitChars_append_sep (h s (List.mem_cons_self ..)),
      ih fun u hu => h u (List.mem_cons_of_mem s hu)]
    rfl

theorem split_join {sep : Char} {s : String} {ss : List String}
    (h : ∀ t ∈ s :: ss, sep ∉ t.toList) :
    split sep (join (String.singleton sep) (s :: ss)) = s :: ss := by
  rw [split, splitChars_join h, List.map_map]
  simp

theorem length_splitChars (sep : Char) (cs : List Char) :
    (splitChars sep cs).length = cs.count sep + 1 := by
  induction cs with
  | nil => rfl
  | cons c cs ih =>
    by_cases hc : c = sep
    · rw [hc, splitChars_cons_sep, List.length_cons, ih, List.count_cons_self]
    · cases h : splitChars sep cs with
      | nil => exact absurd h (splitChars_ne_nil sep cs)
      | cons part parts =>
        rw [splitChars_cons_of_ne hc h, List.length_cons, List.count_cons_of_ne hc, ← ih, h,
          List.length_cons]

/-- Texts with separators in them come apart into more parts than were joined, never fewer. -/
theorem length_le_length_split_join (sep : Char) (s : String) (ss : List String) :
    (s :: ss).length ≤ (split sep (join (String.singleton sep) (s :: ss))).length := by
  rw [split, List.length_map, length_splitChars, List.length_cons]
  refine Nat.add_le_add_right ?_ 1
  induction ss generalizing s with
  | nil => exact Nat.zero_le _
  | cons t ss ih =>
    rw [toList_join_cons, List.count_append, List.count_cons_self, List.length_cons]
    have := ih t
    omega

theorem length_lt_length_split_join {sep : Char} {s : String} {ss : List String}
    (h : ∃ t ∈ s :: ss, sep ∈ t.toList) :
    (s :: ss).length < (split sep (join (String.singleton sep) (s :: ss))).length := by
  rw [split, List.length_map, length_splitChars, List.length_cons]
  refine Nat.add_lt_add_right ?_ 1
  induction ss generalizing s with
  | nil =>
    obtain ⟨t, ht, hsep⟩ := h
    rw [List.mem_singleton.mp ht] at hsep
    exact List.count_pos_iff.mpr hsep
  | cons t ss ih =>
    rw [toList_join_cons, List.count_append, List.count_cons_self, List.length_cons]
    obtain ⟨u, hu, hsep⟩ := h
    rcases List.mem_cons.mp hu with rfl | hu
    · -- the separators between the texts are as many as the texts behind the first
      have hrest := length_le_length_split_join sep t ss
      rw [split, List.length_map, length_splitChars, List.length_cons] at hrest
      have hfirst := List.count_pos_iff.mpr hsep
      omega
    · have hrest := ih ⟨u, hu, hsep⟩
      omega

/-- No part has the separator in it. -/
theorem notMem_of_mem_splitChars {sep : Char} {cs part : List Char} (h : part ∈ splitChars sep cs) :
    sep ∉ part := by
  induction cs generalizing part with
  | nil =>
    rw [List.mem_singleton.mp h]
    exact List.not_mem_nil
  | cons c cs ih =>
    by_cases hc : c = sep
    · rw [hc, splitChars_cons_sep] at h
      rcases List.mem_cons.mp h with rfl | h
      · exact List.not_mem_nil
      · exact ih h
    · cases hcs : splitChars sep cs with
      | nil => exact absurd hcs (splitChars_ne_nil sep cs)
      | cons first parts =>
        rw [hcs] at ih
        rw [splitChars_cons_of_ne hc hcs] at h
        rcases List.mem_cons.mp h with rfl | h
        · rw [List.mem_cons, not_or]
          exact ⟨Ne.symm hc, ih (List.mem_cons_self ..)⟩
        · exact ih (List.mem_cons_of_mem _ h)

theorem notMem_of_mem_split {sep : Char} {s part : String} (h : part ∈ split sep s) :
    sep ∉ part.toList := by
  obtain ⟨cs, hcs, rfl⟩ := List.mem_map.mp h
  rw [String.toList_ofList]
  exact notMem_of_mem_splitChars hcs

theorem toList_join_splitChars (sep : Char) (cs : List Char) :
    (join (String.singleton sep) ((splitChars sep cs).map String.ofList)).toList = cs := by
  induction cs with
  | nil => rfl
  | cons c cs ih =>
    cases hcs : splitChars sep cs with
    | nil => exact absurd hcs (splitChars_ne_nil sep cs)
    | cons first parts =>
      rw [hcs] at ih
      by_cases hc : c = sep
      · rw [hc, splitChars_cons_sep, hcs, List.map_cons, List.map_cons, toList_join_cons,
          ← List.map_cons, ih, String.toList_ofList, List.nil_append]
      · rw [splitChars_cons_of_ne hc hcs]
        cases parts with
        | nil => simpa [join] using ih
        | cons second parts =>
          rw [List.map_cons, List.map_cons, toList_join_cons, String.toList_ofList] at ih ⊢
          rw [List.cons_append, ih]

theorem join_split (sep : Char) (s : String) : join (String.singleton sep) (split sep s) = s :=
  String.toList_inj.mp (toList_join_splitChars sep s.toList)

theorem mem_join_of_mem {sep s : String} {ss : List String} {c : Char} (hs : s ∈ ss)
    (hc : c ∈ s.toList) : c ∈ (join sep ss).toList := by
  induction ss with
  | nil => cases hs
  | cons t ss ih =>
    cases ss with
    | nil => exact List.mem_singleton.mp hs ▸ hc
    | cons u ss =>
      rw [join, String.toList_append, String.toList_append]
      rcases List.mem_cons.mp hs with rfl | hs
      · exact List.mem_append_left _ (List.mem_append_left _ hc)
      · exact List.mem_append_right _ (ih hs)

theorem mem_of_mem_split {sep : Char} {s part : String} {c : Char} (h : part ∈ split sep s)
    (hc : c ∈ part.toList) : c ∈ s.toList := by
  rw [← join_split sep s]
  exact mem_join_of_mem h hc

theorem notMem_of_splitFirst? {sep : Char} {s before after : String}
    (h : splitFirst? sep s = some (before, after)) : sep ∉ before.toList := by
  rw [splitFirst?, List.span_eq_takeWhile_dropWhile] at h
  cases hdrop : s.toList.dropWhile (fun c => decide (c ≠ sep)) with
  | nil =>
    rw [hdrop] at h
    cases h
  | cons c cs =>
    rw [hdrop] at h
    cases h
    rw [String.toList_ofList]
    intro hsep
    have hne := List.mem_takeWhile_imp hsep
    exact of_decide_eq_true hne rfl

theorem splitFirst?_append {sep : Char} {s : String} (h : sep ∉ s.toList) (t : String) :
    splitFirst? sep (s ++ String.singleton sep ++ t) = some (s, t) := by
  have hpos : ∀ c ∈ s.toList, decide (c ≠ sep) = true := by
    intro c hc
    exact decide_eq_true fun he => h (he ▸ hc)
  have hlist : (s ++ String.singleton sep ++ t).toList = s.toList ++ sep :: t.toList := by simp
  rw [splitFirst?, List.span_eq_takeWhile_dropWhile, hlist, List.takeWhile_append_of_pos hpos,
    List.dropWhile_append_of_pos hpos]
  simp

theorem exists_splitFirst? {sep : Char} {s : String} (h : sep ∈ s.toList) :
    ∃ parts, splitFirst? sep s = some parts := by
  have hrest : s.toList.dropWhile (fun c => decide (c ≠ sep)) ≠ [] := by
    intro hnil
    have hall := List.dropWhile_eq_nil_iff.mp hnil sep h
    exact of_decide_eq_true hall rfl
  rw [splitFirst?, List.span_eq_takeWhile_dropWhile]
  cases hdrop : s.toList.dropWhile (fun c => decide (c ≠ sep)) with
  | nil => exact absurd hdrop hrest
  | cons c cs => exact ⟨_, rfl⟩

/-- Around the separator stands the text that was cut there. -/
theorem append_of_splitFirst? {sep : Char} {s before after : String}
    (h : splitFirst? sep s = some (before, after)) :
    before ++ String.singleton sep ++ after = s := by
  rw [splitFirst?, List.span_eq_takeWhile_dropWhile] at h
  cases hdrop : s.toList.dropWhile (fun c => decide (c ≠ sep)) with
  | nil =>
    rw [hdrop] at h
    cases h
  | cons c cs =>
    rw [hdrop] at h
    cases h
    have hsep : c = sep := by
      have hhead := List.head?_dropWhile_not (fun c => decide (c ≠ sep)) s.toList
      rw [hdrop] at hhead
      simpa using hhead
    have hlist := List.takeWhile_append_dropWhile (p := fun c => decide (c ≠ sep)) (l := s.toList)
    rw [hdrop, hsep] at hlist
    refine String.toList_inj.mp ?_
    simpa using hlist

/-! ## The last separator -/

/-- From behind, the last separator is the first one. -/
theorem splitLast?_eq (sep : Char) (s : String) :
    splitLast? sep s = (splitFirst? sep (String.ofList s.toList.reverse)).map fun (after, before) =>
      (String.ofList before.toList.reverse, String.ofList after.toList.reverse) := by
  rw [splitLast?, splitFirst?, String.toList_ofList]
  rcases s.toList.reverse.span (fun c => decide (c ≠ sep)) with ⟨after, _ | ⟨c, before⟩⟩
  · rfl
  · simp

theorem splitLast?_append {sep : Char} {t : String} (h : sep ∉ t.toList) (s : String) :
    splitLast? sep (s ++ String.singleton sep ++ t) = some (s, t) := by
  have hnot : sep ∉ (String.ofList t.toList.reverse).toList := by simpa using h
  have hreverse : String.ofList (s ++ String.singleton sep ++ t).toList.reverse =
      String.ofList t.toList.reverse ++ String.singleton sep ++ String.ofList s.toList.reverse := by
    rw [← String.toList_inj]
    simp
  rw [splitLast?_eq, hreverse, splitFirst?_append hnot]
  simp

theorem append_of_splitLast? {sep : Char} {s before after : String}
    (h : splitLast? sep s = some (before, after)) :
    before ++ String.singleton sep ++ after = s := by
  rw [splitLast?_eq, Option.map_eq_some_iff] at h
  obtain ⟨⟨first, second⟩, hsplit, heq⟩ := h
  cases heq
  have hjoin := congrArg (fun t => String.ofList t.toList.reverse) (append_of_splitFirst? hsplit)
  rw [← String.toList_inj]
  simpa using congrArg String.toList hjoin

end RemoteCall.Text
