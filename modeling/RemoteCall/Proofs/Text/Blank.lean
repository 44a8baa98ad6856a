import Mathlib.Data.List.DropRight
import Mathlib.Tactic.Common
import RemoteCall.Text.Blank

/-!
# Texts cut at their ends

What is dropped in front and behind leaves a text alone exactly if neither its first nor its last
character is one to drop. So a text without blanks at its ends comes back from any blanks around it.
-/

namespace RemoteCall.Text

section Ends

variable {α : Type} {front back : α → Bool} {cs : List α}

theorem dropWhile_eq_self_iff_head? :
    cs.dropWhile front = cs ↔ ∀ c ∈ cs.head?, front c = false := by
  cases cs <;> simp

theorem rdropWhile_eq_self_iff_getLast? :
    cs.rdropWhile back = cs ↔ ∀ c ∈ cs.getLast?, back c = false := by
  rw [List.rdropWhile, List.reverse_eq_iff, dropWhile_eq_self_iff_head?, List.head?_reverse]

theorem front_eq_false_of_dropWhile {c : α} (hc : c ∈ (cs.dropWhile front).head?) :
    front c = false := by
  have hhead := List.head?_dropWhile_not front cs
  rw [hc] at hhead
  exact hhead

theorem back_eq_false_of_rdropWhile {c : α} (hc : c ∈ (cs.rdropWhile back).getLast?) :
    back c = false := by
  rw [List.rdropWhile, List.getLast?_reverse] at hc
  exact front_eq_false_of_dropWhile hc

theorem rdropWhile_dropWhile_eq_self_iff :
    (cs.dropWhile front).rdropWhile back = cs ↔
      (∀ c ∈ cs.head?, front c = false) ∧ ∀ c ∈ cs.getLast?, back c = false := by
  rw [← dropWhile_eq_self_iff_head?, ← rdropWhile_eq_self_iff_getLast?]
  constructor
  · intro h
    have hle := (List.rdropWhile_prefix back (cs.dropWhile front)).length_le
    have hsuffix := List.dropWhile_suffix front (l := cs)
    have hdrop := hsuffix.eq_of_length_le (by rwa [h] at hle)
    rw [hdrop] at h
    exact ⟨hdrop, h⟩
  · rintro ⟨hdrop, hrdrop⟩
    rw [hdrop, hrdrop]

/-- What is dropped stands at neither end of what is left. -/
theorem ends_rdropWhile_dropWhile (cs : List α) :
    (∀ c ∈ ((cs.dropWhile front).rdropWhile back).head?, front c = false) ∧
      ∀ c ∈ ((cs.dropWhile front).rdropWhile back).getLast?, back c = false := by
  refine ⟨fun c hc => ?_, fun c hc => back_eq_false_of_rdropWhile hc⟩
  obtain ⟨rest, hrest⟩ := List.head?_eq_some_iff.mp hc
  obtain ⟨dropped, hdropped⟩ := List.rdropWhile_prefix back (cs.dropWhile front)
  have hhead : c ∈ (cs.dropWhile front).head? := by
    rw [← hdropped, hrest]
    rfl
  exact front_eq_false_of_dropWhile hhead

theorem rdropWhile_dropWhile_isInfix (cs : List α) :
    (cs.dropWhile front).rdropWhile back <:+: cs :=
  (List.rdropWhile_prefix back _).isInfix.trans (List.dropWhile_suffix front).isInfix

end Ends

section Blanks

variable {cs : List Char}

theorem trimChars_eq_self_iff :
    trimChars cs = cs ↔
      (∀ c ∈ cs.head?, isBlank c = false) ∧ ∀ c ∈ cs.getLast?, isBlank c = false :=
  rdropWhile_dropWhile_eq_self_iff

theorem trimChars_trimChars (cs : List Char) : trimChars (trimChars cs) = trimChars cs :=
  rdropWhile_dropWhile_eq_self_iff.mpr (ends_rdropWhile_dropWhile cs)

theorem trimChars_isInfix (cs : List Char) : trimChars cs <:+: cs := rdropWhile_dropWhile_isInfix cs

theorem mem_of_mem_trim {s : String} {c : Char} (h : c ∈ (trim s).toList) : c ∈ s.toList := by
  rw [trim, String.toList_ofList] at h
  exact (trimChars_isInfix s.toList).subset h

theorem trimChars_append {front back : List Char} (hfront : ∀ c ∈ front, isBlank c = true)
    (hback : ∀ c ∈ back, isBlank c = true) (hcs : trimChars cs = cs) :
    trimChars (front ++ cs ++ back) = cs := by
  obtain ⟨hhead, hlast⟩ := trimChars_eq_self_iff.mp hcs
  have hblank : ∀ c ∈ back.reverse, isBlank c = true :=
    fun c hc => hback c (List.mem_reverse.mp hc)
  rw [trimChars, List.append_assoc, List.dropWhile_append_of_pos hfront]
  cases cs with
  | nil =>
    have hnil := List.dropWhile_eq_nil_iff.mpr hback
    rw [List.nil_append, hnil]
    rfl
  | cons c cs =>
    rw [List.cons_append, List.dropWhile_cons_of_neg (by simp [hhead c rfl]), ← List.cons_append,
      List.reverse_append, List.dropWhile_append_of_pos hblank]
    exact rdropWhile_eq_self_iff_getLast?.mpr hlast

theorem trim_eq_self_iff {s : String} : trim s = s ↔ trimChars s.toList = s.toList := by
  rw [trim, ← String.toList_inj, String.toList_ofList]

theorem trim_eq_self_of_forall {s : String} (h : ∀ c ∈ s.toList, isBlank c = false) :
    trim s = s := by
  rw [trim_eq_self_iff, trimChars_eq_self_iff]
  exact ⟨fun c hc => h c (List.mem_of_head? hc), fun c hc => h c (List.mem_of_getLast? hc)⟩

theorem trim_trim (s : String) : trim (trim s) = trim s := by
  rw [trim_eq_self_iff, trim, String.toList_ofList, trimChars_trimChars]

theorem trim_append {front s back : String} (hfront : isBlankText front = true)
    (hback : isBlankText back = true) (hs : trim s = s) : trim (front ++ s ++ back) = s := by
  rw [trim, String.toList_append, String.toList_append,
    trimChars_append (List.all_eq_true.mp hfront) (List.all_eq_true.mp hback)
      (trim_eq_self_iff.mp hs), String.ofList_toList]

theorem isBlank_eq_false_of_isDigit {c : Char} (hc : c.isDigit = true) : isBlank c = false := by
  have hrange : 48 ≤ c.toNat ∧ c.toNat ≤ 57 := by
    simpa [Char.isDigit, UInt32.le_iff_toNat_le] using hc
  simp [isBlank, blankRanges]
  omega

end Blanks

end RemoteCall.Text
