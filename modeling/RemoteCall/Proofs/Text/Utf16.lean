import Mathlib.Tactic.SplitIfs
import RemoteCall.Text.Utf16

/-!
# Characters from their UTF-16 units

No character is lost in its units: a character of the basic plane is no surrogate, and the pair of
any other gives it back. And no units but its own are read as a text. Units are read as a text
exactly if each surrogate among them stands in a pair.
-/

namespace RemoteCall.Text.Utf16

theorem isHigh_iff {u : UInt16} : isHigh u = true ↔ 0xD800 ≤ u.toNat ∧ u.toNat < 0xDC00 := by
  simp [isHigh, UInt16.le_iff_toNat_le, UInt16.lt_iff_toNat_lt]

theorem isLow_iff {u : UInt16} : isLow u = true ↔ 0xDC00 ≤ u.toNat ∧ u.toNat < 0xE000 := by
  simp [isLow, UInt16.le_iff_toNat_le, UInt16.lt_iff_toNat_lt]

theorem isSurrogate_iff {u : UInt16} :
    isSurrogate u = true ↔ 0xD800 ≤ u.toNat ∧ u.toNat < 0xE000 := by
  rw [isSurrogate, Bool.or_eq_true, isHigh_iff, isLow_iff]
  omega

theorem toNat_char_lt (c : Char) : c.toNat < 0xD800 ∨ 0xDFFF < c.toNat ∧ c.toNat < 0x110000 :=
  c.valid

theorem toNat_toUInt16 {n : Nat} (h : n < 0x10000) : n.toUInt16.toNat = n := by
  rw [Nat.toUInt16, UInt16.toNat_ofNat']
  exact Nat.mod_eq_of_lt h

/-- A character of the basic plane is never mistaken for half of a pair. -/
theorem not_isSurrogate_char {c : Char} (h : c.toNat < 0x10000) :
    isSurrogate c.toNat.toUInt16 = false := by
  rw [Bool.eq_false_iff, ne_eq, isSurrogate_iff, toNat_toUInt16 h]
  have := toNat_char_lt c
  omega

theorem unitChar?_char {c : Char} (h : c.toNat < 0x10000) :
    unitChar? c.toNat.toUInt16 = some c := by
  rw [unitChar?, if_neg (by simp [not_isSurrogate_char h]), toNat_toUInt16 h, Char.ofNat_toNat]

theorem isHigh_char {c : Char} (h : c.toNat < 0x10000) : isHigh c.toNat.toUInt16 = false :=
  (Bool.or_eq_false_iff.mp (not_isSurrogate_char h)).1

theorem chars?_cons_char {c : Char} (h : c.toNat < 0x10000) (us : List UInt16) :
    chars? (c.toNat.toUInt16 :: us) = (chars? us).map (c :: ·) := by
  cases us with
  | nil => simp [chars?, unitChar?_char h]
  | cons v us =>
    rw [chars?, isHigh_char h, Bool.false_and, if_neg Bool.false_ne_true, unitChar?_char h]
    cases chars? (v :: us) <;> rfl

theorem chars?_cons_pair {u v : UInt16} (hu : isHigh u = true) (hv : isLow v = true)
    (us : List UInt16) : chars? (u :: v :: us) = (chars? us).map (pairChar u v :: ·) := by
  rw [chars?, hu, hv, Bool.true_and, if_pos rfl]
  cases chars? us <;> rfl

theorem chars?_unitsOfChar (c : Char) (us : List UInt16) :
    chars? (unitsOfChar c ++ us) = (chars? us).map (c :: ·) := by
  unfold unitsOfChar
  split_ifs with h
  · exact chars?_cons_char h us
  · have hc := toNat_char_lt c
    have hhigh : (0xD800 + (c.toNat - 0x10000) / 0x400).toUInt16.toNat =
        0xD800 + (c.toNat - 0x10000) / 0x400 := toNat_toUInt16 (by omega)
    have hlow : (0xDC00 + (c.toNat - 0x10000) % 0x400).toUInt16.toNat =
        0xDC00 + (c.toNat - 0x10000) % 0x400 := toNat_toUInt16 (by omega)
    have hpair : pairChar (0xD800 + (c.toNat - 0x10000) / 0x400).toUInt16
        (0xDC00 + (c.toNat - 0x10000) % 0x400).toUInt16 = c := by
      rw [pairChar, hhigh, hlow]
      have : 0x10000 + (0xD800 + (c.toNat - 0x10000) / 0x400 - 0xD800) * 0x400 +
          (0xDC00 + (c.toNat - 0x10000) % 0x400 - 0xDC00) = c.toNat := by omega
      rw [this, Char.ofNat_toNat]
    rw [List.cons_append, List.singleton_append, chars?_cons_pair, hpair]
    · rw [isHigh_iff, hhigh]
      omega
    · rw [isLow_iff, hlow]
      omega

theorem chars?_units (cs : List Char) : chars? (units cs) = some cs := by
  induction cs with
  | nil => rfl
  | cons c cs ih =>
    rw [units, List.flatMap_cons, chars?_unitsOfChar, ← units, ih]
    rfl

theorem toUInt16_toNat (u : UInt16) : u.toNat.toUInt16 = u := UInt16.ofNat_toNat

theorem toNat_charOfNat {n : Nat} (h : n.isValidChar) : (Char.ofNat n).toNat = n := by
  rw [Char.ofNat, dif_pos h]
  rfl

theorem unitsOfChar_of_unitChar? {u : UInt16} {c : Char} (h : unitChar? u = some c) :
    c.toNat = u.toNat ∧ unitsOfChar c = [u] := by
  unfold unitChar? at h
  split_ifs at h with hsurrogate
  cases h
  rw [isSurrogate_iff] at hsurrogate
  have hlt := u.toNat_lt
  have hvalid : u.toNat.isValidChar := by
    unfold Nat.isValidChar
    omega
  have hc := toNat_charOfNat hvalid
  refine ⟨hc, ?_⟩
  rw [unitsOfChar, hc, if_pos (by omega), toUInt16_toNat]

theorem unitsOfChar_pairChar {u v : UInt16} (hu : isHigh u = true) (hv : isLow v = true) :
    unitsOfChar (pairChar u v) = [u, v] := by
  rw [isHigh_iff] at hu
  rw [isLow_iff] at hv
  have hvalid : (0x10000 + (u.toNat - 0xD800) * 0x400 + (v.toNat - 0xDC00)).isValidChar := by
    unfold Nat.isValidChar
    omega
  have hhigh : 0xD800 + ((u.toNat - 0xD800) * 0x400 + (v.toNat - 0xDC00)) / 0x400 = u.toNat := by
    omega
  have hlow : 0xDC00 + ((u.toNat - 0xD800) * 0x400 + (v.toNat - 0xDC00)) % 0x400 = v.toNat := by
    omega
  rw [unitsOfChar, pairChar, toNat_charOfNat hvalid, if_neg (by omega)]
  simp only [Nat.add_assoc, Nat.add_sub_cancel_left]
  rw [hhigh, hlow, toUInt16_toNat, toUInt16_toNat]

/-- The units of a text that was read are those that were read. -/
theorem units_of_chars? {us : List UInt16} {cs : List Char} (h : chars? us = some cs) :
    units cs = us := by
  fun_induction chars? us generalizing cs with
  | case1 =>
    cases h
    rfl
  | case2 u =>
    obtain ⟨c, hc, rfl⟩ := Option.map_eq_some_iff.mp h
    rw [units, List.flatMap_singleton, (unitsOfChar_of_unitChar? hc).2]
  | case3 u v rest hpair cs' hrest ih =>
    cases h
    rw [Bool.and_eq_true] at hpair
    rw [units, List.flatMap_cons, unitsOfChar_pairChar hpair.1 hpair.2, ← units, ih hrest]
    rfl
  | case4 => cases h
  | case5 u v rest _ c cs' hrest hc ih =>
    cases h
    rw [units, List.flatMap_cons, (unitsOfChar_of_unitChar? hc).2, ← units, ih hrest]
    rfl
  | case6 => cases h

/-! ## Pairs of surrogates -/

/-- A low surrogate stands behind each high one and, the first place apart, nowhere else. -/
def IsChained (us : List UInt16) : Prop :=
  ∀ i, us[i]?.any isHigh = us[i + 1]?.any isLow

/-- No surrogate is unpaired: a low one stands behind each high one and nowhere else. -/
def IsPaired (us : List UInt16) : Prop := us.head?.any isLow = false ∧ IsChained us

section Pairs

variable {u v : UInt16} {us : List UInt16}

theorem isChained_cons :
    IsChained (u :: us) ↔ isHigh u = us.head?.any isLow ∧ IsChained us := by
  unfold IsChained
  rw [← Nat.and_forall_add_one]
  simp [List.head?_eq_getElem?]

theorem isPaired_cons :
    IsPaired (u :: us) ↔ isLow u = false ∧ isHigh u = us.head?.any isLow ∧ IsChained us := by
  rw [IsPaired, isChained_cons]
  rfl

theorem isPaired_cons_pair (hu : isHigh u = true) (hv : isLow v = true) :
    IsPaired (u :: v :: us) ↔ IsPaired us := by
  have hu' : isLow u = false := by
    rw [isHigh_iff] at hu
    rw [Bool.eq_false_iff, ne_eq, isLow_iff]
    omega
  have hv' : isHigh v = false := by
    rw [isLow_iff] at hv
    rw [Bool.eq_false_iff, ne_eq, isHigh_iff]
    omega
  rw [isPaired_cons, isChained_cons, IsPaired, List.head?_cons, Option.any_some, hu, hv, hu', hv',
    eq_comm (a := false)]
  simp

/-- A unit that begins no pair has to be a character of its own. -/
theorem isPaired_cons_unit (h : ¬ (isHigh u && us.head?.any isLow) = true) :
    IsPaired (u :: us) ↔ isSurrogate u = false ∧ IsPaired us := by
  rw [isPaired_cons, IsPaired, isSurrogate, Bool.or_eq_false_iff]
  cases hhigh : isHigh u <;> cases hlow : us.head?.any isLow <;> simp_all

theorem isSome_unitChar?_iff : (unitChar? u).isSome = true ↔ isSurrogate u = false := by
  unfold unitChar?
  cases isSurrogate u <;> simp

end Pairs

/-- Units are a text exactly if no surrogate among them is unpaired. -/
theorem isSome_chars?_iff (us : List UInt16) : (chars? us).isSome = true ↔ IsPaired us := by
  fun_induction chars? us with
  | case1 => simp [IsPaired, IsChained]
  | case2 u =>
    rw [Option.isSome_map, isSome_unitChar?_iff, isPaired_cons_unit (by simp)]
    simp [IsPaired, IsChained]
  | case3 u v rest hpair cs hrest ih =>
    obtain ⟨hu, hv⟩ := Bool.and_eq_true_iff.mp hpair
    rw [isPaired_cons_pair hu hv, ← ih, hrest]
    rfl
  | case4 u v rest hpair hrest ih =>
    obtain ⟨hu, hv⟩ := Bool.and_eq_true_iff.mp hpair
    rw [isPaired_cons_pair hu hv, ← ih, hrest]
  | case5 u v rest hpair c cs hrest hc ih =>
    rw [isPaired_cons_unit hpair, ← isSome_unitChar?_iff, ← ih, hc, hrest]
    exact ⟨fun _ => ⟨rfl, rfl⟩, fun _ => rfl⟩
  | case6 u v rest hpair hnone ih =>
    rw [isPaired_cons_unit hpair, ← isSome_unitChar?_iff, ← ih]
    refine ⟨nofun, fun ⟨hu, hrest⟩ => ?_⟩
    obtain ⟨c, hc⟩ := Option.isSome_iff_exists.mp hu
    obtain ⟨cs, hcs⟩ := Option.isSome_iff_exists.mp hrest
    exact (hnone c cs hc hcs).elim

instance (us : List UInt16) : Decidable (IsPaired us) :=
  decidable_of_iff _ (isSome_chars?_iff us)

end RemoteCall.Text.Utf16
