import RemoteCall.Proofs.Decimal.Reading
import RemoteCall.Proofs.Value.Coercion
import RemoteCall.Proofs.Width

/-!
# Integers as numbers and as text

An integer converts to the integer type of any width by reduction into its signed range, and its
text converts to the same value, with or without blanks around it. So the way through a wider type
leads back to the value.
-/

namespace RemoteCall

def DeclaredType.integerBits? : DeclaredType → Option Nat
  | .byte => some 8
  | .short => some 16
  | .int => some 32
  | .long => some 64
  | _ => none

namespace Value

inductive IsInteger : DeclaredType → Nat → Int → Value → Prop
  | byte (n : Int8) : IsInteger .byte 8 n.toInt (.byte n)
  | short (n : Int16) : IsInteger .short 16 n.toInt (.short n)
  | int (n : Int32) : IsInteger .int 32 n.toInt (.int n)
  | long (n : Int64) : IsInteger .long 64 n.toInt (.long n)

variable {v w : Value} {type : DeclaredType} {bits : Nat} {n : Int} {m : Int64}

namespace IsInteger

theorem unique (hv : v.IsInteger type bits n) (hw : w.IsInteger type bits n) : v = w := by
  generalize hn : n = k at hw
  cases hv with
  | byte =>
    cases hw with
    | byte => exact congrArg Value.byte (Int8.toInt_inj.mp hn)
  | short =>
    cases hw with
    | short => exact congrArg Value.short (Int16.toInt_inj.mp hn)
  | int =>
    cases hw with
    | int => exact congrArg Value.int (Int32.toInt_inj.mp hn)
  | long =>
    cases hw with
    | long => exact congrArg Value.long (Int64.toInt_inj.mp hn)

theorem integerBits?_eq (h : v.IsInteger type bits n) : type.integerBits? = some bits := by
  cases h <;> rfl

/-- The number stays as it is in a width that is not smaller. -/
theorem bmod_eq (h : v.IsInteger type bits n) {wider : Nat} (hle : bits ≤ wider) :
    n.bmod (Nat.pow 2 wider) = n := by
  suffices hfits : 0 < bits ∧ fitsWidth bits n = true from
    bmod_of_fitsWidth (hfits.1.trans_le hle) (fitsWidth_mono hle hfits.2)
  cases h with
  | byte k => exact ⟨by decide, fitsWidth_int8 k⟩
  | short k => exact ⟨by decide, fitsWidth_int16 k⟩
  | int k => exact ⟨by decide, fitsWidth_int32 k⟩
  | long k => exact ⟨by decide, fitsWidth_int64 k⟩

theorem display_eq (h : v.IsInteger type bits n) : v.display = Int.repr n := by
  cases h <;> rfl

theorem exists_integer? (h : v.IsInteger type bits n) :
    ∃ m, v.integer? = some m ∧ m.toInt = n := by
  cases h with
  | byte k => exact ⟨_, rfl, Int8.toInt_toInt64 k⟩
  | short k => exact ⟨_, rfl, Int16.toInt_toInt64 k⟩
  | int k => exact ⟨_, rfl, Int32.toInt_toInt64 k⟩
  | long k => exact ⟨_, rfl, rfl⟩

end IsInteger

/-- What counts as an integer and has an integer type stands for that integer. -/
theorem isInteger_of_accepts (hv : v.integer? = some m) (hbits : type.integerBits? = some bits)
    (h : type.accepts v = true) : v.IsInteger type bits m.toInt := by
  cases type with
  | byte =>
    cases hbits
    cases v with
    | byte k =>
      cases hv
      exact Int8.toInt_toInt64 k ▸ .byte k
    | null => cases hv
    | _ => cases h
  | short =>
    cases hbits
    cases v with
    | short k =>
      cases hv
      exact Int16.toInt_toInt64 k ▸ .short k
    | null => cases hv
    | _ => cases h
  | int =>
    cases hbits
    cases v with
    | int k =>
      cases hv
      exact Int32.toInt_toInt64 k ▸ .int k
    | null => cases hv
    | _ => cases h
  | long =>
    cases hbits
    cases v with
    | long k =>
      cases hv
      exact .long m
    | null => cases hv
    | _ => cases h
  | _ => cases hbits

/-- A conversion drops the bits that the type has no room for. -/
theorem exists_convert?_of_integer? (hv : v.integer? = some m)
    (hbits : type.integerBits? = some bits) :
    ∃ w, convert? type v = some w ∧ w.IsInteger type bits (m.toInt.bmod (Nat.pow 2 bits)) := by
  cases type with
  | byte =>
    cases hbits
    exact ⟨.byte m.toInt8, by simp [convert?, hv], Int64.toInt_toInt8 m ▸ .byte m.toInt8⟩
  | short =>
    cases hbits
    exact ⟨.short m.toInt16, by simp [convert?, hv], Int64.toInt_toInt16 m ▸ .short m.toInt16⟩
  | int =>
    cases hbits
    exact ⟨.int m.toInt32, by simp [convert?, hv], Int64.toInt_toInt32 m ▸ .int m.toInt32⟩
  | long =>
    cases hbits
    refine ⟨.long m, by simp [convert?, hv], ?_⟩
    rw [(IsInteger.long m).bmod_eq (Nat.le_refl 64)]
    exact .long m
  | _ => cases hbits

/-- A value of the type passes as it is, which is no other value than its conversion. -/
theorem exists_coerce_of_integer? (hv : v.integer? = some m)
    (hbits : type.integerBits? = some bits) :
    ∃ w, v.coerce type = .ok w ∧ w.IsInteger type bits (m.toInt.bmod (Nat.pow 2 bits)) := by
  obtain ⟨w, hconvert, hw⟩ := exists_convert?_of_integer? hv hbits
  by_cases haccepts : type.accepts v = true
  · have hinteger := isInteger_of_accepts hv hbits haccepts
    refine ⟨v, coerce_of_accepts haccepts, ?_⟩
    rwa [hinteger.bmod_eq (Nat.le_refl bits)]
  · refine ⟨w, ?_, hw⟩
    rw [coerce, if_neg haccepts, hconvert]

/-- The text of an integer counts as the integer, whatever blanks stand around it. -/
theorem IsInteger.integer?_text (h : v.IsInteger type bits n) {front back : String}
    (hfront : Text.isBlankText front = true) (hback : Text.isBlankText back = true) :
    (Value.string (front ++ v.display ++ back)).integer? = v.integer? := by
  obtain ⟨m, hm, rfl⟩ := h.exists_integer?
  rw [hm, h.display_eq]
  change Decimal.readInt64? (Text.trim (front ++ Int.repr m.toInt ++ back)) = _
  rw [Text.trim_append hfront hback (Decimal.trim_intRepr _), Decimal.readInt64?_repr]

theorem IsInteger.coerce_string (h : v.IsInteger type bits n) :
    v.coerce .string = .ok (.string v.display) := by
  cases h <;> rfl

/-- An integer is converted to an integer type by reduction into the range of the type, and so is
its text with any blanks around it. From a type that is at least as wide it is converted back. -/
theorem integer_coerced_alike {v : Value} {own : DeclaredType} {ownBits : Nat} {n : Int}
    (hv : v.IsInteger own ownBits n) {type : DeclaredType} {bits : Nat}
    (hbits : type.integerBits? = some bits) :
    ∃ w, v.coerce type = .ok w ∧ w.IsInteger type bits (n.bmod (Nat.pow 2 bits)) ∧
      (∃ text, v.coerce .string = .ok (.string text) ∧
        ∀ front back : String, Text.isBlankText front = true → Text.isBlankText back = true →
          (Value.string (front ++ text ++ back)).coerce type = .ok w) ∧
      (ownBits ≤ bits → w.coerce own = .ok v) := by
  obtain ⟨m, hm, rfl⟩ := hv.exists_integer?
  obtain ⟨w, hcoerce, hw⟩ := exists_coerce_of_integer? hm hbits
  refine ⟨w, hcoerce, hw, ⟨v.display, hv.coerce_string, ?_⟩, ?_⟩
  · intro front back hfront hback
    have htext := hv.integer?_text hfront hback
    obtain ⟨w', hcoerce', hw'⟩ := exists_coerce_of_integer? (htext.trans hm) hbits
    rw [hcoerce', hw'.unique hw]
  · intro hle
    rw [hv.bmod_eq hle] at hw
    obtain ⟨m', hm', hnumber⟩ := hw.exists_integer?
    obtain ⟨v', hback, hv'⟩ := exists_coerce_of_integer? hm' hv.integerBits?_eq
    rw [hnumber, hv.bmod_eq (Nat.le_refl ownBits)] at hv'
    rw [hback, hv'.unique hv]

/-- The least integer of 64 bits in 32 bits, as a number and as text between blanks. -/
theorem integer_coerced_alike_least :
    let least := Value.long (-0x8000000000000000)
    ∃ w, least.coerce .int = .ok w ∧ w.IsInteger .int 32 0 ∧
      (Value.string ("\u00a0\t" ++ "-9223372036854775808" ++ "\n")).coerce .int = .ok w := by
  intro least
  obtain ⟨w, hcoerce, hw, ⟨text, htext, hblanks⟩, -⟩ := integer_coerced_alike
    (.long (-0x8000000000000000)) (rfl : DeclaredType.int.integerBits? = some 32)
  have hdisplay : least.coerce .string = .ok (.string "-9223372036854775808") := rfl
  refine ⟨w, hcoerce, hw, ?_⟩
  cases htext.symm.trans hdisplay
  exact hblanks _ _ (by decide) (by decide)

end Value

end RemoteCall
