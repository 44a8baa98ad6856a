import RemoteCall.Ieee.Binary
import RemoteCall.Proofs.Width

/-!
# Equality of 64-bit numbers and their integer parts

Numbers that are equal have the same bits unless they are the two zeros. An integer part of so many
bits fits them.
-/

namespace RemoteCall

open Ieee

theorem Ieee.Datum.fitsWidth_truncate (bits : Nat) (d : Datum) :
    fitsWidth bits (d.truncate bits) = true := by
  have hmin := minSigned_le_zero bits
  have hmax := zero_le_maxSigned bits
  rw [fitsWidth_iff]
  cases d with
  | nan => exact ⟨hmin, hmax⟩
  | infinite negative =>
    cases negative
    · exact ⟨hmin.trans hmax, le_rfl⟩
    · exact ⟨le_rfl, hmin.trans hmax⟩
  | finite negative significand exponent =>
    simp only [truncate]
    exact ⟨le_max_left _ _, max_le (hmin.trans hmax) (min_le_left _ _)⟩

namespace Binary64

variable {x y : Binary64}

theorem fitsWidth_truncate (bits : Nat) (x : Binary64) : fitsWidth bits (x.truncate bits) = true :=
  x.datum.fitsWidth_truncate bits

theorem isZero_iff : x.isZero = true ↔ x = zero ∨ x = zero.negate := by
  constructor
  · intro h
    have hlt := x.bits.toNat_lt
    have hmod : x.bits.toNat % Nat.pow 2 63 = 0 := of_decide_eq_true h
    obtain hbits | hbits : x.bits.toNat = 0 ∨ x.bits.toNat = Nat.pow 2 63 := by
      simp only [Nat.pow_eq] at hmod ⊢
      omega
    · exact Or.inl (congrArg mk (UInt64.toNat_inj.mp hbits))
    · exact Or.inr (congrArg mk (UInt64.toNat_inj.mp hbits))
  · rintro (rfl | rfl) <;> rfl

theorem truncate_of_isZero (h : x.isZero = true) (bits : Nat) : x.truncate bits = 0 := by
  obtain ⟨negative, exponent, hdatum⟩ :
      ∃ negative exponent, x.datum = .finite negative 0 exponent := by
    obtain rfl | rfl := isZero_iff.mp h
    · exact ⟨false, -1074, by decide⟩
    · exact ⟨true, -1074, by decide⟩
  have hmin := minSigned_le_zero bits
  have hmax := zero_le_maxSigned bits
  simp [truncate, hdatum, Datum.truncate, hmin, hmax]

theorem equal_ofInt_zero (h : x.isZero = true) : x.equal (ofInt 0) = true := by
  obtain rfl | rfl := isZero_iff.mp h <;> decide

theorem eq_of_equal (h : x.equal y = true) (hx : x.isZero = false) : y = x := by
  simp only [equal, hx, Bool.false_and, Bool.or_false, Bool.and_eq_true, beq_iff_eq] at h
  obtain ⟨bits⟩ := x
  obtain ⟨bits'⟩ := y
  exact congrArg Binary64.mk h.2.symm

def unsignedZero (x : Binary64) : Binary64 := if x.isZero then zero else x

theorem unsignedZero_eq_self_iff : x.unsignedZero = x ↔ x ≠ zero.negate := by
  unfold unsignedZero
  split_ifs with h
  · obtain rfl | rfl := isZero_iff.mp h <;> decide
  · refine iff_of_true rfl fun he => h (isZero_iff.mpr (Or.inr he))

end Binary64

end RemoteCall
