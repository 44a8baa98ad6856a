import Mathlib.Algebra.Order.Group.Int
import Mathlib.Tactic.Common
import RemoteCall.Width

/-!
# Integers that fit a width

The integers of a type are those that fit its width, and they are stored in it as they are.
-/

namespace RemoteCall

variable {bits wider : Nat} {n : Int}

theorem fitsWidth_iff : fitsWidth bits n = true ↔ minSigned bits ≤ n ∧ n ≤ maxSigned bits := by
  simp [fitsWidth]

theorem minSigned_le_zero (bits : Nat) : minSigned bits ≤ 0 := by
  unfold minSigned
  omega

theorem zero_le_maxSigned (bits : Nat) : 0 ≤ maxSigned bits := by
  have hpos : 0 < Nat.pow 2 (bits - 1) := Nat.two_pow_pos _
  unfold maxSigned
  omega

theorem fitsWidth_mono (hle : bits ≤ wider) (h : fitsWidth bits n = true) :
    fitsWidth wider n = true := by
  obtain ⟨hmin, hmax⟩ := fitsWidth_iff.mp h
  have hpow : Nat.pow 2 (bits - 1) ≤ Nat.pow 2 (wider - 1) :=
    Nat.pow_le_pow_right (by decide) (by omega)
  rw [fitsWidth_iff]
  simp only [minSigned, maxSigned] at hmin hmax ⊢
  omega

theorem bmod_of_fitsWidth (hpos : 0 < bits) (h : fitsWidth bits n = true) :
    n.bmod (Nat.pow 2 bits) = n := by
  obtain ⟨hmin, hmax⟩ := fitsWidth_iff.mp h
  simp only [minSigned, maxSigned] at hmin hmax
  have htwice : Nat.pow 2 bits = Nat.pow 2 (bits - 1) * 2 := by
    rw [Nat.pow_eq, Nat.pow_eq, ← Nat.pow_succ, Nat.succ_eq_add_one, Nat.sub_add_cancel hpos]
  rw [htwice]
  apply Int.bmod_eq_of_le
  · omega
  · omega

/-! ## Machine integers -/

theorem fitsWidth_int8 (k : Int8) : fitsWidth 8 k.toInt = true :=
  fitsWidth_iff.mpr ⟨k.le_toInt, Int.le_sub_one_of_lt k.toInt_lt⟩

theorem fitsWidth_int16 (k : Int16) : fitsWidth 16 k.toInt = true :=
  fitsWidth_iff.mpr ⟨k.le_toInt, Int.le_sub_one_of_lt k.toInt_lt⟩

theorem fitsWidth_int32 (k : Int32) : fitsWidth 32 k.toInt = true :=
  fitsWidth_iff.mpr ⟨k.le_toInt, Int.le_sub_one_of_lt k.toInt_lt⟩

theorem fitsWidth_int64 (k : Int64) : fitsWidth 64 k.toInt = true :=
  fitsWidth_iff.mpr ⟨k.le_toInt, Int.le_sub_one_of_lt k.toInt_lt⟩

theorem toInt_int16 (h : fitsWidth 16 n = true) : (Int16.ofInt n).toInt = n := by
  rw [Int16.toInt_ofInt]
  exact bmod_of_fitsWidth (by decide) h

theorem toInt_int32 (h : fitsWidth 32 n = true) : (Int32.ofInt n).toInt = n := by
  rw [Int32.toInt_ofInt]
  exact bmod_of_fitsWidth (by decide) h

theorem toInt_int64 (h : fitsWidth 64 n = true) : (Int64.ofInt n).toInt = n := by
  rw [Int64.toInt_ofInt]
  exact bmod_of_fitsWidth (by decide) h

end RemoteCall
