import RemoteCall.Decimal.Reading
import RemoteCall.Proofs.Text.Blank

/-!
# Printed integers

An integer that is printed is read back by every reader whose bounds it is within, and no blank
stands in it.
-/

namespace RemoteCall.Decimal

variable {limit n : Nat} {overflow : IntegerFault}

theorem digit?_of_isDigit {c : Char} (hc : c.isDigit = true) :
    digit? c = some (c.toNat - '0'.toNat) := by
  refine if_pos ?_
  simpa [Char.isDigit, Char.le_def] using hc

theorem le_ofDigitChars (acc : Nat) (cs : List Char) : acc ≤ Nat.ofDigitChars 10 cs acc := by
  induction cs generalizing acc with
  | nil => exact Nat.le_refl acc
  | cons c cs ih =>
    rw [Nat.ofDigitChars_cons]
    have := ih (10 * acc + (c.toNat - '0'.toNat))
    omega

/-- A number within the limit does not pass it on the way. -/
theorem readDigits_of_le {acc : Nat} {cs : List Char} (hdigits : ∀ c ∈ cs, c.isDigit = true)
    (hle : Nat.ofDigitChars 10 cs acc ≤ limit) :
    readDigits limit overflow acc cs = .ok (Nat.ofDigitChars 10 cs acc) := by
  induction cs generalizing acc with
  | nil => rfl
  | cons c cs ih =>
    rw [List.forall_mem_cons] at hdigits
    rw [Nat.ofDigitChars_cons] at hle ⊢
    have hstep := le_ofDigitChars (10 * acc + (c.toNat - '0'.toNat)) cs
    simp only [readDigits, digit?_of_isDigit hdigits.1]
    rw [if_neg (by omega), ih hdigits.2 hle]

theorem isDigit_of_mem_repr {c : Char} (hc : c ∈ (Nat.repr n).toList) : c.isDigit = true := by
  rw [Nat.toList_repr] at hc
  exact Nat.isDigit_of_mem_toDigits (by decide) (by decide) hc

/-- A printed number begins with a digit, not with a sign. -/
theorem exists_repr_eq_cons (n : Nat) :
    ∃ c cs, (Nat.repr n).toList = c :: cs ∧ c ≠ '+' ∧ c ≠ '-' := by
  have hne : (Nat.repr n).toList ≠ [] := by simp
  obtain ⟨c, cs, hrepr⟩ := List.exists_cons_of_ne_nil hne
  have hdigit : c.isDigit = true := by
    have hmem : c ∈ (Nat.repr n).toList := by
      rw [hrepr]
      exact List.mem_cons_self ..
    exact isDigit_of_mem_repr hmem
  refine ⟨c, cs, hrepr, ?_, ?_⟩
  · rintro rfl
    cases hdigit
  · rintro rfl
    cases hdigit

theorem readNatural_repr (hn : n ≤ limit) :
    readNatural limit overflow (Nat.repr n).toList = .ok n := by
  have hvalue : Nat.ofDigitChars 10 (Nat.repr n).toList 0 = n := by
    rw [Nat.toList_repr, Nat.ofDigitChars_ten_toDigits]
  have hread : readDigits limit overflow 0 (Nat.repr n).toList = .ok n := by
    rw [readDigits_of_le (fun c hc => isDigit_of_mem_repr hc) (by rwa [hvalue]), hvalue]
  obtain ⟨c, cs, hrepr, -, -⟩ := exists_repr_eq_cons n
  rw [hrepr] at hread ⊢
  exact hread

theorem readUnsigned_repr (hn : n ≤ limit) : readUnsigned limit (Nat.repr n).toList = .ok n := by
  have hread : readNatural limit .tooLarge (Nat.repr n).toList = .ok n := readNatural_repr hn
  obtain ⟨c, cs, hrepr, hplus, -⟩ := exists_repr_eq_cons n
  rw [hrepr] at hread ⊢
  simpa [readUnsigned, hplus] using hread

theorem readSigned_repr {n : Int} (hmin : -(limit : Int) - 1 ≤ n) (hmax : n ≤ limit) :
    readSigned limit (Int.repr n).toList = .ok n := by
  cases n with
  | ofNat n =>
    have hread : readNatural limit .tooLarge (Nat.repr n).toList = .ok n :=
      readNatural_repr (Int.ofNat_le.mp hmax)
    change readSigned limit (Nat.repr n).toList = _
    obtain ⟨c, cs, hrepr, hplus, hminus⟩ := exists_repr_eq_cons n
    rw [hrepr] at hread ⊢
    simp [readSigned, hplus, hminus, hread]
  | negSucc n =>
    have hread : readNatural (limit + 1) .tooSmall (Nat.repr (n + 1)).toList = .ok (n + 1) :=
      readNatural_repr (by omega)
    change readSigned limit ("-" ++ Nat.repr (n + 1)).toList = _
    rw [String.toList_append]
    change (fun n => -Int.ofNat n) <$>
      readNatural (limit + 1) .tooSmall (Nat.repr (n + 1)).toList = _
    rw [hread]
    rfl

theorem readPort_repr (port : UInt16) : readPort (Nat.repr port.toNat) = .ok port := by
  have hlt := port.toNat_lt
  rw [readPort, readUnsigned_repr (by omega)]
  exact congrArg Except.ok (UInt16.ofNat_toNat (x := port))

theorem readInt64?_repr (n : Int64) : readInt64? (Int.repr n.toInt) = some n := by
  have hmin := n.le_toInt
  have hmax := n.toInt_lt
  have hlimit : ((maxSigned 64).toNat : Int) = 2 ^ 63 - 1 := by decide
  rw [readInt64?, readSigned_repr (by omega) (by omega)]
  exact congrArg some (Int64.ofInt_toInt n)

/-! ## Blanks -/

theorem isBlank_of_mem_repr {c : Char} (hc : c ∈ (Nat.repr n).toList) : Text.isBlank c = false :=
  Text.isBlank_eq_false_of_isDigit (isDigit_of_mem_repr hc)

theorem trim_repr (n : Nat) : Text.trim (Nat.repr n) = Nat.repr n := by
  exact Text.trim_eq_self_of_forall fun c hc => isBlank_of_mem_repr hc

theorem trim_intRepr (n : Int) : Text.trim (Int.repr n) = Int.repr n := by
  cases n with
  | ofNat n => exact trim_repr n
  | negSucc n =>
    apply Text.trim_eq_self_of_forall
    intro c hc
    change c ∈ ("-" ++ Nat.repr (n + 1)).toList at hc
    rw [String.toList_append, List.mem_append] at hc
    rcases hc with hc | hc
    · cases List.mem_singleton.mp hc
      decide
    · exact isBlank_of_mem_repr hc

end RemoteCall.Decimal
