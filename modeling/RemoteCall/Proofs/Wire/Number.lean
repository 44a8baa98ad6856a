import Mathlib.Tactic.ByContra
import RemoteCall.Proofs.Ieee.Binary
import RemoteCall.Proofs.Wire.Bytes
import RemoteCall.Wire.Number

/-!
# Reading compact numbers

An integer may be spelled in more than one way, and each of them is read as the integer. Whatever
follows it, a number is read back as it was written and nothing of the rest is touched.
-/

namespace RemoteCall.Wire

namespace Reader

/-- What is made of as many bytes as a number takes is made of the number. -/
theorem word_append {α : Type} {what : String} {width n : Nat} {ofNat : Nat → α} {a : α}
    (hn : n < 256 ^ width) (ha : ofNat n = a) (names : NameTable) (g : Registry)
    (rest : List UInt8) :
    (do return ofNat (← bigEndian what width) : Reader α)
      ⟨names, g, Wire.bigEndian width n ++ rest⟩ = .ok a ⟨names, g, rest⟩ := by
  rw [bind_of_ok (bigEndian_append ..), pure_apply, Nat.mod_eq_of_lt hn, ha]

theorem int8_append (n : Int8) (names : NameTable) (g : Registry) (rest : List UInt8) :
    int8 ⟨names, g, Wire.bigEndian 1 n.toUInt8.toNat ++ rest⟩ = .ok n ⟨names, g, rest⟩ :=
  word_append n.toUInt8.toNat_lt (by simp) names g rest

theorem int16_append (n : Int16) (names : NameTable) (g : Registry) (rest : List UInt8) :
    int16 ⟨names, g, Wire.bigEndian 2 n.toUInt16.toNat ++ rest⟩ = .ok n ⟨names, g, rest⟩ :=
  word_append n.toUInt16.toNat_lt (by simp) names g rest

theorem int32_append (n : Int32) (names : NameTable) (g : Registry) (rest : List UInt8) :
    int32 ⟨names, g, Wire.bigEndian 4 n.toUInt32.toNat ++ rest⟩ = .ok n ⟨names, g, rest⟩ :=
  word_append n.toUInt32.toNat_lt (by simp) names g rest

theorem int64_append (n : Int64) (names : NameTable) (g : Registry) (rest : List UInt8) :
    int64 ⟨names, g, Wire.bigEndian 8 n.toUInt64.toNat ++ rest⟩ = .ok n ⟨names, g, rest⟩ :=
  word_append n.toUInt64.toNat_lt (by simp) names g rest

theorem binary32_append (x : Binary32) (names : NameTable) (g : Registry) (rest : List UInt8) :
    binary32 ⟨names, g, Wire.bigEndian 4 x.bits.toNat ++ rest⟩ = .ok x ⟨names, g, rest⟩ :=
  word_append x.bits.toNat_lt (by simp [Binary32.ofPattern]) names g rest

theorem binary64_append (x : Binary64) (names : NameTable) (g : Registry) (rest : List UInt8) :
    binary64 ⟨names, g, Wire.bigEndian 8 x.bits.toNat ++ rest⟩ = .ok x ⟨names, g, rest⟩ :=
  word_append x.bits.toNat_lt (by simp [Binary64.ofPattern]) names g rest

end Reader

theorem tagged_append (t : Tag) (payload rest : List UInt8) :
    tagged t payload ++ rest = t.byte :: (payload ++ rest) := rfl

theorem toInt64_toInt8 {n : Int64} (h : fitsWidth 8 n.toInt = true) : n.toInt8.toInt64 = n := by
  obtain ⟨hmin, hmax⟩ := fitsWidth_iff.mp h
  simp only [minSigned, maxSigned, Nat.pow_eq] at hmin hmax
  rw [← Int64.toInt_inj, Int8.toInt_toInt64, Int64.toInt_toInt8]
  exact Int.bmod_eq_of_le (by omega) (by omega)

theorem toInt64_toInt16 {n : Int64} (h : fitsWidth 16 n.toInt = true) : n.toInt16.toInt64 = n := by
  obtain ⟨hmin, hmax⟩ := fitsWidth_iff.mp h
  simp only [minSigned, maxSigned, Nat.pow_eq] at hmin hmax
  rw [← Int64.toInt_inj, Int16.toInt_toInt64, Int64.toInt_toInt16]
  exact Int.bmod_eq_of_le (by omega) (by omega)

theorem toInt64_toInt32 {n : Int64} (h : fitsWidth 32 n.toInt = true) : n.toInt32.toInt64 = n := by
  obtain ⟨hmin, hmax⟩ := fitsWidth_iff.mp h
  simp only [minSigned, maxSigned, Nat.pow_eq] at hmin hmax
  rw [← Int64.toInt_inj, Int32.toInt_toInt64, Int64.toInt_toInt32]
  exact Int.bmod_eq_of_le (by omega) (by omega)

theorem toNat_toUInt64_of_nonneg {n : Int64} (h : 0 ≤ n.toInt) :
    n.toUInt64.toNat = n.toInt.toNat := by
  rw [Int64.toNat_toUInt64_of_le (Int64.le_iff_toInt_le.mpr (by simpa using h)), Int64.toNat_toInt]

theorem toInt_ofNat_of_lt {n : Nat} (h : n < 2 ^ 63) : (Int64.ofNat n).toInt = n :=
  Int64.toInt_ofNat_of_lt h

/-- A literal is a byte of its own. -/
theorem toNat_literal {n : Int64} (h : 0 ≤ n.toInt ∧ n.toInt ≤ 127) :
    n.toUInt64.toUInt8.toNat = n.toInt.toNat := by
  rw [UInt64.toNat_toUInt8, toNat_toUInt64_of_nonneg h.1]
  omega

theorem literal_le {n : Int64} (h : 0 ≤ n.toInt ∧ n.toInt ≤ 127) :
    n.toUInt64.toUInt8 ≤ Tag.maxLiteral := by
  rw [UInt8.le_iff_toNat_le, toNat_literal h]
  have : Tag.maxLiteral.toNat = 127 := rfl
  omega

theorem toNat_intLiteral {n : Int32} (h : 0 ≤ n.toInt ∧ n.toInt ≤ 127) :
    n.toUInt32.toUInt8.toNat = n.toInt.toNat := by
  rw [UInt32.toNat_toUInt8, Int32.toNat_toUInt32_of_le (Int32.le_iff_toInt_le.mpr h.1),
    ← Int32.toNat_toInt]
  omega

theorem intLiteral_le {n : Int32} (h : 0 ≤ n.toInt ∧ n.toInt ≤ 127) :
    n.toUInt32.toUInt8 ≤ Tag.maxLiteral := by
  rw [UInt8.le_iff_toNat_le, toNat_intLiteral h]
  have : Tag.maxLiteral.toNat = 127 := rfl
  omega

theorem ofNat_toNat_toInt {n : Int64} (h : 0 ≤ n.toInt) : Int64.ofNat n.toInt.toNat = n := by
  have hlt := n.toInt_lt
  rw [← Int64.toInt_inj, toInt_ofNat_of_lt (by omega), Int.toNat_of_nonneg h]

/-- The spellings of an integer: a byte of its own if it is a literal, and its bytes in every width
that holds it. -/
inductive Spells : Int64 → List UInt8 → Prop
  | literal {b : UInt8} (h : b ≤ Tag.maxLiteral) : Spells (Int64.ofNat b.toNat) [b]
  | int8 (k : Int8) : Spells k.toInt64 (int8Bytes k)
  | int16 (k : Int16) : Spells k.toInt64 (int16Bytes k)
  | int32 (k : Int32) : Spells k.toInt64 (int32Bytes k)
  | int64 (k : Int64) : Spells k (int64Bytes k)

theorem spells_numberBytes (n : Int64) : Spells n (numberBytes n) := by
  unfold numberBytes
  split_ifs with hlit h8 h16 h32
  · have h := Spells.literal (literal_le hlit)
    rwa [toNat_literal hlit, ofNat_toNat_toInt hlit.1] at h
  · have h := Spells.int8 n.toInt8
    rwa [toInt64_toInt8 h8] at h
  · have h := Spells.int16 n.toInt16
    rwa [toInt64_toInt16 h16] at h
  · have h := Spells.int32 n.toInt32
    rwa [toInt64_toInt32 h32] at h
  · exact .int64 n

namespace Reader

theorem number_literal {b : UInt8} (h : b ≤ Tag.maxLiteral) (names : NameTable) (g : Registry)
    (rest : List UInt8) :
    number ⟨names, g, b :: rest⟩ = .ok (Int64.ofNat b.toNat) ⟨names, g, rest⟩ := by
  rw [number, bind_of_ok (lead_cons ..), if_pos h, pure_apply]

theorem number_tagged (t : Tag) (names : NameTable) (g : Registry) (rest : List UInt8) :
    number ⟨names, g, t.byte :: rest⟩ = numberPayload t ⟨names, g, rest⟩ := by
  rw [number, bind_of_ok (lead_cons ..), if_neg (UInt8.not_le.mpr t.maxLiteral_lt_byte),
    bind_of_ok (tagOf_byte ..)]

/-- However it is spelled and whatever follows, a number is read as itself. -/
theorem number_spelled {n : Int64} {bs : List UInt8} (h : Spells n bs) (names : NameTable)
    (g : Registry) (rest : List UInt8) :
    number ⟨names, g, bs ++ rest⟩ = .ok n ⟨names, g, rest⟩ := by
  cases h with
  | literal h => exact number_literal h ..
  | int8 k =>
    rw [int8Bytes, tagged_append, number_tagged]
    exact bind_of_ok (int8_append ..)
  | int16 k =>
    rw [int16Bytes, tagged_append, number_tagged]
    exact bind_of_ok (int16_append ..)
  | int32 k =>
    rw [int32Bytes, tagged_append, number_tagged]
    exact bind_of_ok (int32_append ..)
  | int64 k =>
    rw [int64Bytes, tagged_append, number_tagged]
    exact int64_append ..

theorem number_append (n : Int64) (names : NameTable) (g : Registry) (rest : List UInt8) :
    number ⟨names, g, numberBytes n ++ rest⟩ = .ok n ⟨names, g, rest⟩ :=
  number_spelled (spells_numberBytes n) names g rest

theorem length_append {n : Nat} (h : n ≤ maxLength) (names : NameTable) (g : Registry)
    (rest : List UInt8) :
    length ⟨names, g, countBytes n ++ rest⟩ = .ok n ⟨names, g, rest⟩ := by
  have hn : (Int64.ofNat n).toInt = n := toInt_ofNat_of_lt (by simp [maxLength] at h; omega)
  rw [length, countBytes, bind_of_ok (number_append ..), hn, if_pos ⟨by omega, by omega⟩]
  rfl

theorem length_countBytes_ok {n k : Nat} (hn : n < 2 ^ 64) {names : NameTable} {g : Registry}
    {rest : List UInt8} {t : ReadState}
    (h : length ⟨names, g, countBytes n ++ rest⟩ = .ok k t) :
    k = n ∧ n ≤ maxLength ∧ t = ⟨names, g, rest⟩ := by
  rw [length, countBytes, bind_of_ok (number_append ..)] at h
  split_ifs at h with hc
  · obtain ⟨rfl, rfl⟩ := pure_eq_ok_iff.mp h
    have hsmall : n < 2 ^ 63 := by
      by_contra hge
      have hneg : (Int64.ofNat n).toInt = (n : Int) - 2 ^ 64 := by
        rw [Int64.toInt_ofNat', Int.bmod]
        simp
        omega
      omega
    rw [toInt_ofNat_of_lt hsmall] at hc ⊢
    exact ⟨by simp, by omega, rfl⟩
  · cases h

theorem bool_append (b : Bool) (names : NameTable) (g : Registry) (rest : List UInt8) :
    bool ⟨names, g, boolBytes b ++ rest⟩ = .ok b ⟨names, g, rest⟩ := by
  rw [boolBytes, List.singleton_append, bool, bind_of_ok (lead_cons ..), bind_of_ok (tagOf_byte ..)]
  cases b <;> rfl

theorem float_literal {b : UInt8} (h : b ≤ Tag.maxLiteral) (names : NameTable) (g : Registry)
    (rest : List UInt8) :
    float ⟨names, g, b :: rest⟩ = .ok (.ofInt b.toNat) ⟨names, g, rest⟩ := by
  rw [float, bind_of_ok (lead_cons ..), if_pos h, pure_apply]

theorem float_tagged (t : Tag) (names : NameTable) (g : Registry) (rest : List UInt8) :
    float ⟨names, g, t.byte :: rest⟩ =
      (match t with
        | .float4 => binary32 >>= fun x => pure x.toBinary64
        | .float8 => binary64
        | other => numberPayload other >>= fun n => pure (.ofInt64 n)) ⟨names, g, rest⟩ := by
  rw [float, bind_of_ok (lead_cons ..), if_neg (UInt8.not_le.mpr t.maxLiteral_lt_byte)]
  exact bind_of_ok (tagOf_byte ..)

/-- However it is spelled, an integer is read as a floating point number, too. -/
theorem float_spelled {n : Int64} {bs : List UInt8} (h : Spells n bs) (names : NameTable)
    (g : Registry) (rest : List UInt8) :
    float ⟨names, g, bs ++ rest⟩ = .ok (.ofInt64 n) ⟨names, g, rest⟩ := by
  cases h with
  | @literal b h =>
    have hmax : b.toNat ≤ 127 := UInt8.le_iff_toNat_le.mp h
    rw [List.singleton_append, float_literal h, Binary64.ofInt64, toInt_ofNat_of_lt (by omega)]
  | int8 k =>
    rw [int8Bytes, tagged_append, float_tagged]
    exact bind_of_ok (bind_of_ok (int8_append ..))
  | int16 k =>
    rw [int16Bytes, tagged_append, float_tagged]
    exact bind_of_ok (bind_of_ok (int16_append ..))
  | int32 k =>
    rw [int32Bytes, tagged_append, float_tagged]
    exact bind_of_ok (bind_of_ok (int32_append ..))
  | int64 k =>
    rw [int64Bytes, tagged_append, float_tagged]
    exact bind_of_ok (int64_append ..)

theorem float_binary32Bytes (x : Binary32) (names : NameTable) (g : Registry) (rest : List UInt8) :
    float ⟨names, g, binary32Bytes x ++ rest⟩ = .ok x.toBinary64 ⟨names, g, rest⟩ := by
  rw [binary32Bytes, tagged_append, float_tagged]
  exact bind_of_ok (binary32_append ..)

theorem float_binary64Bytes (x : Binary64) (names : NameTable) (g : Registry) (rest : List UInt8) :
    float ⟨names, g, binary64Bytes x ++ rest⟩ = .ok x ⟨names, g, rest⟩ := by
  rw [binary64Bytes, tagged_append, float_tagged]
  exact binary64_append ..

/-- A number that is not zero is the integer that is written for it. -/
theorem ofInt_truncate {bits : Nat} {x : Binary64} (hx : x.isZero = false)
    (h : isIntegerOfWidth bits x = true) : .ofInt (x.truncate bits) = x :=
  Binary64.eq_of_equal h hx

/-- Whatever follows, a floating point number is read back as it was written, but for the sign of
a zero. -/
theorem float_append (x : Binary64) (names : NameTable) (g : Registry) (rest : List UInt8) :
    float ⟨names, g, floatBytes x ++ rest⟩ = .ok x.unsignedZero ⟨names, g, rest⟩ := by
  by_cases hzero : x.isZero = true
  · -- both zeros are written as the literal
    have hbytes : floatBytes x = numberBytes 0 := by
      rw [floatBytes, isIntegerOfWidth, Binary64.truncate_of_isZero hzero,
        if_pos (Binary64.equal_ofInt_zero hzero)]
      rfl
    rw [hbytes, float_spelled (spells_numberBytes 0), Binary64.unsignedZero, if_pos hzero]
    rfl
  · rw [Bool.not_eq_true] at hzero
    have hfits8 : fitsWidth 64 (x.truncate 8) = true :=
      fitsWidth_mono (by decide) (x.fitsWidth_truncate 8)
    rw [Binary64.unsignedZero, hzero, if_neg Bool.false_ne_true, floatBytes]
    split_ifs with h8 h16 h32 hsingle
    · rw [float_spelled (spells_numberBytes _), Binary64.ofInt64, toInt_int64 hfits8,
        ofInt_truncate hzero h8]
    · rw [float_spelled (.int16 _), Binary64.ofInt64, Int16.toInt_toInt64,
        toInt_int16 (x.fitsWidth_truncate 16), ofInt_truncate hzero h16]
    · rw [float_spelled (.int32 _), Binary64.ofInt64, Int32.toInt_toInt64,
        toInt_int32 (x.fitsWidth_truncate 32), ofInt_truncate hzero h32]
    · rw [float_binary32Bytes, Binary64.eq_of_equal hsingle hzero]
    · rw [float_binary64Bytes]

end Reader

end RemoteCall.Wire
