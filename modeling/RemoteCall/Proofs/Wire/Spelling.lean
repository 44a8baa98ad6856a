import RemoteCall.Proofs.Value.Integers
import RemoteCall.Proofs.Wire.Compact

/-!
# The shortest spelling of an integer

The bytes written for an integer stand where a number is expected and where any value may stand. As
a value they are an integer of the width they show, and that value is written as the same bytes. No
other spelling of the integer is as short.
-/

namespace RemoteCall

open Wire

def Tag.integerBytes? : Tag → Option Nat
  | .signed1 => some 1
  | .signed2 => some 2
  | .signed4 => some 4
  | .signed8 => some 8
  | _ => none

namespace Value

/-- The compact number is an integer of some width. -/
theorem exists_isInteger_compact (n : Int64) :
    ∃ type bits, (compact n).IsInteger type bits n.toInt := by
  unfold compact
  split_ifs with hlit h8 h16 h32
  · rw [← toInt32_literal hlit]
    exact ⟨_, _, .int _⟩
  · rw [← toInt64_toInt8 h8, Int8.toInt_toInt64, Int8.toInt8_toInt64]
    exact ⟨_, _, .byte _⟩
  · rw [← toInt64_toInt16 h16, Int16.toInt_toInt64, Int16.toInt16_toInt64]
    exact ⟨_, _, .short _⟩
  · rw [← toInt64_toInt32 h32, Int32.toInt_toInt64, Int32.toInt32_toInt64]
    exact ⟨_, _, .int _⟩
  · exact ⟨_, _, .long _⟩

theorem IsInteger.toInt64?_eq {v : Value} {type : DeclaredType} {bits : Nat} {n : Int}
    (h : v.IsInteger type bits n) : v.toInt64? = some (Int64.ofInt n) := by
  cases h with
  | byte k => rw [toInt64?, ← Int8.toInt_toInt64, Int64.ofInt_toInt]
  | short k => rw [toInt64?, ← Int16.toInt_toInt64, Int64.ofInt_toInt]
  | int k => rw [toInt64?, ← Int32.toInt_toInt64, Int64.ofInt_toInt]
  | long k => rw [toInt64?, Int64.ofInt_toInt]

end Value

namespace Wire

inductive IsSpelling : List UInt8 → Prop
  | literal {b : UInt8} (h : b ≤ Tag.maxLiteral) : IsSpelling [b]
  | behindTag {t : Tag} {payload : List UInt8} (h : t.integerBytes? = some payload.length) :
    IsSpelling (tagged t payload)

/-- Whatever bytes stand behind the tag, they are those of an integer. -/
theorem IsSpelling.exists_spells {bs : List UInt8} (h : IsSpelling bs) : ∃ n, Spells n bs := by
  cases h with
  | literal h => exact ⟨_, .literal h⟩
  | @behindTag t payload h =>
    obtain ⟨m, hm, hpayload⟩ := exists_eq_bigEndian payload
    generalize payload.length = width at h hm hpayload
    subst hpayload
    cases t with
    | signed1 =>
      cases h
      have hspells := Spells.int8 m.toUInt8.toInt8
      rw [int8Bytes, UInt8.toUInt8_toInt8, Nat.toUInt8, UInt8.toNat_ofNat_of_lt' hm] at hspells
      exact ⟨_, hspells⟩
    | signed2 =>
      cases h
      have hspells := Spells.int16 m.toUInt16.toInt16
      rw [int16Bytes, UInt16.toUInt16_toInt16, Nat.toUInt16, UInt16.toNat_ofNat_of_lt' hm] at hspells
      exact ⟨_, hspells⟩
    | signed4 =>
      cases h
      have hspells := Spells.int32 m.toUInt32.toInt32
      rw [int32Bytes, UInt32.toUInt32_toInt32, Nat.toUInt32, UInt32.toNat_ofNat_of_lt' hm] at hspells
      exact ⟨_, hspells⟩
    | signed8 =>
      cases h
      have hspells := Spells.int64 m.toUInt64.toInt64
      rw [int64Bytes, UInt64.toUInt64_toInt64, Nat.toUInt64, UInt64.toNat_ofNat_of_lt' hm] at hspells
      exact ⟨_, hspells⟩
    | _ => cases h

theorem numberBytes_literal {b : UInt8} (h : b ≤ Tag.maxLiteral) :
    numberBytes (Int64.ofNat b.toNat) = [b] := by
  have hmax : b.toNat ≤ 127 := UInt8.le_iff_toNat_le.mp h
  have hint : (Int64.ofNat b.toNat).toInt = b.toNat := toInt_ofNat_of_lt (by omega)
  have hlit : 0 ≤ (Int64.ofNat b.toNat).toInt ∧ (Int64.ofNat b.toNat).toInt ≤ 127 := by omega
  have hbyte : (Int64.ofNat b.toNat).toUInt64.toUInt8 = b := by
    rw [← UInt8.toNat_inj, toNat_literal hlit, hint, Int.toNat_natCast]
  rw [numberBytes, if_pos hlit, hbyte]

/-- What is written is the first spelling that holds the number, and each is longer than the one
before it. -/
theorem Spells.eq_or_length_lt {n : Int64} {bs : List UInt8} (h : Spells n bs) :
    bs = numberBytes n ∨ (numberBytes n).length < bs.length := by
  cases h with
  | literal h => exact .inl (numberBytes_literal h).symm
  | int8 k =>
    have hfits := fitsWidth_int8 k
    rw [← Int8.toInt_toInt64] at hfits
    unfold numberBytes
    split_ifs
    · exact .inr (by decide : 1 < 2)
    · rw [Int8.toInt8_toInt64]
      exact .inl rfl
  | int16 k =>
    have hfits := fitsWidth_int16 k
    rw [← Int16.toInt_toInt64] at hfits
    unfold numberBytes
    split_ifs
    · exact .inr (by decide : 1 < 3)
    · exact .inr (by decide : 2 < 3)
    · rw [Int16.toInt16_toInt64]
      exact .inl rfl
  | int32 k =>
    have hfits := fitsWidth_int32 k
    rw [← Int32.toInt_toInt64] at hfits
    unfold numberBytes
    split_ifs
    · exact .inr (by decide : 1 < 5)
    · exact .inr (by decide : 2 < 5)
    · exact .inr (by decide : 3 < 5)
    · rw [Int32.toInt32_toInt64]
      exact .inl rfl
  | int64 =>
    unfold numberBytes
    split_ifs
    · exact .inr (by decide : 1 < 9)
    · exact .inr (by decide : 2 < 9)
    · exact .inr (by decide : 3 < 9)
    · exact .inr (by decide : 5 < 9)
    · exact .inl rfl

/-- Whatever follows, the bytes of a number are read as the number and, by a decoder that has a level
of nesting left, as an integer value that stands for it and is written as the same bytes. Every
other spelling is longer. The tags of characters do not count as integers: behind them some numbers
would take fewer bytes. -/
theorem compact_number_everywhere (n : Int64) (e : Encoder) (d : Decoder) (g : Registry)
    (rest : List UInt8) :
    let sent := e.write (.number n)
    sent.failure? = none ∧ sent.encoder = e ∧
      d.read g (fun _ => Reader.number) (sent.bytes ++ rest) = ⟨.ok (n, rest), d, g⟩ ∧
      (0 < d.budget → ∃ v : Value,
        d.read g Reader.value (sent.bytes ++ rest) = ⟨.ok (v, rest), d, g⟩ ∧
        (∃ type bits, v.IsInteger type bits n.toInt) ∧ v.toInt64? = some n ∧
        ∀ (other : Encoder) (known : Registry),
          other.write (valueWriter known v) = ⟨sent.bytes, none, other⟩) ∧
      ∀ bs : List UInt8, IsSpelling bs → ∀ left : List UInt8,
        (d.read g (fun _ => Reader.number) (bs ++ rest)).result = .ok (n, left) →
        bs = sent.bytes ∨ sent.bytes.length < bs.length := by
  intro sent
  refine ⟨rfl, rfl, ?_, ?_, ?_⟩
  · have hread := Reader.number_append n d.names g rest
    exact Decoder.read_of_ok (r := fun _ => Reader.number) hread
  · intro hbudget
    obtain ⟨levels, hlevels⟩ := Nat.exists_eq_succ_of_ne_zero hbudget.ne'
    have hbytes := fixedBytes?_compact n
    have hread := Reader.value_fixedBytes? hbytes levels d.names g rest
    rw [← Nat.succ_eq_add_one, ← hlevels] at hread
    obtain ⟨type, bits, hinteger⟩ := Value.exists_isInteger_compact n
    refine ⟨.compact n, Decoder.read_of_ok hread, ⟨type, bits, hinteger⟩, ?_, ?_⟩
    · rw [hinteger.toInt64?_eq, Int64.ofInt_toInt]
    · intro other known
      rw [valueWriter_of_fixedBytes? hbytes known]
      rfl
  · intro bs hbs left hresult
    obtain ⟨m, hspells⟩ := hbs.exists_spells
    obtain ⟨s, hread, -⟩ := Decoder.result_read_eq_ok_iff.mp hresult
    rw [Reader.number_spelled hspells] at hread
    cases hread
    exact hspells.eq_or_length_lt

/-- The first number that needs two bytes, at the deepest level, and spelled in four bytes. -/
theorem compact_number_everywhere_two_bytes :
    let d : Decoder := ⟨.empty, 255⟩
    let sent := Encoder.new.write (.number 128)
    let wide := tagged .signed4 [0, 0, 0, 128]
    (∃ v : Value, d.read .initial Reader.value (sent.bytes ++ [7]) = ⟨.ok (v, [7]), d, .initial⟩ ∧
      v.toInt64? = some 128) ∧
    (d.read .initial (fun _ => Reader.number) (wide ++ [7])).result = .ok (128, [7]) ∧
    (wide = sent.bytes ∨ sent.bytes.length < wide.length) := by
  intro d sent wide
  obtain ⟨-, -, -, hvalue, hshortest⟩ := compact_number_everywhere 128 .new d .initial [7]
  obtain ⟨v, hread, -, hnumber, -⟩ := hvalue (by decide)
  have hwide : (d.read .initial (fun _ => Reader.number) (wide ++ [7])).result =
      .ok (128, [7]) := rfl
  exact ⟨⟨v, hread, hnumber⟩, hwide, hshortest wide (.behindTag rfl) [7] hwide⟩

end Wire

end RemoteCall
