import RemoteCall.Proofs.Wire.RoundTrip
import RemoteCall.Proofs.Wire.Items

/-!
# Fields as values

A primitive field of a registered type is written without a tag of its kind, in the fewest bytes.
These bytes are those of a value: whoever does not know the field reads that value, and writes the
same bytes for it.
-/

namespace RemoteCall

open Wire

namespace Value

def compact (n : Int64) : Value :=
  if 0 ≤ n.toInt ∧ n.toInt ≤ 127 then .int n.toInt32
  else if fitsWidth 8 n.toInt then .byte n.toInt8
  else if fitsWidth 16 n.toInt then .short n.toInt16
  else if fitsWidth 32 n.toInt then .int n.toInt32
  else .long n

def compactFloat (x : Binary64) : Value :=
  if isIntegerOfWidth 8 x then compact (Int64.ofInt (x.truncate 8))
  else if isIntegerOfWidth 16 x then .short (Int16.ofInt (x.truncate 16))
  else if isIntegerOfWidth 32 x then .int (Int32.ofInt (x.truncate 32))
  else if x.equal x.toBinary32.toBinary64 then .float x.toBinary32
  else .double x

section Fixed

variable {v : Value} {bytes : List UInt8} (h : v.fixedBytes? = some bytes)
include h

theorem children_of_fixedBytes? : v.children = [] := by cases v <;> first | rfl | cases h

theorem wireDepth_of_fixedBytes? : v.wireDepth = 1 := by cases v <;> first | rfl | cases h

theorem allFit_of_fixedBytes? (g : Registry) : v.AllFit g := by
  refine .leaf (children_of_fixedBytes? h) ?_
  cases v with
  | char c =>
    simp only [fixedBytes?] at h
    split_ifs at h with hc
    exact hc
  | null | bool | byte | short | int | long | float | double => trivial
  | _ => cases h

theorem everyRecord_of_fixedBytes? (p : Record → Prop) : v.EveryRecord p :=
  .leaf (children_of_fixedBytes? h) (by cases v <;> first | rfl | cases h)

end Fixed

end Value

namespace Wire

theorem minSigned_maxSigned :
    minSigned 8 = -128 ∧ maxSigned 8 = 127 ∧ minSigned 16 = -32768 ∧ maxSigned 16 = 32767 ∧
      minSigned 32 = -2147483648 ∧ maxSigned 32 = 2147483647 := by decide

/-- A number whose integer part is a literal has that integer part in eight bits already. -/
theorem truncate_eight {x : Ieee.Datum} (h : 0 ≤ x.truncate 32 ∧ x.truncate 32 ≤ 127) :
    x.truncate 8 = x.truncate 32 := by
  obtain ⟨hmin8, hmax8, -, -, hmin32, hmax32⟩ := minSigned_maxSigned
  cases x with
  | nan => rfl
  | infinite negative =>
    cases negative <;>
      simp only [Ieee.Datum.truncate, hmin32, hmax32, Bool.false_eq_true, if_false,
        if_true] at h <;>
      omega
  | finite negative significand exponent =>
    simp only [Ieee.Datum.truncate, hmin8, hmax8, hmin32, hmax32] at h ⊢
    omega

theorem toInt32_literal {n : Int64} (h : 0 ≤ n.toInt ∧ n.toInt ≤ 127) :
    n.toInt32.toInt = n.toInt := by
  rw [Int64.toInt_toInt32]
  exact Int.bmod_eq_of_le (by omega) (by omega)

theorem fixedBytes?_compact (n : Int64) :
    (Value.compact n).fixedBytes? = some (numberBytes n) := by
  unfold Value.compact numberBytes
  split_ifs with hlit h8 h16 h32
  · have hint := toInt32_literal hlit
    have hbyte : n.toInt32.toUInt32.toUInt8 = n.toUInt64.toUInt8 := by
      rw [← UInt8.toNat_inj, toNat_intLiteral (by rw [hint]; exact hlit), toNat_literal hlit, hint]
    rw [Value.fixedBytes?, intBytes, if_pos (by rw [hint]; exact hlit), hbyte]
  · rfl
  · rfl
  · have hint : n.toInt32.toInt = n.toInt := by
      rw [← Int32.toInt_toInt64, toInt64_toInt32 h32]
    rw [Value.fixedBytes?, intBytes, if_neg (by rw [hint]; exact hlit)]
  · rfl

theorem fixedBytes?_compactFloat (x : Binary64) :
    (Value.compactFloat x).fixedBytes? = some (floatBytes x) := by
  unfold Value.compactFloat floatBytes
  split_ifs with h8 h16 h32 hsingle
  · exact fixedBytes?_compact _
  · rfl
  · have hlit : ¬ (0 ≤ (Int32.ofInt (x.truncate 32)).toInt ∧
        (Int32.ofInt (x.truncate 32)).toInt ≤ 127) := by
      rw [toInt_int32 (x.fitsWidth_truncate 32)]
      intro hlit
      have hwidth : x.truncate 8 = x.truncate 32 := truncate_eight hlit
      rw [isIntegerOfWidth, hwidth] at h8
      exact h8 h32
    rw [Value.fixedBytes?, intBytes, if_neg hlit]
  · rfl
  · rfl

end Wire

def Field.untyped (f : Field) (r : Record) : Except Failure Value :=
  match f.kind with
  | .bool => (f.getBool r).map .bool
  | .float | .double => (f.getFloat r).map .compactFloat
  | .object => .ok (f.get r)
  | .byte | .short | .char | .int | .long => (f.getInt r).map .compact

theorem Field.untyped_object {f : Field} (h : f.kind = .object) (r : Record) :
    f.untyped r = .ok (f.get r) := by
  rw [untyped, h]

theorem Value.exists_fixedBytes?_of_map {α : Type} {make : α → Value}
    (hmake : ∀ a, ∃ bytes, (make a).fixedBytes? = some bytes) {result : Except Failure α}
    {v : Value} (h : result.map make = .ok v) : ∃ bytes, v.fixedBytes? = some bytes := by
  cases result with
  | ok a =>
    cases h
    exact hmake a
  | error e => cases h

/-- Of a primitive field it is a boolean or a number. -/
theorem Field.exists_fixedBytes? {f : Field} {r : Record} {v : Value} (hf : f.kind ≠ .object)
    (h : f.untyped r = .ok v) : ∃ bytes, v.fixedBytes? = some bytes := by
  have hfloat : ∀ x, ∃ bytes, (Value.compactFloat x).fixedBytes? = some bytes :=
    fun x => ⟨_, fixedBytes?_compactFloat x⟩
  unfold untyped at h
  split at h
  · exact Value.exists_fixedBytes?_of_map (fun _ => ⟨_, rfl⟩) h
  · exact Value.exists_fixedBytes?_of_map hfloat h
  · exact Value.exists_fixedBytes?_of_map hfloat h
  · exact absurd ‹f.kind = .object› hf
  all_goals exact Value.exists_fixedBytes?_of_map (fun n => ⟨_, fixedBytes?_compact n⟩) h

namespace Wire

variable {g : Registry}

/-- A field is written as the value in its place, or not at all if there is none. -/
theorem fieldWriter_eq (r : Record) (f : Field) :
    fieldWriter r ⟨r.typeName, namedWriters g r.fields⟩ f =
      match f.untyped r with
      | .ok v => valueWriter g v
      | .error e => .fail e := by
  cases hkind : f.kind with
  | object => simp only [fieldWriter, Field.untyped, hkind, getD_slot?_namedWriters]
  | bool =>
    simp only [fieldWriter, Field.untyped, hkind]
    cases f.getBool r <;> rfl
  | float | double =>
    simp only [fieldWriter, Field.untyped, hkind]
    cases f.getFloat r with
    | ok x => exact (valueWriter_of_fixedBytes? (fixedBytes?_compactFloat x) g).symm
    | error e => rfl
  | byte | short | char | int | long =>
    simp only [fieldWriter, Field.untyped, hkind]
    cases f.getInt r with
    | ok n => exact (valueWriter_of_fixedBytes? (fixedBytes?_compact n) g).symm
    | error e => rfl

theorem fieldWriter_of_ok {r : Record} {f : Field} {v : Value} (h : f.untyped r = .ok v) :
    fieldWriter r ⟨r.typeName, namedWriters g r.fields⟩ f = valueWriter g v := by
  rw [fieldWriter_eq, h]

theorem fieldWriter_of_error {r : Record} {f : Field} {e : Failure} (h : f.untyped r = .error e) :
    fieldWriter r ⟨r.typeName, namedWriters g r.fields⟩ f = .fail e := by
  rw [fieldWriter_eq, h]

end Wire

end RemoteCall
