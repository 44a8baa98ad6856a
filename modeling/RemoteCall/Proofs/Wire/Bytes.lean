import Mathlib.Tactic.Ring
import Mathlib.Tactic.SplitIfs
import RemoteCall.Wire.Reader

/-!
# Bytes and readers

A big-endian number is read back modulo the range of its width, and any bytes are such a number. A
reader runs one step after another: the lemmas on `bind` say how a sequence of steps ends, and the
others what the first steps of every reader do with bytes that stand in front of any rest.
-/

namespace RemoteCall.Wire

@[simp] theorem length_bigEndian (width n : Nat) : (bigEndian width n).length = width := by
  induction width with
  | zero => rfl
  | succ width ih => simp [bigEndian, ih]

theorem foldl_bigEndian (width n acc : Nat) :
    (bigEndian width n).foldl (fun n b => 256 * n + b.toNat) acc =
      acc * 256 ^ width + n % 256 ^ width := by
  induction width generalizing acc with
  | zero => simp [bigEndian, Nat.mod_one]
  | succ width ih =>
    have hsplit :
        n % 256 ^ (width + 1) = n / 256 ^ width % 256 * 256 ^ width + n % 256 ^ width := by
      rw [Nat.pow_succ, Nat.mod_mul, Nat.mul_comm, Nat.add_comm]
    have hbyte : (n / Nat.pow 256 width).toUInt8.toNat = n / 256 ^ width % 256 := by
      simp [Nat.toUInt8, Nat.pow_eq]
    rw [bigEndian, List.foldl_cons, ih, hbyte, hsplit]
    ring

theorem ofBigEndian_bigEndian (width n : Nat) :
    ofBigEndian (bigEndian width n) = n % 256 ^ width := by
  rw [ofBigEndian, foldl_bigEndian, Nat.zero_mul, Nat.zero_add]

theorem ofBigEndian_bigEndian_of_lt {width n : Nat} (h : n < 256 ^ width) :
    ofBigEndian (bigEndian width n) = n := by
  rw [ofBigEndian_bigEndian, Nat.mod_eq_of_lt h]

theorem bigEndian_mul_add (width a n : Nat) :
    bigEndian width (a * 256 ^ width + n) = bigEndian width n := by
  induction width generalizing a with
  | zero => rfl
  | succ width ih =>
    have hsplit : a * 256 ^ (width + 1) + n = 256 * a * 256 ^ width + n := by ring
    have hdigit : (256 * a * 256 ^ width + n) / 256 ^ width = n / 256 ^ width + 256 * a := by
      rw [Nat.add_comm, Nat.add_mul_div_right _ _ (Nat.pow_pos (by decide))]
    rw [hsplit, bigEndian, bigEndian, ih, Nat.pow_eq, hdigit]
    congr 1
    rw [← UInt8.toNat_inj]
    simp [Nat.toUInt8]

theorem exists_eq_bigEndian (bs : List UInt8) :
    ∃ n < 256 ^ bs.length, bs = bigEndian bs.length n := by
  induction bs with
  | nil => exact ⟨0, by decide, rfl⟩
  | cons b bs ih =>
    obtain ⟨n, hn, hbs⟩ := ih
    have hdigit : (b.toNat * 256 ^ bs.length + n) / 256 ^ bs.length = b.toNat := by
      rw [Nat.add_comm, Nat.add_mul_div_right _ _ (Nat.pow_pos (by decide)), Nat.div_eq_of_lt hn,
        Nat.zero_add]
    refine ⟨b.toNat * 256 ^ bs.length + n, ?_, ?_⟩
    · calc b.toNat * 256 ^ bs.length + n < (b.toNat + 1) * 256 ^ bs.length := by
            rw [Nat.succ_mul]
            omega
        _ ≤ 256 * 256 ^ bs.length := Nat.mul_le_mul_right _ b.toNat_lt
        _ = 256 ^ (b :: bs).length := by rw [List.length_cons, Nat.pow_succ, Nat.mul_comm]
    · rw [List.length_cons, bigEndian, bigEndian_mul_add, ← hbs, Nat.pow_eq, hdigit, Nat.toUInt8,
        UInt8.ofNat_toNat]

namespace Reader

variable {α β : Type}

theorem pure_apply (a : α) (s : ReadState) : (pure a : Reader α) s = .ok a s := rfl

theorem bind_of_ok {x : Reader α} {f : α → Reader β} {s t : ReadState} {a : α}
    (h : x s = .ok a t) : (x >>= f) s = f a t := by
  simp [bind, EStateM.bind, h]

theorem bind_of_error {x : Reader α} {f : α → Reader β} {s t : ReadState} {e : Failure}
    (h : x s = .error e t) : (x >>= f) s = .error e t := by
  simp [bind, EStateM.bind, h]

theorem pure_eq_ok_iff {a b : α} {s t : ReadState} :
    (pure a : Reader α) s = .ok b t ↔ a = b ∧ s = t := by
  simp [pure_apply]

theorem bind_eq_ok_iff {x : Reader α} {f : α → Reader β} {s u : ReadState} {b : β} :
    (x >>= f) s = .ok b u ↔ ∃ a t, x s = .ok a t ∧ f a t = .ok b u := by
  cases h : x s with
  | ok a t => simp [bind_of_ok h]
  | error e t => simp [bind_of_error h]

theorem get_bind (f : ReadState → Reader β) (s : ReadState) :
    ((get : Reader ReadState) >>= f) s = f s s := rfl

theorem corrupted_apply (cause : Corruption) (s : ReadState) :
    (corrupted cause : Reader α) s = .error (.streamCorrupted cause) s := rfl

theorem bytes_append (what : String) (names : NameTable) (g : Registry) (bs rest : List UInt8) :
    bytes what bs.length ⟨names, g, bs ++ rest⟩ = .ok bs ⟨names, g, rest⟩ := by
  simp [bytes]

theorem lead_cons (names : NameTable) (g : Registry) (b : UInt8) (rest : List UInt8) :
    lead ⟨names, g, b :: rest⟩ = .ok b ⟨names, g, rest⟩ := rfl

theorem bigEndian_append (what : String) (width n : Nat) (names : NameTable) (g : Registry)
    (rest : List UInt8) :
    Reader.bigEndian what width ⟨names, g, Wire.bigEndian width n ++ rest⟩ =
      .ok (n % 256 ^ width) ⟨names, g, rest⟩ := by
  have h := bytes_append what names g (Wire.bigEndian width n) rest
  rw [length_bigEndian] at h
  rw [Reader.bigEndian, bind_of_ok h, pure_apply, ofBigEndian_bigEndian]

theorem tagOf_byte (t : Tag) (s : ReadState) : tagOf t.byte s = .ok t s := by
  have h : ¬ t.byte ≤ Tag.maxLiteral := by
    have := t.maxLiteral_lt_byte
    exact UInt8.not_le.mpr this
  rw [tagOf, if_neg h, Tag.ofByte?_byte]
  rfl

theorem resolve_eq_ok_iff {signature : String} {layout : WireLayout} {s t : ReadState} :
    resolve signature s = .ok layout t ↔ (s.registry.resolve signature).1 = .ok layout ∧
      t = { s with registry := (s.registry.resolve signature).2 } := by
  unfold resolve
  rcases s.registry.resolve signature with ⟨_ | _, g⟩
  · simp
  · simp [eq_comm]

end Reader

end RemoteCall.Wire
