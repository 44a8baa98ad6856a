import RemoteCall.Proofs.Text.Utf16
import RemoteCall.Proofs.Wire.Number
import RemoteCall.Wire.Reader

/-!
# Reading strings

The marks in the byte block of a string count the units behind it, and putting these in place of
the marks gives the units of the string.
-/

namespace RemoteCall.Wire

open Text.Utf16

theorem isWide_iff {u : UInt16} : isWide u = true ↔ 0xFF ≤ u.toNat := by
  simp [isWide, wideMark, UInt16.le_iff_toNat_le]

theorem unitByte_wide {u : UInt16} (h : isWide u = true) : unitByte u = wideMark := if_pos h

theorem toNat_unitByte {u : UInt16} (h : ¬ isWide u = true) : (unitByte u).toNat = u.toNat := by
  have hlt : u.toNat < 0xFF := by
    rw [isWide_iff] at h
    omega
  rw [unitByte, if_neg h, UInt16.toNat_toUInt8]
  omega

theorem unitByte_ne_wideMark {u : UInt16} (h : ¬ isWide u = true) : unitByte u ≠ wideMark := by
  intro he
  have hbyte := toNat_unitByte h
  rw [he] at hbyte
  exact h (isWide_iff.mpr hbyte.le)

theorem length_unitBlock (us : List UInt16) : (unitBlock us).length = us.length :=
  List.length_map _

theorem unitBlock_cons (u : UInt16) (us : List UInt16) :
    unitBlock (u :: us) = unitByte u :: unitBlock us := rfl

theorem wideBlock_cons_wide {u : UInt16} (h : isWide u = true) (us : List UInt16) :
    wideBlock (u :: us) = bigEndian 2 u.toNat ++ wideBlock us := by
  simp [wideBlock, h]

theorem wideBlock_cons_narrow {u : UInt16} (h : ¬ isWide u = true) (us : List UInt16) :
    wideBlock (u :: us) = wideBlock us := by
  simp [wideBlock, h]

/-- The marks in the block count the units behind it. -/
theorem length_wideBlock (us : List UInt16) :
    (wideBlock us).length = 2 * (unitBlock us).count wideMark := by
  induction us with
  | nil => rfl
  | cons u us ih =>
    by_cases h : isWide u = true
    · rw [wideBlock_cons_wide h, unitBlock_cons, unitByte_wide h, List.count_cons_self,
        List.length_append, ih, length_bigEndian]
      omega
    · rw [wideBlock_cons_narrow h, unitBlock_cons, List.count_cons_of_ne (unitByte_ne_wideMark h),
        ih]

theorem mergeBlocks_mark (bs : List UInt8) (high low : UInt8) (wide : List UInt8) :
    mergeBlocks (wideMark :: bs) (high :: low :: wide) =
      (ofBigEndian [high, low]).toUInt16 :: mergeBlocks bs wide := by
  simp [mergeBlocks]

theorem mergeBlocks_of_ne {b : UInt8} (h : b ≠ wideMark) (bs wide : List UInt8) :
    mergeBlocks (b :: bs) wide = b.toUInt16 :: mergeBlocks bs wide := by
  rw [mergeBlocks.eq_def]
  simp [h]

theorem mergeBlocks_blocks (us : List UInt16) :
    mergeBlocks (unitBlock us) (wideBlock us) = us := by
  induction us with
  | nil => rfl
  | cons u us ih =>
    by_cases h : isWide u = true
    · have hu : ofBigEndian (bigEndian 2 u.toNat) = u.toNat :=
        ofBigEndian_bigEndian_of_lt u.toNat_lt
      rw [wideBlock_cons_wide h, unitBlock_cons, unitByte_wide h]
      simp only [bigEndian, List.cons_append, List.nil_append] at hu ⊢
      rw [mergeBlocks_mark, hu, ih, Nat.toUInt16, UInt16.ofNat_toNat]
    · have hu : (unitByte u).toUInt16 = u := by
        rw [← UInt16.toNat_inj, UInt8.toNat_toUInt16, toNat_unitByte h]
      rw [wideBlock_cons_narrow h, unitBlock_cons, mergeBlocks_of_ne (unitByte_ne_wideMark h), hu,
        ih]

theorem chars?_stringUnits (s : String) : chars? (stringUnits s) = some s.toList :=
  chars?_units s.toList

theorem length_mergeBlocks_le (block wide : List UInt8) :
    (mergeBlocks block wide).length ≤ block.length := by
  induction block generalizing wide with
  | nil => exact Nat.zero_le _
  | cons b block ih =>
    by_cases hb : b = wideMark
    · subst hb
      rcases wide with _ | ⟨high, _ | ⟨low, wide⟩⟩
      · simp [mergeBlocks]
      · simp [mergeBlocks]
      · rw [mergeBlocks_mark]
        exact Nat.succ_le_succ (ih wide)
    · rw [mergeBlocks_of_ne hb]
      exact Nat.succ_le_succ (ih wide)

namespace Reader

theorem bytes_append_of_length {bs : List UInt8} {n : Nat} (h : bs.length = n) (what : String)
    (names : NameTable) (g : Registry) (rest : List UInt8) :
    bytes what n ⟨names, g, bs ++ rest⟩ = .ok bs ⟨names, g, rest⟩ := by
  subst h
  exact bytes_append what names g bs rest

/-- Behind the length of the block a reader takes both blocks and puts the units together. -/
theorem stringBody_blocks {s : ReadState} {names : NameTable} {g : Registry}
    {block wide rest : List UInt8}
    (hlength : length s = .ok block.length ⟨names, g, block ++ (wide ++ rest)⟩)
    (hwide : wide.length = 2 * block.count wideMark) :
    Reader.stringBody s =
      match chars? (mergeBlocks block wide) with
      | some cs => .ok (String.ofList cs) ⟨names, g, rest⟩
      | none => .error (.streamCorrupted .unpairedSurrogate) ⟨names, g, rest⟩ := by
  rw [Reader.stringBody, bind_of_ok hlength, bind_of_ok (bytes_append ..),
    bind_of_ok (bytes_append_of_length hwide ..)]
  cases chars? (mergeBlocks block wide) <;> rfl

theorem stringBody_append {s : String} (h : (stringUnits s).length ≤ maxLength)
    (names : NameTable) (g : Registry) (rest : List UInt8) :
    Reader.stringBody ⟨names, g, Wire.stringBody s ++ rest⟩ = .ok s ⟨names, g, rest⟩ := by
  have hlength := length_append h names g
    (unitBlock (stringUnits s) ++ (wideBlock (stringUnits s) ++ rest))
  rw [← length_unitBlock] at hlength
  rw [Wire.stringBody, List.append_assoc, List.append_assoc, ← length_unitBlock,
    stringBody_blocks hlength (length_wideBlock _), mergeBlocks_blocks, chars?_stringUnits]
  simp only [String.ofList_toList]

/-- A string that can be read is no longer than a reader accepts. -/
theorem length_le_of_stringBody {s a : String} (hs : (stringUnits s).length < 2 ^ 64)
    {names : NameTable} {g : Registry} {rest : List UInt8} {t : ReadState}
    (h : Reader.stringBody ⟨names, g, Wire.stringBody s ++ rest⟩ = .ok a t) :
    (stringUnits s).length ≤ maxLength := by
  rw [Wire.stringBody, List.append_assoc, Reader.stringBody, bind_eq_ok_iff] at h
  obtain ⟨n, u, hn, -⟩ := h
  exact (length_countBytes_ok hs hn).2.1

/-- A string that can be read is the one that was written. -/
theorem stringBody_ok {s a : String} (hs : (stringUnits s).length < 2 ^ 64) {names : NameTable}
    {g : Registry} {rest : List UInt8} {t : ReadState}
    (h : Reader.stringBody ⟨names, g, Wire.stringBody s ++ rest⟩ = .ok a t) :
    a = s ∧ t = ⟨names, g, rest⟩ := by
  rw [stringBody_append (length_le_of_stringBody hs h)] at h
  cases h
  exact ⟨rfl, rfl⟩

theorem bytes_ok {what : String} {n : Nat} {s t : ReadState} {bs : List UInt8}
    (h : bytes what n s = .ok bs t) :
    bs.length = n ∧ s.input = bs ++ t.input ∧ t = { s with input := t.input } := by
  unfold bytes at h
  dsimp only at h
  split_ifs at h with hlt
  cases h
  rw [List.length_take, Nat.not_lt] at hlt
  exact ⟨by rw [List.length_take]; omega, (List.take_append_drop n s.input).symm, rfl⟩

theorem length_ok {s t : ReadState} {n : Nat} (h : length s = .ok n t) : n ≤ maxLength := by
  obtain ⟨m, u, -, h⟩ := bind_eq_ok_iff.mp h
  split_ifs at h with hm
  · cases h
    omega
  · cases h

/-- A string that was read is one that a reader accepts. -/
theorem length_stringUnits_of_stringBody {s t : ReadState} {x : String}
    (h : Reader.stringBody s = .ok x t) : (stringUnits x).length ≤ maxLength := by
  obtain ⟨n, u, hn, h⟩ := bind_eq_ok_iff.mp h
  obtain ⟨block, u', hblock, h⟩ := bind_eq_ok_iff.mp h
  obtain ⟨wide, u'', -, h⟩ := bind_eq_ok_iff.mp h
  cases hchars : chars? (mergeBlocks block wide) with
  | none =>
    rw [hchars] at h
    cases h
  | some cs =>
    rw [hchars] at h
    cases h
    have hlen := length_mergeBlocks_le block wide
    rw [(bytes_ok hblock).1] at hlen
    rw [stringUnits, String.toList_ofList, units_of_chars? hchars]
    exact hlen.trans (length_ok hn)

theorem byteData_append {data : List UInt8} (h : data.length ≤ maxLength) (names : NameTable)
    (g : Registry) (rest : List UInt8) :
    byteData ⟨names, g, countBytes data.length ++ (data ++ rest)⟩ = .ok data ⟨names, g, rest⟩ := by
  rw [byteData, bind_of_ok (length_append h ..), bytes_append]

theorem length_le_of_byteData {data a : List UInt8} (hd : data.length < 2 ^ 64)
    {names : NameTable} {g : Registry} {rest : List UInt8} {t : ReadState}
    (h : byteData ⟨names, g, countBytes data.length ++ (data ++ rest)⟩ = .ok a t) :
    data.length ≤ maxLength := by
  rw [byteData, bind_eq_ok_iff] at h
  obtain ⟨n, u, hn, -⟩ := h
  exact (length_countBytes_ok hd hn).2.1

theorem byteData_ok {data a : List UInt8} (hd : data.length < 2 ^ 64) {names : NameTable}
    {g : Registry} {rest : List UInt8} {t : ReadState}
    (h : byteData ⟨names, g, countBytes data.length ++ (data ++ rest)⟩ = .ok a t) :
    a = data ∧ t = ⟨names, g, rest⟩ := by
  rw [byteData_append (length_le_of_byteData hd h)] at h
  cases h
  exact ⟨rfl, rfl⟩

end Reader

end RemoteCall.Wire
