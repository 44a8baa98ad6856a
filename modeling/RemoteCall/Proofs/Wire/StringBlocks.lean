import RemoteCall.Proofs.Wire.RoundTrip
import RemoteCall.Proofs.Wire.StringBody

/-!
# Strings in two blocks

The bytes of a string are a block with a byte for each unit and, behind it, the units that take two
bytes. Every string is read back from its own bytes, whatever follows them. Any other bytes of this
form hold units, too: each mark in the block stands for the pair of bytes behind the block that is
reached when every mark before it has taken one. They are read exactly if these units are a text.
-/

namespace RemoteCall.Wire

open Text.Utf16

def heldUnits (block wide : List UInt8) : List UInt16 :=
  block.mapIdx fun i b =>
    if b = wideMark then
      (ofBigEndian ((wide.drop (2 * (block.take i).count wideMark)).take 2)).toUInt16
    else b.toUInt16

theorem heldUnits_mark (block : List UInt8) (high low : UInt8) (wide : List UInt8) :
    heldUnits (wideMark :: block) (high :: low :: wide) =
      (ofBigEndian [high, low]).toUInt16 :: heldUnits block wide := by
  simp [heldUnits, List.mapIdx_cons, Nat.mul_add]

theorem heldUnits_of_ne {b : UInt8} (h : b ≠ wideMark) (block wide : List UInt8) :
    heldUnits (b :: block) wide = b.toUInt16 :: heldUnits block wide := by
  simp [heldUnits, List.mapIdx_cons, h]

/-- Going through both blocks at once finds at each mark its own pair. -/
theorem mergeBlocks_eq_heldUnits {block wide : List UInt8}
    (h : wide.length = 2 * block.count wideMark) :
    mergeBlocks block wide = heldUnits block wide := by
  induction block generalizing wide with
  | nil => rfl
  | cons b block ih =>
    by_cases hb : b = wideMark
    · subst hb
      rw [List.count_cons_self] at h
      rcases wide with _ | ⟨high, _ | ⟨low, wide⟩⟩
      · simp at h
      · simp only [List.length_singleton] at h
        omega
      · have hrest : wide.length = 2 * block.count wideMark := by
          simp only [List.length_cons] at h
          omega
        rw [mergeBlocks_mark, heldUnits_mark, ih hrest]
    · rw [List.count_cons_of_ne hb] at h
      rw [mergeBlocks_of_ne hb, heldUnits_of_ne hb, ih h]

theorem count_unitBlock (us : List UInt16) :
    (unitBlock us).count wideMark = us.countP fun u => 0xFF ≤ u := by
  rw [unitBlock, List.count, List.countP_map]
  apply List.countP_congr
  intro u _
  rw [Function.comp_apply, beq_iff_eq]
  by_cases h : isWide u = true
  · exact iff_of_true (unitByte_wide h) h
  · exact iff_of_false (unitByte_ne_wideMark h) h

theorem heldUnits_blocks (us : List UInt16) : heldUnits (unitBlock us) (wideBlock us) = us := by
  rw [← mergeBlocks_eq_heldUnits (length_wideBlock us), mergeBlocks_blocks]

/-- Behind a length, what is read is the string whose units the blocks hold, if there is one. -/
theorem Reader.stringBody_eq_ok_iff {s t : ReadState} {names : NameTable} {g : Registry}
    {block wide rest : List UInt8} {x : String}
    (hlength : Reader.length s = .ok block.length ⟨names, g, block ++ (wide ++ rest)⟩)
    (hwide : wide.length = 2 * block.count wideMark) :
    Reader.stringBody s = .ok x t ↔
      stringUnits x = heldUnits block wide ∧ t = ⟨names, g, rest⟩ := by
  rw [stringBody_blocks hlength hwide, mergeBlocks_eq_heldUnits hwide]
  constructor
  · intro h
    cases hchars : chars? (heldUnits block wide) with
    | none =>
      rw [hchars] at h
      cases h
    | some cs =>
      rw [hchars] at h
      cases h
      rw [stringUnits, String.toList_ofList, units_of_chars? hchars]
      exact ⟨rfl, rfl⟩
  · rintro ⟨hunits, rfl⟩
    rw [← hunits, chars?_stringUnits]
    simp only [String.ofList_toList]

theorem Decoder.read_stringBody_eq_ok_iff {d : Decoder} {g : Registry}
    {input block wide left rest : List UInt8} {x : String}
    (hlength : (d.read g (fun _ => Reader.length) input).result =
      .ok (block.length, block ++ (wide ++ left)))
    (hwide : wide.length = 2 * block.count wideMark) :
    (d.read g (fun _ => Reader.stringBody) input).result = .ok (x, rest) ↔
      stringUnits x = heldUnits block wide ∧ rest = left := by
  obtain ⟨⟨names, known, input'⟩, hread, rfl⟩ := result_read_eq_ok_iff.mp hlength
  rw [result_read_eq_ok_iff]
  constructor
  · rintro ⟨t, ht, rfl⟩
    obtain ⟨hunits, rfl⟩ := (Reader.stringBody_eq_ok_iff hread hwide).mp ht
    exact ⟨hunits, rfl⟩
  · rintro ⟨hunits, rfl⟩
    exact ⟨_, (Reader.stringBody_eq_ok_iff hread hwide).mpr ⟨hunits, rfl⟩, rfl⟩

theorem exists_stringUnits_eq_iff (us : List UInt16) :
    (∃ x : String, stringUnits x = us) ↔ IsPaired us := by
  rw [← isSome_chars?_iff]
  constructor
  · rintro ⟨x, rfl⟩
    rw [chars?_stringUnits]
    rfl
  · intro h
    obtain ⟨cs, hcs⟩ := Option.isSome_iff_exists.mp h
    exact ⟨String.ofList cs, by rw [stringUnits, String.toList_ofList, units_of_chars? hcs]⟩

/-- A string is read back from its bytes, whatever follows them: its number of units, a byte for each
unit and two more for each unit from 255 on. And whatever bytes stand behind a length, a reader that
finds enough of them reads the string of the units they hold, and fails exactly if a surrogate among
these is unpaired. -/
theorem string_body_read_iff_paired (d : Decoder) (g : Registry) :
    (∀ (x : String) (rest : List UInt8), (stringUnits x).length ≤ Reader.maxLength →
      d.read g (fun _ => Reader.stringBody) (stringBody x ++ rest) = ⟨.ok (x, rest), d, g⟩) ∧
    (∀ x : String, ∃ block wide : List UInt8,
      stringBody x = countBytes (stringUnits x).length ++ (block ++ wide) ∧
      block.length = (stringUnits x).length ∧
      wide.length = 2 * ((stringUnits x).countP fun u => 0xFF ≤ u) ∧
      heldUnits block wide = stringUnits x) ∧
    ∀ input block wide left : List UInt8,
      (d.read g (fun _ => Reader.length) input).result =
        .ok (block.length, block ++ (wide ++ left)) →
      wide.length = 2 * block.count wideMark →
      let received := (d.read g (fun _ => Reader.stringBody) input).result
      ((∃ x rest, received = .ok (x, rest)) ↔ IsPaired (heldUnits block wide)) ∧
        ∀ x rest, received = .ok (x, rest) ↔ stringUnits x = heldUnits block wide ∧ rest = left := by
  refine ⟨?_, ?_, ?_⟩
  · intro x rest hx
    have hread := Reader.stringBody_append hx d.names g rest
    exact Decoder.read_of_ok (r := fun _ => Reader.stringBody) hread
  · intro x
    refine ⟨unitBlock (stringUnits x), wideBlock (stringUnits x), rfl, length_unitBlock _, ?_,
      heldUnits_blocks _⟩
    rw [length_wideBlock, count_unitBlock]
  · intro input block wide left hlength hwide received
    have hreceived : ∀ x rest, received = .ok (x, rest) ↔
        stringUnits x = heldUnits block wide ∧ rest = left :=
      fun x rest => Decoder.read_stringBody_eq_ok_iff hlength hwide
    refine ⟨?_, hreceived⟩
    rw [← exists_stringUnits_eq_iff]
    constructor
    · rintro ⟨x, rest, h⟩
      exact ⟨x, ((hreceived x rest).mp h).1⟩
    · rintro ⟨x, hx⟩
      exact ⟨x, left, (hreceived x left).mpr ⟨hx, rfl⟩⟩

/-- A unit that is the mark itself, a narrow one and a pair of surrogates. With the halves of the
pair the other way round no string is read; the length is written in more bytes than it takes. -/
theorem string_body_read_iff_paired_pair :
    let x := "ÿa😀"
    let wide : List UInt8 := [0x00, 0xFF, 0xD8, 0x3D, 0xDE, 0x00]
    let swapped : List UInt8 := [0x00, 0xFF, 0xDE, 0x00, 0xD8, 0x3D]
    let input (wide : List UInt8) := int16Bytes 4 ++ ([0xFF, 0x61, 0xFF, 0xFF] ++ (wide ++ [7]))
    let received (wide : List UInt8) :=
      (Decoder.new.read .initial (fun _ => Reader.stringBody) (input wide)).result
    Decoder.new.read .initial (fun _ => Reader.stringBody) (stringBody x ++ [7]) =
        ⟨.ok (x, [7]), .new, .initial⟩ ∧
      (∃ y rest, received wide = .ok (y, rest)) ∧
      ¬ ∃ y rest, received swapped = .ok (y, rest) := by
  intro x wide swapped input received
  obtain ⟨hwritten, -, hreceived⟩ := string_body_read_iff_paired .new .initial
  have hwide := (hreceived (input wide) [0xFF, 0x61, 0xFF, 0xFF] wide [7] rfl rfl).1
  have hswapped := (hreceived (input swapped) [0xFF, 0x61, 0xFF, 0xFF] swapped [7] rfl rfl).1
  refine ⟨hwritten x [7] (by decide +kernel), hwide.mpr (by decide +kernel), ?_⟩
  rw [hswapped]
  decide +kernel

end RemoteCall.Wire
