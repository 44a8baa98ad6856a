import Mathlib.Tactic.SplitIfs
import RemoteCall.Connection.Arrivals
import RemoteCall.Proofs.Wire.Bytes

/-!
# Frames among arriving bytes

What a read takes from arriving chunks depends only on the bytes in them. So a frame that was closed
by a sender is taken by a receiver as it was, in either mode and however its bytes are cut.
-/

namespace RemoteCall

open Wire

namespace Chunks

theorem takeExact?_of_le {n : Nat} {chunks : Chunks} (h : n ≤ chunks.flatten.length) :
    ∃ rest, takeExact? n chunks = some (chunks.flatten.take n, rest) ∧
      rest.flatten = chunks.flatten.drop n := by
  fun_induction takeExact? n chunks with
  | case1 chunks => exact ⟨chunks, rfl, rfl⟩
  | case2 n => simp at h
  | case3 n chunk chunks hle ih =>
    rw [List.flatten_cons, List.length_append] at h
    obtain ⟨rest, htake, hrest⟩ := ih (by omega)
    refine ⟨rest, ?_, ?_⟩
    · rw [htake, List.flatten_cons, List.take_append, List.take_of_length_le hle]
      rfl
    · rw [hrest, List.flatten_cons, List.drop_append, List.drop_of_length_le hle, List.nil_append]
  | case4 n chunk chunks hlt =>
    have hlen : n + 1 ≤ chunk.length := by omega
    refine ⟨chunk.drop (n + 1) :: chunks, ?_, ?_⟩
    · rw [List.flatten_cons, List.take_append_of_le_length hlen]
    · rw [List.flatten_cons, List.flatten_cons, List.drop_append_of_le_length hlen]

theorem takeExact?_of_lt {n : Nat} {chunks : Chunks} (h : chunks.flatten.length < n) :
    takeExact? n chunks = none := by
  fun_induction takeExact? n chunks with
  | case1 chunks => simp at h
  | case2 n => rfl
  | case3 n chunk chunks hle ih =>
    rw [List.flatten_cons, List.length_append] at h
    rw [ih (by omega)]
    rfl
  | case4 n chunk chunks hlt =>
    rw [List.flatten_cons, List.length_append] at h
    omega

theorem takeSome?_of_ne_nil {n : Nat} {chunks : Chunks} (h : chunks.flatten ≠ []) :
    ∃ front rest, takeSome? n chunks = some (front, rest) ∧ front.length ≤ n ∧
      front ++ rest.flatten = chunks.flatten := by
  fun_induction takeSome? n chunks with
  | case1 => exact absurd rfl h
  | case2 chunks ih => exact ih h
  | case3 b bs chunks hle => exact ⟨b :: bs, chunks, rfl, hle, rfl⟩
  | case4 b bs chunks hlt =>
    refine ⟨_, _, rfl, ?_, ?_⟩
    · rw [List.length_take]
      omega
    · rw [List.flatten_cons, ← List.append_assoc, List.take_append_drop, List.flatten_cons]

theorem takeSome?_of_nil {n : Nat} {chunks : Chunks} (h : chunks.flatten = []) :
    takeSome? n chunks = none := by
  fun_induction takeSome? n chunks with
  | case1 => rfl
  | case2 chunks ih => exact ih h
  | case3 => cases h
  | case4 => cases h

/-- Both modes take the same first block. -/
theorem takeBlock?_of_le (mode : ReadMode) {chunks : Chunks}
    (h : Frame.minSize ≤ chunks.flatten.length) :
    ∃ rest, takeBlock? mode chunks = some (chunks.flatten.take Frame.minSize, rest) ∧
      rest.flatten = chunks.flatten.drop Frame.minSize := by
  cases mode with
  | reply => exact takeExact?_of_le h
  | idle =>
    have hmin : 0 < Frame.minSize := by decide
    have hne : chunks.flatten ≠ [] := by
      intro hnil
      rw [hnil, List.length_nil] at h
      omega
    obtain ⟨front, mid, hfront, hle, hsplit⟩ := takeSome?_of_ne_nil hne
    have hlen : Frame.minSize - front.length ≤ mid.flatten.length := by
      have := congrArg List.length hsplit
      rw [List.length_append] at this
      omega
    obtain ⟨rest, hmore, hrest⟩ := takeExact?_of_le hlen
    refine ⟨rest, ?_, ?_⟩
    · have htwo : takeBlock? .idle chunks = (takeSome? Frame.minSize chunks).bind fun p =>
          (takeExact? (Frame.minSize - p.1.length) p.2).bind fun q => some (p.1 ++ q.1, q.2) := rfl
      rw [htwo, hfront, Option.bind_some, hmore, Option.bind_some, ← hsplit, List.take_append,
        List.take_of_length_le hle]
    · rw [hrest, ← hsplit, List.drop_append, List.drop_of_length_le hle, List.nil_append]

theorem takeBlock?_of_nil (mode : ReadMode) {chunks : Chunks} (h : chunks.flatten = []) :
    takeBlock? mode chunks = none := by
  cases mode with
  | reply => exact takeExact?_of_lt (by rw [h]; decide)
  | idle => simp [takeBlock?, takeSome?_of_nil h]

end Chunks

namespace Frame

structure Fits (max : Nat) (body : List UInt8) : Prop where
  length_le : lengthOf body ≤ max
  length_lt : lengthOf body < lengthLimit

instance (max : Nat) (body : List UInt8) : Decidable (Fits max body) :=
  decidable_of_iff (lengthOf body ≤ max ∧ lengthOf body < lengthLimit)
    ⟨fun h => ⟨h.1, h.2⟩, fun h => ⟨h.length_le, h.length_lt⟩⟩

theorem close_of_fits {max : Nat} {body : List UInt8} (h : Fits max body) :
    close max body = .ok ⟨lengthOf body,
      bigEndian lengthBytes (lengthOf body) ++ body ++ padding (lengthOf body)⟩ := by
  have hlt : ¬ max < lengthOf body := Nat.not_lt.mpr h.length_le
  simp only [close, if_neg hlt]

theorem readLength_of_fits {max : Nat} {body : List UInt8} (h : Fits max body)
    (rest : List UInt8) :
    readLength max (bigEndian lengthBytes (lengthOf body) ++ rest) = .ok (lengthOf body) := by
  have hfront : (bigEndian lengthBytes (lengthOf body)).length = lengthBytes := length_bigEndian ..
  have hlength : ofBigEndian ((bigEndian lengthBytes (lengthOf body) ++ rest).take lengthBytes) =
      lengthOf body := by
    rw [List.take_left' hfront]
    exact ofBigEndian_bigEndian_of_lt h.length_lt
  have hle : lengthBytes ≤ lengthOf body := Nat.le_add_right ..
  have hmax := h.length_le
  simp only [readLength, hlength]
  exact if_neg (by omega)

theorem isFatal_of_readLength_eq_error {max : Nat} {front : List UInt8} {f : Failure}
    (h : readLength max front = .error f) : f.isFatal = true := by
  unfold readLength at h
  dsimp only at h
  split_ifs at h
  cases h
  rfl

/-- A frame is its length, its body and zeros up to the smallest size. -/
theorem bytes_of_close {max : Nat} {body : List UInt8} {frame : Sealed}
    (h : close max body = .ok frame) :
    frame.bytes = bigEndian lengthBytes (lengthOf body) ++ (body ++ padding (lengthOf body)) ∧
      frame.bytes.length = minSize + (lengthOf body - minSize) := by
  unfold close at h
  dsimp only at h
  split_ifs at h
  cases h
  refine ⟨List.append_assoc .., ?_⟩
  simp only [List.length_append, length_bigEndian, padding, List.length_replicate, lengthOf,
    minSize]
  omega

end Frame

namespace ByteStream

/-- A frame that has arrived is taken whole, and nothing behind it. -/
theorem takeFrame?_of_fits {s : ByteStream} {max max' : Nat} {body : List UInt8}
    {frame : Frame.Sealed} (hclose : Frame.close max' body = .ok frame) (h : Frame.Fits max body)
    (mode : ReadMode) {rest : List UInt8} (hs : s.chunks.flatten = frame.bytes ++ rest) :
    ∃ chunks : Chunks, s.takeFrame? max mode = some (.ok (body, { s with chunks := chunks })) ∧
      chunks.flatten = rest := by
  obtain ⟨hbytes, hsize⟩ := Frame.bytes_of_close hclose
  have hlong : s.chunks.flatten.length =
      Frame.minSize + (Frame.lengthOf body - Frame.minSize) + rest.length := by
    rw [hs, List.length_append, hsize]
  obtain ⟨mid, hblock, hmid⟩ := Chunks.takeBlock?_of_le mode
    (show Frame.minSize ≤ s.chunks.flatten.length by omega)
  obtain ⟨left, hmore, hleft⟩ := Chunks.takeExact?_of_le
    (show Frame.lengthOf body - Frame.minSize ≤ mid.flatten.length by
      rw [hmid, List.length_drop]
      omega)
  have hfront : s.chunks.flatten.take Frame.minSize =
      bigEndian Frame.lengthBytes (Frame.lengthOf body) ++
        ((body ++ Frame.padding (Frame.lengthOf body)) ++ rest).take
          (Frame.minSize - Frame.lengthBytes) := by
    rw [hs, hbytes, List.append_assoc, List.take_append, length_bigEndian,
      List.take_of_length_le (by rw [length_bigEndian]; decide)]
  have hlength := Frame.readLength_of_fits h
    (((body ++ Frame.padding (Frame.lengthOf body)) ++ rest).take
      (Frame.minSize - Frame.lengthBytes))
  rw [← hfront] at hlength
  have hwhole : s.chunks.flatten.take Frame.minSize ++
      mid.flatten.take (Frame.lengthOf body - Frame.minSize) = frame.bytes := by
    rw [hmid, ← List.take_add, hs, List.take_left' hsize]
  have hbody : (frame.bytes.take (Frame.lengthOf body)).drop Frame.lengthBytes = body := by
    have hlen : (bigEndian Frame.lengthBytes (Frame.lengthOf body) ++ body).length =
        Frame.lengthOf body := by
      rw [List.length_append, length_bigEndian, Frame.lengthOf]
    rw [hbytes, ← List.append_assoc, List.take_left' hlen, List.drop_left' (length_bigEndian ..)]
  refine ⟨left, ?_, ?_⟩
  · simp only [takeFrame?, Chunks.takeFrame?, hblock, hlength, hmore, Option.bind_eq_bind,
      Option.bind_some, Option.pure_def, hwhole, hbody]
  · rw [hleft, hmid, List.drop_drop, hs, List.drop_left' hsize]

theorem takeFrame?_of_nil {s : ByteStream} (max : Nat) (mode : ReadMode)
    (hs : s.chunks.flatten = []) (hended : s.isEnded = false) : s.takeFrame? max mode = none := by
  have hblock := Chunks.takeBlock?_of_nil mode hs
  simp [takeFrame?, Chunks.takeFrame?, hblock, hended]

/-- A frame is refused for its length, or because the peer has closed. -/
theorem isFatal_of_takeFrame?_eq_error {s : ByteStream} {max : Nat} {mode : ReadMode} {f : Failure}
    (h : s.takeFrame? max mode = some (.error f)) : f.isFatal = true := by
  unfold takeFrame? at h
  split at h
  · cases h
  · next hchunks =>
    cases h
    simp only [Chunks.takeFrame?, Option.bind_eq_bind, Option.bind_eq_some_iff, Prod.exists]
      at hchunks
    obtain ⟨block, mid, _, hchunks⟩ := hchunks
    cases hlength : Frame.readLength max block with
    | ok length =>
      rw [hlength] at hchunks
      simp only [Option.bind_eq_some_iff, Option.pure_def, Prod.exists] at hchunks
      obtain ⟨_, _, _, hchunks⟩ := hchunks
      cases hchunks
    | error e =>
      rw [hlength] at hchunks
      cases hchunks
      exact Frame.isFatal_of_readLength_eq_error hlength
  · split at h <;> cases h
    rfl

end ByteStream

end RemoteCall
