import RemoteCall.Proofs.Connection.Bodies

/-!
# Frames do not depend on the chunks

Senders close frames one after another, the bytes arrive in any pieces and may break off anywhere.
What the reads come to is a matter of the bodies and of the number of bytes alone: the bodies whose
frames are there come out in order, then comes the first frame that is too long for the reader, or
the place where bytes are missing. Neither the pieces nor the modes of the reads have a part in it.
-/

namespace RemoteCall

open Wire

namespace Frame

def paddedSize (body : List UInt8) : Nat := max minSize (lengthOf body)

def IsSent (body bytes : List UInt8) : Prop :=
  ∃ limit sent, limit < lengthLimit ∧ close limit body = .ok sent ∧ sent.bytes = bytes

/-- What one read after another comes to if so many bytes of the frames of these bodies are there.
Where bytes are missing it comes to `missing`. -/
def delivered (max : Nat) (missing : Option (Except Failure (List UInt8))) :
    List (List UInt8) → Nat → List (Option (Except Failure (List UInt8)))
  | [], _ => [missing]
  | body :: bodies, n =>
    if n < minSize then [missing]
    else if max < lengthOf body then
      [some (.error (.streamCorrupted (.invalidFrameLength (lengthOf body) max)))]
    else if n < paddedSize body then [missing]
    else some (.ok body) :: delivered max missing bodies (n - paddedSize body)

namespace IsSent

variable {body bytes : List UInt8}

theorem length_eq (h : IsSent body bytes) : bytes.length = paddedSize body := by
  obtain ⟨limit, sent, -, hclose, rfl⟩ := h
  rw [(bytes_of_close hclose).2, paddedSize]
  omega

theorem lengthOf_lt (h : IsSent body bytes) : lengthOf body < lengthLimit := by
  obtain ⟨limit, sent, hlimit, hclose, -⟩ := h
  unfold close at hclose
  by_cases hlt : limit < lengthOf body
  · simp only [if_pos hlt] at hclose
    cases hclose
  · omega

theorem take_lengthOf (h : IsSent body bytes) (rest : List UInt8) :
    (bytes ++ rest).take (lengthOf body) = bigEndian lengthBytes (lengthOf body) ++ body := by
  obtain ⟨limit, sent, -, hclose, rfl⟩ := h
  have hlen : (bigEndian lengthBytes (lengthOf body) ++ body).length = lengthOf body := by
    rw [List.length_append, length_bigEndian, lengthOf]
  rw [(bytes_of_close hclose).1, ← List.append_assoc, List.append_assoc, List.take_left' hlen]

/-- The length is there before the body is. -/
theorem readLength_eq (h : IsSent body bytes) (max : Nat) {n : Nat} (hn : lengthBytes ≤ n)
    (rest : List UInt8) :
    readLength max ((bytes ++ rest).take n) =
      if max < lengthOf body then
        .error (.streamCorrupted (.invalidFrameLength (lengthOf body) max))
      else .ok (lengthOf body) := by
  have hle : lengthBytes ≤ lengthOf body := Nat.le_add_right ..
  have hfront : ((bytes ++ rest).take n).take lengthBytes =
      bigEndian lengthBytes (lengthOf body) := by
    have htake := congrArg (List.take lengthBytes) (h.take_lengthOf rest)
    rw [List.take_take, Nat.min_eq_left hle, List.take_left' (length_bigEndian ..)] at htake
    rw [List.take_take, Nat.min_eq_left hn, htake]
  have hlength : ofBigEndian (bigEndian lengthBytes (lengthOf body)) = lengthOf body :=
    ofBigEndian_bigEndian_of_lt h.lengthOf_lt
  have hnot : ¬ lengthOf body < lengthBytes := Nat.not_lt.mpr hle
  simp only [readLength, hfront, hlength, hnot, false_or]

/-- A frame of which so many bytes are there is cut off, too long, or taken whole. -/
theorem first?_eq (h : IsSent body bytes) (max n : Nat) (rest : List UInt8) :
    first? max ((bytes ++ rest).take n) =
      if n < minSize then none
      else if max < lengthOf body then
        some (.error (.streamCorrupted (.invalidFrameLength (lengthOf body) max)))
      else if n < paddedSize body then none
      else some (.ok (body, rest.take (n - paddedSize body))) := by
  have hlen := h.length_eq
  have hpadded : paddedSize body = minSize + (lengthOf body - minSize) := by
    rw [paddedSize]
    omega
  have hthere : ((bytes ++ rest).take n).length = min n (paddedSize body + rest.length) := by
    rw [List.length_take, List.length_append, hlen]
  unfold first?
  rw [hthere]
  by_cases hshort : n < minSize
  · rw [if_pos hshort, if_pos (by omega)]
  have hprefix : lengthBytes ≤ minSize := by decide
  rw [if_neg hshort, if_neg (by omega), h.readLength_eq max (by omega)]
  by_cases hmax : max < lengthOf body
  · rw [if_pos hmax, if_pos hmax]
  rw [if_neg hmax, if_neg hmax]
  dsimp only
  by_cases hcut : n < paddedSize body
  · rw [if_pos hcut, if_pos (by omega)]
  rw [if_neg hcut, if_neg (by omega)]
  have hbody : (((bytes ++ rest).take n).take (lengthOf body)).drop lengthBytes = body := by
    rw [List.take_take, Nat.min_eq_left (by omega), h.take_lengthOf,
      List.drop_left' (length_bigEndian ..)]
  have hrest : ((bytes ++ rest).take n).drop (minSize + (lengthOf body - minSize)) =
      rest.take (n - paddedSize body) := by
    rw [← hpadded, List.drop_take, List.drop_left' hlen]
  rw [hbody, hrest]

end IsSent

theorem first?_nil (max : Nat) : first? max [] = none := rfl

end Frame

namespace ByteStream

variable {s : ByteStream} {max : Nat}

def missing (s : ByteStream) : Option (Except Failure (List UInt8)) :=
  if s.isEnded then some (.error .endOfStream) else none

/-- What the reads come to one after another, up to the first that fails or has to wait. -/
def reads (max : Nat) : List ReadMode → ByteStream → List (Option (Except Failure (List UInt8)))
  | [], _ => []
  | mode :: modes, s =>
    match s.takeFrame? max mode with
    | some (.ok (body, rest)) => some (.ok body) :: rest.reads max modes
    | some (.error f) => [some (.error f)]
    | none => [none]

theorem takeFrame?_of_first?_ok (mode : ReadMode) {body bytes : List UInt8}
    (h : Frame.first? max s.chunks.flatten = some (.ok (body, bytes))) :
    ∃ chunks : Chunks, s.takeFrame? max mode = some (.ok (body, { s with chunks })) ∧
      chunks.flatten = bytes := by
  have hfirst := s.chunks.takeFrame?_flatten max mode
  rw [h] at hfirst
  cases htake : s.chunks.takeFrame? max mode with
  | none =>
    rw [htake] at hfirst
    cases hfirst
  | some outcome =>
    rw [htake] at hfirst
    cases outcome with
    | error f => cases hfirst
    | ok taken =>
      cases hfirst
      exact ⟨taken.2, by simp only [takeFrame?, htake], rfl⟩

theorem takeFrame?_of_first?_error (mode : ReadMode) {f : Failure}
    (h : Frame.first? max s.chunks.flatten = some (.error f)) :
    s.takeFrame? max mode = some (.error f) := by
  have hfirst := s.chunks.takeFrame?_flatten max mode
  rw [h] at hfirst
  cases htake : s.chunks.takeFrame? max mode with
  | none =>
    rw [htake] at hfirst
    cases hfirst
  | some outcome =>
    rw [htake] at hfirst
    cases outcome with
    | ok taken => cases hfirst
    | error f' =>
      cases hfirst
      simp only [takeFrame?, htake]

theorem reads_of_first?_none (mode : ReadMode) (modes : List ReadMode)
    (h : Frame.first? max s.chunks.flatten = none) :
    s.reads max (mode :: modes) = [s.missing] := by
  have hfirst := s.chunks.takeFrame?_flatten max mode
  rw [h, Option.map_eq_none_iff] at hfirst
  by_cases hended : s.isEnded = true
  · simp only [reads, takeFrame?, hfirst, missing, hended, if_true]
  · simp only [reads, takeFrame?, hfirst, missing, hended]
    rfl

/-- Whatever the pieces and the modes, the reads come to what the bodies and the number of bytes
say. Induction on the reads, each of which takes one frame. -/
theorem reads_sent {bodies frames : List (List UInt8)} (h : List.Forall₂ Frame.IsSent bodies frames)
    {s : ByteStream} {n : Nat} (hs : s.chunks.flatten = frames.flatten.take n) (max : Nat)
    (modes : List ReadMode) :
    s.reads max modes = (Frame.delivered max s.missing bodies n).take modes.length := by
  induction modes generalizing s bodies frames n with
  | nil => rw [List.length_nil, List.take_zero, reads]
  | cons mode modes ih =>
    cases h with
    | nil =>
      rw [List.flatten_nil, List.take_nil] at hs
      have hfirst : Frame.first? max s.chunks.flatten = none := by rw [hs, Frame.first?_nil]
      rw [reads_of_first?_none mode modes hfirst, Frame.delivered, List.length_cons,
        List.take_succ_cons, List.take_nil]
    | @cons body bytes bodies frames hsent hrest =>
      have hfirst := hsent.first?_eq max n frames.flatten
      rw [← List.flatten_cons, ← hs] at hfirst
      rw [Frame.delivered, List.length_cons]
      by_cases hshort : n < Frame.minSize
      · rw [if_pos hshort] at hfirst ⊢
        rw [reads_of_first?_none mode modes hfirst, List.take_succ_cons, List.take_nil]
      rw [if_neg hshort] at hfirst ⊢
      by_cases hmax : max < Frame.lengthOf body
      · rw [if_pos hmax] at hfirst ⊢
        rw [reads, takeFrame?_of_first?_error mode hfirst, List.take_succ_cons, List.take_nil]
      rw [if_neg hmax] at hfirst ⊢
      by_cases hcut : n < Frame.paddedSize body
      · rw [if_pos hcut] at hfirst ⊢
        rw [reads_of_first?_none mode modes hfirst, List.take_succ_cons, List.take_nil]
      rw [if_neg hcut] at hfirst ⊢
      obtain ⟨chunks, htake, hchunks⟩ := takeFrame?_of_first?_ok mode hfirst
      rw [reads, htake, List.take_succ_cons]
      exact congrArg (some (.ok body) :: ·) (ih (s := { s with chunks }) hrest hchunks)

/-- A short frame in two pieces, and of a frame too long for the reader just the first block. -/
theorem reads_sent_oversized :
    let short := bigEndian 4 5 ++ [7] ++ List.replicate 251 0
    let long := bigEndian 4 304 ++ List.replicate 300 1
    let s : ByteStream := ⟨[short.take 3, short.drop 3 ++ long.take 10, [], (long.take 256).drop 10],
      true⟩
    List.Forall₂ Frame.IsSent [[7], List.replicate 300 1] [short, long] ∧
      s.chunks.flatten = [short, long].flatten.take 512 ∧
      s.reads 300 [.idle, .reply, .idle] = [some (.ok [7]),
        some (.error (.streamCorrupted (.invalidFrameLength 304 300)))] := by
  intro short long s
  have hshort : Frame.IsSent [7] short :=
    ⟨4096, ⟨5, short⟩, by decide, by decide +kernel, rfl⟩
  have hlong : Frame.IsSent (List.replicate 300 1) long :=
    ⟨4096, ⟨304, long⟩, by decide, by decide +kernel, rfl⟩
  have hsent : List.Forall₂ Frame.IsSent [[7], List.replicate 300 1] [short, long] :=
    .cons hshort (.cons hlong .nil)
  have hs : s.chunks.flatten = [short, long].flatten.take 512 := by decide +kernel
  refine ⟨hsent, hs, ?_⟩
  rw [reads_sent hsent hs 300 [.idle, .reply, .idle]]
  decide +kernel

end ByteStream

end RemoteCall
