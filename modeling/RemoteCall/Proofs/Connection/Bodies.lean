import RemoteCall.Proofs.Connection.Arrivals

/-!
# Frames among any bytes

Whatever bytes arrive, they begin with whole frames, and then comes a frame that is cut off or whose
length is refused. What a read takes is the first of these frames, however the bytes are cut.
-/

namespace RemoteCall

open Wire

namespace Frame

/-- The body of the first frame and what follows it, or why its length is refused; nothing if the
frame is cut off. -/
def first? (max : Nat) (bytes : List UInt8) : Option (Except Failure (List UInt8 × List UInt8)) :=
  if bytes.length < minSize then none
  else
    match readLength max bytes with
    | .error f => some (.error f)
    | .ok length =>
      if bytes.length < length then none
      else some (.ok ((bytes.take length).drop lengthBytes,
        bytes.drop (minSize + (length - minSize))))

theorem length_lt_of_first? {max : Nat} {bytes body rest : List UInt8}
    (h : first? max bytes = some (.ok (body, rest))) : rest.length < bytes.length := by
  unfold first? at h
  split_ifs at h with hshort
  split at h
  · cases h
  · split_ifs at h
    cases h
    rw [minSize] at hshort
    rw [List.length_drop, minSize]
    omega

/-- The bodies of the whole frames that the bytes begin with, and whether the length of the next
frame is refused. -/
def split (max : Nat) (bytes : List UInt8) : List (List UInt8) × Bool :=
  match h : first? max bytes with
  | some (.ok (body, rest)) =>
    have := length_lt_of_first? h
    (body :: (split max rest).1, (split max rest).2)
  | some (.error _) => ([], true)
  | none => ([], false)
termination_by bytes.length

variable {max : Nat} {bytes : List UInt8}

theorem split_of_ok {body rest : List UInt8} (h : first? max bytes = some (.ok (body, rest))) :
    split max bytes = (body :: (split max rest).1, (split max rest).2) := by
  rw [split]
  split
  · rename_i h'
    rw [h] at h'
    cases h'
    rfl
  · rename_i h'
    rw [h] at h'
    cases h'
  · rename_i h'
    rw [h] at h'
    cases h'

theorem split_of_error {f : Failure} (h : first? max bytes = some (.error f)) :
    split max bytes = ([], true) := by
  rw [split]
  split
  · rename_i h'
    rw [h] at h'
    cases h'
  · rfl
  · rename_i h'
    rw [h] at h'
    cases h'

theorem split_of_none (h : first? max bytes = none) : split max bytes = ([], false) := by
  rw [split]
  split
  · rename_i h'
    rw [h] at h'
    cases h'
  · rename_i h'
    rw [h] at h'
    cases h'
  · rfl

theorem readLength_take_minSize (max : Nat) (bytes : List UInt8) :
    readLength max (bytes.take minSize) = readLength max bytes := by
  have hfront : (bytes.take minSize).take lengthBytes = bytes.take lengthBytes := by
    rw [List.take_take]
    rfl
  simp only [readLength, hfront]

end Frame

namespace Chunks

theorem takeBlock?_of_lt (mode : ReadMode) {chunks : Chunks}
    (h : chunks.flatten.length < Frame.minSize) : takeBlock? mode chunks = none := by
  cases mode with
  | reply => exact takeExact?_of_lt h
  | idle =>
    by_cases hnil : chunks.flatten = []
    · exact takeBlock?_of_nil .idle hnil
    · obtain ⟨front, mid, hfront, -, hsplit⟩ := takeSome?_of_ne_nil (n := Frame.minSize) hnil
      have hmore : takeExact? (Frame.minSize - front.length) mid = none := by
        refine takeExact?_of_lt ?_
        rw [← hsplit, List.length_append] at h
        omega
      simp [takeBlock?, hfront, hmore]

/-- A read takes the first frame of the bytes that have arrived, and leaves the rest of them. -/
theorem takeFrame?_flatten (max : Nat) (mode : ReadMode) (chunks : Chunks) :
    (chunks.takeFrame? max mode).map (·.map fun (body, rest) => (body, rest.flatten)) =
      Frame.first? max chunks.flatten := by
  unfold Frame.first?
  by_cases hshort : chunks.flatten.length < Frame.minSize
  · rw [if_pos hshort, takeFrame?, takeBlock?_of_lt mode hshort]
    rfl
  rw [if_neg hshort]
  obtain ⟨mid, hblock, hmid⟩ := takeBlock?_of_le mode (Nat.le_of_not_lt hshort)
  have hfirst : chunks.takeFrame? max mode =
      match Frame.readLength max chunks.flatten with
      | .error f => some (.error f)
      | .ok length => (takeExact? (length - Frame.minSize) mid).map fun (more, rest) =>
          .ok (((chunks.flatten.take Frame.minSize ++ more).take length).drop Frame.lengthBytes,
            rest) := by
    unfold takeFrame?
    rw [hblock]
    dsimp only [Option.bind_eq_bind, Option.bind_some]
    rw [Frame.readLength_take_minSize]
    cases Frame.readLength max chunks.flatten with
    | error f => rfl
    | ok length =>
      dsimp only
      rw [Option.map_eq_bind]
      rfl
  rw [hfirst]
  cases Frame.readLength max chunks.flatten with
  | error f => rfl
  | ok length =>
    dsimp only
    have hsize : mid.flatten.length = chunks.flatten.length - Frame.minSize := by
      rw [hmid, List.length_drop]
    by_cases hcut : chunks.flatten.length < length
    · rw [if_pos hcut, takeExact?_of_lt (by omega)]
      rfl
    · rw [if_neg hcut]
      obtain ⟨rest, hmore, hrest⟩ := takeExact?_of_le
        (show length - Frame.minSize ≤ mid.flatten.length by omega)
      have hwhole : (chunks.flatten.take Frame.minSize ++
          mid.flatten.take (length - Frame.minSize)).take length = chunks.flatten.take length := by
        rw [hmid, ← List.take_add, List.take_take, Nat.min_eq_left (by omega)]
      rw [hmore, Option.map_some, Option.map_some, Except.map, hwhole, hrest, hmid,
        List.drop_drop]

end Chunks

namespace ByteStream

variable {s : ByteStream} {max : Nat} {mode : ReadMode}

/-- A read from a stream takes the first frame of its bytes. -/
theorem first?_of_takeFrame?_eq_ok {body : List UInt8} {rest : ByteStream}
    (h : s.takeFrame? max mode = some (.ok (body, rest))) :
    Frame.first? max s.chunks.flatten = some (.ok (body, rest.chunks.flatten)) ∧
      rest.isEnded = s.isEnded := by
  have hfirst := s.chunks.takeFrame?_flatten max mode
  unfold takeFrame? at h
  split at h
  · rename_i htake
    cases h
    rw [htake] at hfirst
    exact ⟨hfirst.symm, rfl⟩
  · cases h
  · split_ifs at h
    cases h

/-- A read fails at a frame whose length is refused, or where the stream ends. -/
theorem split_of_takeFrame?_eq_error {f : Failure} (h : s.takeFrame? max mode = some (.error f)) :
    (Frame.split max s.chunks.flatten).1 = [] ∧
      ((Frame.split max s.chunks.flatten).2 || s.isEnded) = true := by
  have hfirst := s.chunks.takeFrame?_flatten max mode
  unfold takeFrame? at h
  split at h
  · cases h
  · rename_i htake
    rw [htake] at hfirst
    rw [Frame.split_of_error hfirst.symm]
    exact ⟨rfl, rfl⟩
  · rename_i htake
    rw [htake] at hfirst
    rw [Frame.split_of_none hfirst.symm]
    split_ifs at h with hended
    exact ⟨rfl, by rw [hended]; rfl⟩

/-- A read waits as long as the first frame is cut off and more may come. -/
theorem split_of_takeFrame?_eq_none (h : s.takeFrame? max mode = none) :
    Frame.split max s.chunks.flatten = ([], false) ∧ s.isEnded = false := by
  have hfirst := s.chunks.takeFrame?_flatten max mode
  unfold takeFrame? at h
  split at h
  · cases h
  · cases h
  · rename_i htake
    rw [htake] at hfirst
    rw [Frame.split_of_none hfirst.symm]
    split_ifs at h with hended
    exact ⟨rfl, Bool.eq_false_iff.mpr hended⟩

end ByteStream

end RemoteCall
