import RemoteCall.Frame

/-!
# Arriving bytes

Bytes arrive in chunks whose sizes mean nothing. A read takes what the first chunk offers, or waits
until a number of bytes is there. A frame is read in two steps, its first block and the rest, and
the mode of the read decides only how the first block is gathered: what is read does not depend on
it, nor on the chunks.
-/

namespace RemoteCall

/-- Bytes that have arrived and were not read, in the pieces in which they arrived. -/
abbrev Chunks := List (List UInt8)

/-- What a reader expects. A reply is due at once, so that waiting for it is timed; otherwise the
peer may stay quiet, and time counts from the first byte of a frame. -/
inductive ReadMode where
  | reply
  | idle
deriving DecidableEq, Repr

namespace Chunks

def size : Chunks → Nat
  | [] => 0
  | chunk :: chunks => chunk.length + size chunks

/-- At most `n` bytes from the first chunk that has any. -/
def takeSome? (n : Nat) : Chunks → Option (List UInt8 × Chunks)
  | [] => none
  | [] :: rest => takeSome? n rest
  | (b :: bs) :: rest =>
    if (b :: bs).length ≤ n then some (b :: bs, rest)
    else some ((b :: bs).take n, (b :: bs).drop n :: rest)

/-- Exactly `n` bytes, if so many are there. -/
def takeExact? : Nat → Chunks → Option (List UInt8 × Chunks)
  | 0, chunks => some ([], chunks)
  | _ + 1, [] => none
  | n + 1, chunk :: rest =>
    if chunk.length ≤ n + 1 then
      (takeExact? (n + 1 - chunk.length) rest).map fun (more, left) => (chunk ++ more, left)
    else some (chunk.take (n + 1), chunk.drop (n + 1) :: rest)

/-- The first block of a frame. An idle reader takes what comes first and then the rest of it. -/
def takeBlock? : ReadMode → Chunks → Option (List UInt8 × Chunks)
  | .reply, chunks => takeExact? Frame.minSize chunks
  | .idle, chunks => do
    let (front, chunks) ← takeSome? Frame.minSize chunks
    let (more, chunks) ← takeExact? (Frame.minSize - front.length) chunks
    return (front ++ more, chunks)

/-- The body of the next frame, or why its length is refused; nothing if more bytes are needed. -/
def takeFrame? (max : Nat) (mode : ReadMode) (chunks : Chunks) :
    Option (Except Failure (List UInt8 × Chunks)) := do
  let (block, chunks) ← takeBlock? mode chunks
  match Frame.readLength max block with
  | .error f => return .error f
  | .ok length =>
    let (more, chunks) ← takeExact? (length - Frame.minSize) chunks
    return .ok (((block ++ more).take length).drop Frame.lengthBytes, chunks)

theorem size_cons (chunk : List UInt8) (chunks : Chunks) :
    size (chunk :: chunks) = chunk.length + size chunks := rfl

theorem takeSome?_size {n : Nat} {chunks : Chunks} {front : List UInt8} {rest : Chunks}
    (h : takeSome? n chunks = some (front, rest)) : front.length + rest.size = chunks.size := by
  fun_induction takeSome? n chunks with
  | case1 => simp at h
  | case2 rest' ih => simpa [size_cons] using ih h
  | case3 b bs rest' hn => simp_all [size_cons]
  | case4 b bs rest' hn =>
    simp only [Option.some.injEq, Prod.mk.injEq] at h
    obtain ⟨rfl, rfl⟩ := h
    simp only [size_cons, List.length_take, List.length_drop]
    omega

theorem takeExact?_size {n : Nat} {chunks : Chunks} {front : List UInt8} {rest : Chunks}
    (h : takeExact? n chunks = some (front, rest)) :
    front.length = n ∧ n + rest.size = chunks.size := by
  fun_induction takeExact? n chunks generalizing front with
  | case1 chunks => simp_all
  | case2 n => simp at h
  | case3 n chunk rest' hn ih =>
    simp only [Option.map_eq_some_iff, Prod.mk.injEq, Prod.exists] at h
    obtain ⟨more, left, hmore, rfl, rfl⟩ := h
    have := ih hmore
    simp only [List.length_append, size_cons]
    omega
  | case4 n chunk rest' hn =>
    simp only [Option.some.injEq, Prod.mk.injEq] at h
    obtain ⟨rfl, rfl⟩ := h
    simp only [size_cons, List.length_take, List.length_drop]
    omega

theorem takeBlock?_size {mode : ReadMode} {chunks : Chunks} {block : List UInt8} {rest : Chunks}
    (h : takeBlock? mode chunks = some (block, rest)) :
    block.length + rest.size = chunks.size ∧ Frame.minSize ≤ block.length := by
  cases mode with
  | reply =>
    have := takeExact?_size h
    omega
  | idle =>
    simp only [takeBlock?, Option.bind_eq_bind, Option.bind_eq_some_iff, Option.pure_def,
      Option.some.injEq, Prod.mk.injEq, Prod.exists] at h
    obtain ⟨front, mid, hfront, more, left, hmore, rfl, rfl⟩ := h
    have := takeSome?_size hfront
    have := takeExact?_size hmore
    simp only [List.length_append]
    omega

/-- Every frame takes at least one block. -/
theorem takeFrame?_size_lt {max : Nat} {mode : ReadMode} {chunks : Chunks} {body : List UInt8}
    {rest : Chunks} (h : takeFrame? max mode chunks = some (.ok (body, rest))) :
    rest.size < chunks.size := by
  simp only [takeFrame?, Option.bind_eq_bind, Option.bind_eq_some_iff, Prod.exists] at h
  obtain ⟨block, mid, hblock, h⟩ := h
  have hsize := takeBlock?_size hblock
  have hmin : 0 < Frame.minSize := by decide
  split at h
  · simp at h
  · simp only [Option.bind_eq_some_iff, Option.pure_def, Option.some.injEq, Except.ok.injEq,
      Prod.mk.injEq, Prod.exists] at h
    obtain ⟨more, left, hmore, -, rfl⟩ := h
    have := takeExact?_size hmore
    omega

end Chunks

/-- What arrives from a peer: chunks, and then either the end or nothing so far. -/
structure ByteStream where
  chunks : Chunks
  isEnded : Bool
deriving DecidableEq, Repr

namespace ByteStream

def empty : ByteStream := ⟨[], false⟩

def push (s : ByteStream) (chunk : List UInt8) : ByteStream :=
  { s with chunks := s.chunks ++ [chunk] }

def finish (s : ByteStream) : ByteStream := { s with isEnded := true }

/-- The body of the next frame or a failure; nothing while the read waits. -/
def takeFrame? (max : Nat) (mode : ReadMode) (s : ByteStream) :
    Option (Except Failure (List UInt8 × ByteStream)) :=
  match s.chunks.takeFrame? max mode with
  | some (.ok (body, chunks)) => some (.ok (body, { s with chunks := chunks }))
  | some (.error f) => some (.error f)
  | none => if s.isEnded then some (.error .endOfStream) else none

def size (s : ByteStream) : Nat := s.chunks.size

theorem takeFrame?_size_lt {max : Nat} {mode : ReadMode} {s rest : ByteStream} {body : List UInt8}
    (h : s.takeFrame? max mode = some (.ok (body, rest))) : rest.size < s.size := by
  unfold takeFrame? at h
  split at h
  · rename_i hchunks
    simp only [Option.some.injEq, Except.ok.injEq, Prod.mk.injEq] at h
    obtain ⟨rfl, rfl⟩ := h
    exact Chunks.takeFrame?_size_lt hchunks
  · simp at h
  · split at h <;> simp at h

end ByteStream

end RemoteCall
