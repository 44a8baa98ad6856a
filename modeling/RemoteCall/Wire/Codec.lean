import RemoteCall.Wire.Encoder
import RemoteCall.Wire.Decoder

/-!
# The two halves of a codec

An encoder and a decoder each own the table of names of one direction. A frame that is abandoned
after part of it was encoded is undone by rolling its encoder back to the mark taken before.
-/

namespace RemoteCall.Wire

structure Encoder where
  names : NameIndex
deriving DecidableEq, Repr

/-- What a write appended, the failure that ended it if one did, and the encoder after it. -/
structure Encoding where
  bytes : List UInt8
  failure? : Option Failure
  encoder : Encoder
deriving DecidableEq, Repr

namespace Encoder

def new : Encoder := ⟨.empty⟩

def interned (e : Encoder) : Nat := e.names.size

/-- A mark of the names interned so far. -/
def checkpoint (e : Encoder) : Nat := e.interned

/-- Forgets the names interned after a mark. -/
def rollback (e : Encoder) (mark : Nat) : Encoder := ⟨e.names.rollback mark⟩

def write (e : Encoder) (w : Writer) : Encoding :=
  let written := w.run e.names
  ⟨written.bytes, written.failure?, ⟨written.names⟩⟩

end Encoder

/-- The names of one direction and the number of values being read around the next one. -/
structure Decoder where
  names : NameTable
  depth : Nat
deriving DecidableEq, Repr

/-- The outcome of a read: a result with the bytes not consumed, or a failure. -/
structure Decoding (α : Type) where
  result : Except Failure (α × List UInt8)
  decoder : Decoder
  registry : Registry

namespace Decoder

def new : Decoder := ⟨.empty, 0⟩

def interned (d : Decoder) : Nat := d.names.size

/-- The levels of nesting left for the next value. -/
def budget (d : Decoder) : Nat := maxNesting - d.depth

/-- Runs a reader, which is given the levels left, on an input. -/
def read {α : Type} (d : Decoder) (g : Registry) (reader : Nat → Reader α)
    (input : List UInt8) : Decoding α :=
  match (reader d.budget).run ⟨d.names, g, input⟩ with
  | .ok a s => ⟨.ok (a, s.input), ⟨s.names, d.depth⟩, s.registry⟩
  | .error f s => ⟨.error f, ⟨s.names, d.depth⟩, s.registry⟩

end Decoder

/-- Both halves, for encoding and decoding outside a connection. -/
structure Codec where
  encoder : Encoder
  decoder : Decoder
deriving DecidableEq, Repr

namespace Codec

def new : Codec := ⟨.new, .new⟩

def encode (c : Codec) (g : Registry) (v : Value) : Except Failure (List UInt8) × Codec :=
  let written := c.encoder.write (valueWriter g v)
  let next := { c with encoder := written.encoder }
  match written.failure? with
  | some f => (.error f, next)
  | none => (.ok written.bytes, next)

def decode (c : Codec) (g : Registry) (input : List UInt8) :
    Except Failure Value × Codec × Registry :=
  let reading := c.decoder.read g Reader.value input
  (reading.result.map Prod.fst, { c with decoder := reading.decoder }, reading.registry)

end Codec

end RemoteCall.Wire
