import RemoteCall.Frame
import RemoteCall.Wire.Codec

/-!
# Frames for sending

The body of a frame is encoded first and measured then. Names interned for a frame that is not sent
are forgotten, so that the peer, which reads only what was sent, learns the same names.
-/

namespace RemoteCall.Wire.Encoder

/-- Forgets what a write interned and reports why it is not sent. -/
def abandon (e : Encoder) (written : Encoding) (f : Failure) :
    Except Failure Frame.Sealed × Encoder :=
  (.error f, written.encoder.rollback e.checkpoint)

/-- The frame of a body, and the encoder after it. -/
def frame (e : Encoder) (max : Nat) (body : Writer) : Except Failure Frame.Sealed × Encoder :=
  let written := e.write body
  match written.failure? with
  | some f => e.abandon written f
  | none =>
    match Frame.close max written.bytes with
    | .ok sent => (.ok sent, written.encoder)
    | .error f => e.abandon written f

end RemoteCall.Wire.Encoder
