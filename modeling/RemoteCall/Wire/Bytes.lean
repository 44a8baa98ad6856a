/-!
# Big-endian numbers
-/

namespace RemoteCall.Wire

/-- The last `width` digits of a number to the base 256, the leading one first. -/
def bigEndian : Nat → Nat → List UInt8
  | 0, _ => []
  | width + 1, n => (n / Nat.pow 256 width).toUInt8 :: bigEndian width n

def ofBigEndian (bs : List UInt8) : Nat := bs.foldl (fun n b => 256 * n + b.toNat) 0

end RemoteCall.Wire
