/-!
# Signed integers of a width
-/

namespace RemoteCall

/-- The least integer that so many bits hold. -/
def minSigned (bits : Nat) : Int := -(Nat.pow 2 (bits - 1) : Nat)

/-- The largest integer that so many bits hold. -/
def maxSigned (bits : Nat) : Int := (Nat.pow 2 (bits - 1) : Nat) - 1

def fitsWidth (bits : Nat) (n : Int) : Bool := minSigned bits ≤ n && n ≤ maxSigned bits

end RemoteCall
