import RemoteCall.Method.Table

/-!
# The built-in methods

A small table for trying out clients: `ping` answers `pong`, `echo` returns its argument, `add`
adds two integers of 64 bits unless the sum overflows, and `sleep` returns the milliseconds it
takes, which are never negative.
-/

namespace RemoteCall.Method

/-- The panic of a body that looks for an argument it was not given. -/
def missingArgument (given index : Nat) : MethodOutcome :=
  .panic (some s!"index out of bounds: the len is {given} but the index is {index}")

def integerOf (v : Value) : Int64 := v.toInt64?.getD 0

def ping : Method := ⟨"ping", [], false, fun _ => .value (.string "pong")⟩

def echo : Method := ⟨"echo", [.any], false, fun args => .value (args.getLast?.getD .null)⟩

/-- The sum, or nothing when 64 bits do not hold it. -/
def checkedAdd? (a b : Int64) : Option Int64 :=
  let sum := a.toInt + b.toInt
  if fitsWidth 64 sum then some (Int64.ofInt sum) else none

def addBody : List Value → MethodOutcome
  | [] => missingArgument 0 0
  | [_] => missingArgument 1 1
  | v :: w :: _ =>
    let a := integerOf v
    let b := integerOf w
    match checkedAdd? a b with
    | some sum => .value (.long sum)
    | none => .failure (.ofKind "ArithmeticException"
        (Int.repr a.toInt ++ " + " ++ Int.repr b.toInt ++ " overflows"))

def add : Method := ⟨"add", [.long, .long], false, addBody⟩

def sleepBody : List Value → MethodOutcome
  | [] => missingArgument 0 0
  | v :: _ => .value (.long (Int64.ofInt (max 0 (integerOf v).toInt)))

def sleep : Method := ⟨"sleep", [.long], false, sleepBody⟩

def builtin (tableName : String) : MethodTable := ⟨tableName, [ping, echo, add, sleep]⟩

end RemoteCall.Method
