import RemoteCall.Value.Coercion

/-!
# Typed results

What a caller asks of a result. A plain type wants a value other than null, an optional one turns
null into nothing, `value` takes anything and `unit` drops it.
-/

namespace RemoteCall

inductive Expectation where
  | value
  | unit
  | plain (type : DeclaredType)
  | optional (type : DeclaredType)
deriving DecidableEq, Repr

namespace Expectation

/-- Converts to a type and refuses null. -/
def extractPlain (type : DeclaredType) (v : Value) : Except Failure Value := do
  let w ← v.coerce type
  if w.isNull then .error (w.mismatch type) else .ok w

def extract : Expectation → Value → Except Failure Value
  | .value, v => .ok v
  | .unit, _ => .ok .null
  | .plain type, v => extractPlain type v
  | .optional type, v => if v.isNull then .ok .null else extractPlain type v

end Expectation

end RemoteCall
