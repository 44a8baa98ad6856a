import RemoteCall.Failure.Relay
import RemoteCall.Value.Coercion
import RemoteCall.Value.Identity

/-!
# Method tables

A table holds methods in the order in which they were added. A call resolves to the first method
of its name and number of arguments; only then are the arguments converted to the declared types.
A method marked as a disconnect hook runs when the connection of its caller closes. Whatever a
method does, running it ends in a value or in a failure with a frame that names the method.
-/

namespace RemoteCall

/-- How the body of a method ends. A panic may carry a text. -/
inductive MethodOutcome where
  | value (v : Value)
  | failure (f : RemoteFailure)
  | panic (text? : Option String)

structure Method where
  name : String
  params : List DeclaredType
  isDisconnectHook : Bool
  body : List Value → MethodOutcome

namespace Method

def arity (m : Method) : Nat := m.params.length

def matchesCall (m : Method) (name : String) (arity : Nat) : Bool :=
  m.name == name && m.arity == arity

end Method

/-- The index of a method in its table, and arguments of its declared types. -/
structure ResolvedCall where
  index : Nat
  args : List Value

namespace ResolvedCall

/-- The same method with bit-identical arguments. -/
def sameCall (a b : ResolvedCall) : Bool :=
  a.index == b.index && Value.itemsAlike .bitwise a.args b.args

/-- The same method with equal arguments, in which NaN equals nothing. -/
def equal (a b : ResolvedCall) : Bool :=
  a.index == b.index && Value.itemsAlike .ieee a.args b.args

end ResolvedCall

structure MethodTable where
  name : String
  methods : List Method

namespace MethodTable

variable (t : MethodTable)

/-- The arguments of a call converted to the parameter types, up to the first that does not
convert. -/
def coerceArgs : List DeclaredType → List Value → Except Failure (List Value)
  | type :: types, v :: vs => do
    let w ← v.coerce type
    let ws ← coerceArgs types vs
    return w :: ws
  | _, _ => .ok []

/-- How calls without a matching method name it. -/
def callSite (name : String) (arity : Nat) : String := name ++ "/" ++ Nat.repr arity

def resolve (name : String) (args : List Value) : Except Failure ResolvedCall :=
  match t.methods.findIdx? (·.matchesCall name args.length) with
  | none => .error (.methodNotFound (callSite name args.length))
  | some index =>
    match t.methods[index]? with
    | none => .error (.methodNotFound (callSite name args.length))
    | some m => (coerceArgs m.params args).map fun args => ⟨index, args⟩

/-- The frame that failures of a method get. -/
def frame (method : String) : String := t.name ++ "." ++ method

def panicFailure (text? : Option String) : RemoteFailure :=
  .ofKind RemoteFailure.panicKind (text?.getD "provider panicked")

def invoke (call : ResolvedCall) : Except RemoteFailure Value :=
  match t.methods[call.index]? with
  | none => .error (.ofKind RemoteFailure.methodNotFoundKind ("#" ++ Nat.repr call.index))
  | some m =>
    match m.body call.args with
    | .value v => .ok v
    | .failure f => .error (f.pushFrame (t.frame m.name))
    | .panic text? => .error ((panicFailure text?).pushFrame (t.frame m.name))

def isHook (call : ResolvedCall) : Bool :=
  match t.methods[call.index]? with
  | some m => m.isDisconnectHook
  | none => false

/-- The failure of a call that does not resolve, as it is relayed to the caller. -/
def resolutionFailure (method : String) (f : Failure) : RemoteFailure :=
  f.relayed.pushFrame (t.frame method)

end MethodTable

end RemoteCall
