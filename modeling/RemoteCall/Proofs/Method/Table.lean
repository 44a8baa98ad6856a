import RemoteCall.Client.Basic
import RemoteCall.Method.Table
import RemoteCall.Proofs.Failure.Relay

/-!
# What a call comes to

A call that is made next to its table and a call that is made over a connection differ only in the
frames of the failures. The outcome of the local call is given here by the first method that
matches; what a server relays of it, and what the caller makes of what is relayed, is the same.
-/

namespace RemoteCall

def RemoteFailure.seenWith (f : RemoteFailure) (frames : List String) : Failure :=
  if f.kind = methodNotFoundKind then .methodNotFound f.message
  else .remote ⟨f.kind, f.message, f.stack ++ frames⟩

namespace MethodTable

variable (t : MethodTable)

/-- The outcome of a call of the first method that matches it. Failures get the frame of the method
and those of the caller. -/
def localOutcome (callerFrames : List String) (name : String) (args : List Value) : CallOutcome :=
  let frames := t.frame name :: callerFrames
  match t.methods.find? (·.matchesCall name args.length) with
  | none => .error (.methodNotFound (callSite name args.length))
  | some m =>
    match coerceArgs m.params args with
    | .error f => .error (.remote ⟨"IllegalArgument", f.message, frames⟩)
    | .ok args =>
      if m.isDisconnectHook then .ok .null
      else
        match m.body args with
        | .value v => .ok v
        | .failure f => .error (f.seenWith frames)
        | .panic text? => .error (.remote ⟨"Panic", text?.getD "provider panicked", frames⟩)

/-- How a call ends when the body of its method ends so. Failures get the frame of the method. -/
inductive ComesTo (call : ResolvedCall) : Except RemoteFailure Value → Prop
  | value {m : Method} {v : Value} (hm : t.methods[call.index]? = some m)
    (h : m.body call.args = .value v) : ComesTo call (.ok v)
  | failure {m : Method} {f : RemoteFailure} (hm : t.methods[call.index]? = some m)
    (h : m.body call.args = .failure f) :
    ComesTo call (.error ⟨f.kind, f.message, f.stack ++ [t.frame m.name]⟩)
  | panic {m : Method} {text? : Option String} (hm : t.methods[call.index]? = some m)
    (h : m.body call.args = .panic text?) :
    ComesTo call (.error ⟨"Panic", text?.getD "provider panicked", [t.frame m.name]⟩)

def relayed (name : String) (args : List Value) : Except RemoteFailure Value :=
  match t.resolve name args with
  | .error f => .error (t.resolutionFailure name f)
  | .ok call => if t.isHook call then .ok .null else t.invoke call

variable {t} {name : String} {args : List Value}

theorem comesTo_invoke {call : ResolvedCall} {m : Method}
    (hm : t.methods[call.index]? = some m) : t.ComesTo call (t.invoke call) := by
  simp only [invoke, hm]
  cases hbody : m.body call.args with
  | value v => exact .value hm hbody
  | failure f => exact .failure hm hbody
  | panic text? => exact .panic hm hbody

theorem exists_method_of_isHook {call : ResolvedCall} (h : t.isHook call = true) :
    ∃ m, t.methods[call.index]? = some m := by
  unfold isHook at h
  split at h
  · exact ⟨_, ‹_›⟩
  · cases h

theorem resolve_of_none (h : t.methods.find? (·.matchesCall name args.length) = none) :
    t.resolve name args = .error (.methodNotFound (callSite name args.length)) := by
  have hindex : t.methods.findIdx? (·.matchesCall name args.length) = none := by
    rw [List.findIdx?_eq_none_iff]
    exact fun m hm => Bool.eq_false_iff.mpr (List.find?_eq_none.mp h m hm)
  simp only [resolve, hindex]

theorem resolve_of_some {m : Method}
    (h : t.methods.find? (·.matchesCall name args.length) = some m) :
    ∃ index, t.methods[index]? = some m ∧
      t.resolve name args = (coerceArgs m.params args).map fun args => ⟨index, args⟩ := by
  rw [List.find?_eq_bind_findIdx?_getElem?, Option.bind_eq_some_iff] at h
  obtain ⟨index, hindex, hm⟩ := h
  exact ⟨index, hm, by simp only [resolve, hindex, hm]⟩

theorem name_of_find? {m : Method}
    (h : t.methods.find? (·.matchesCall name args.length) = some m) : m.name = name := by
  have hmatch := List.find?_some h
  rw [Method.matchesCall, Bool.and_eq_true] at hmatch
  exact beq_iff_eq.mp hmatch.1

theorem coerceArgs_error {types : List DeclaredType} {f : Failure}
    (h : coerceArgs types args = .error f) : ∃ found wanted, f = .coercion found wanted := by
  induction types generalizing args with
  | nil => cases h
  | cons type types ih =>
    cases args with
    | nil => cases h
    | cons v vs =>
      rw [coerceArgs] at h
      cases hv : v.coerce type with
      | error e =>
        rw [hv] at h
        cases h
        unfold Value.coerce at hv
        split at hv
        · cases hv
        · split at hv
          · cases hv
          · cases hv
            exact ⟨_, _, rfl⟩
      | ok w =>
        cases hvs : coerceArgs types vs with
        | error e =>
          rw [hv, hvs] at h
          cases h
          exact ih hvs
        | ok ws =>
          rw [hv, hvs] at h
          cases h

theorem relayed_of_none (h : t.methods.find? (·.matchesCall name args.length) = none) :
    t.relayed name args = .error ⟨RemoteFailure.methodNotFoundKind, callSite name args.length,
      [t.frame name]⟩ := by
  simp only [relayed, resolve_of_none h]
  rfl

theorem relayed_of_error {m : Method} {f : Failure}
    (h : t.methods.find? (·.matchesCall name args.length) = some m)
    (hargs : coerceArgs m.params args = .error f) :
    t.relayed name args = .error ⟨"IllegalArgument", f.message, [t.frame name]⟩ := by
  obtain ⟨index, -, hresolve⟩ := resolve_of_some h
  obtain ⟨found, wanted, rfl⟩ := coerceArgs_error hargs
  rw [hargs] at hresolve
  simp only [relayed, hresolve]
  rfl

theorem relayed_of_hook {m : Method} {converted : List Value}
    (h : t.methods.find? (·.matchesCall name args.length) = some m)
    (hargs : coerceArgs m.params args = .ok converted) (hhook : m.isDisconnectHook = true) :
    t.relayed name args = .ok .null := by
  obtain ⟨index, hm, hresolve⟩ := resolve_of_some h
  rw [hargs] at hresolve
  simp only [relayed, hresolve, Except.map, isHook, hm, hhook, if_true]

theorem relayed_of_body {m : Method} {converted : List Value}
    (h : t.methods.find? (·.matchesCall name args.length) = some m)
    (hargs : coerceArgs m.params args = .ok converted) (hhook : m.isDisconnectHook = false) :
    t.relayed name args =
      match m.body converted with
      | .value v => .ok v
      | .failure f => .error (f.pushFrame (t.frame name))
      | .panic text? => .error ((panicFailure text?).pushFrame (t.frame name)) := by
  obtain ⟨index, hm, hresolve⟩ := resolve_of_some h
  rw [hargs] at hresolve
  simp only [relayed, hresolve, Except.map, isHook, hm, hhook, invoke, name_of_find? h]
  rfl

/-- The caller makes of a relayed failure what was relayed, with its own frames behind. -/
theorem outcome_ofOutcome_error (sequence : UInt64) (f : RemoteFailure) (peer : PeerAddress)
    (site : String) :
    (Reply.ofOutcome sequence (.error f)).outcome peer site =
      .error (f.seenWith [RemoteFailure.spliceMarker peer.host peer.port, site]) := by
  have hback := RemoteFailure.ofValue_toValue f
  simp only [Reply.outcome, Reply.ofOutcome, hback]
  rfl

/-- A reply tells the caller what the call would have come to next to its table. -/
theorem outcome_relayed (t : MethodTable) (name : String) (args : List Value) (sequence : UInt64)
    (peer : PeerAddress) (site : String) :
    (Reply.ofOutcome sequence (t.relayed name args)).outcome peer site =
      t.localOutcome [RemoteFailure.spliceMarker peer.host peer.port, site] name args := by
  have hmore : ∀ (f : RemoteFailure) (frames : List String),
      (f.pushFrame (t.frame name)).seenWith frames = f.seenWith (t.frame name :: frames) := by
    intro f frames
    simp only [RemoteFailure.seenWith, RemoteFailure.pushFrame, List.append_assoc,
      List.singleton_append]
  unfold localOutcome
  cases h : t.methods.find? (·.matchesCall name args.length) with
  | none =>
    rw [relayed_of_none h, outcome_ofOutcome_error]
    rfl
  | some m =>
    dsimp only
    cases hargs : coerceArgs m.params args with
    | error f =>
      rw [relayed_of_error h hargs, outcome_ofOutcome_error]
      rfl
    | ok converted =>
      cases hhook : m.isDisconnectHook with
      | true =>
        rw [relayed_of_hook h hargs hhook]
        rfl
      | false =>
        rw [relayed_of_body h hargs hhook]
        cases hbody : m.body converted with
        | value v => simp [Reply.outcome, Reply.ofOutcome, hbody]
        | failure f => simp only [hbody, outcome_ofOutcome_error, hmore]; rfl
        | panic text? => simp only [hbody, outcome_ofOutcome_error, hmore]; rfl

end MethodTable

end RemoteCall
