import Mathlib.Data.List.Forall2
import RemoteCall.Proofs.Method.Table
import RemoteCall.Proofs.Value.Coercion
import RemoteCall.Proofs.Value.Identity

/-!
# The resolution of a call

A call resolves to the first method of its name and number of arguments, and only if each argument
converts to the type declared there. The converted arguments have their types, so that resolving
them again leads to the same call. A call that does not resolve has no method, or an argument that
is the first not to convert.
-/

namespace RemoteCall

namespace MethodTable

/-! ## Arguments -/

inductive Converts : List DeclaredType → List Value → List Value → Prop where
  | nil : Converts [] [] []
  | cons {type : DeclaredType} {types : List DeclaredType} {v w : Value} {vs ws : List Value}
      (head : v.coerce type = .ok w) (tail : Converts types vs ws) :
      Converts (type :: types) (v :: vs) (w :: ws)

/-- The argument at a position is the first that does not convert to its type. -/
structure IsMisfit (types : List DeclaredType) (args : List Value) (position : Nat)
    (type : DeclaredType) (v : Value) : Prop where
  type_at : types[position]? = some type
  arg_at : args[position]? = some v
  fails : ¬∃ w, v.coerce type = .ok w
  earlier : ∀ i < position, ∀ type' v', types[i]? = some type' → args[i]? = some v' →
    ∃ w, v'.coerce type' = .ok w

variable {t : MethodTable} {name : String} {index : Nat} {m : Method}
variable {types : List DeclaredType} {args ws : List Value}

theorem Converts.coerceArgs_eq (h : Converts types args ws) : coerceArgs types args = .ok ws := by
  induction h with
  | nil => rfl
  | cons head _ ih =>
    rw [coerceArgs, head, ih]
    rfl

theorem exists_converts_iff :
    (∃ ws, Converts types args ws) ↔
      List.Forall₂ (fun type v => ∃ w, v.coerce type = .ok w) types args := by
  constructor
  · rintro ⟨ws, h⟩
    induction h with
    | nil => exact .nil
    | cons head _ ih => exact .cons ⟨_, head⟩ ih
  · intro h
    induction h with
    | nil => exact ⟨[], .nil⟩
    | cons head _ ih =>
      obtain ⟨w, hw⟩ := head
      obtain ⟨ws, hws⟩ := ih
      exact ⟨w :: ws, .cons hw hws⟩

theorem Converts.length_eq (h : Converts types args ws) : ws.length = args.length := by
  induction h with
  | nil => rfl
  | cons _ _ ih => rw [List.length_cons, List.length_cons, ih]

theorem Converts.holds (h : Converts types args ws) :
    List.Forall₂ DeclaredType.Holds types ws := by
  induction h with
  | nil => exact .nil
  | cons head _ ih =>
    exact .cons ((DeclaredType.accepts_iff _ _).mp (Value.accepts_of_coerce head)) ih

theorem Converts.again (h : Converts types args ws) : Converts types ws ws := by
  induction h with
  | nil => exact .nil
  | cons head _ ih => exact .cons (Value.coerce_coerce head) ih

theorem IsMisfit.cons {position : Nat} {type type' : DeclaredType} {v v' w : Value}
    (h : IsMisfit types args position type v) (hfirst : v'.coerce type' = .ok w) :
    IsMisfit (type' :: types) (v' :: args) (position + 1) type v where
  type_at := h.type_at
  arg_at := h.arg_at
  fails := h.fails
  earlier := by
    intro i hi type'' v'' htype harg
    cases i with
    | zero =>
      cases htype
      cases harg
      exact ⟨w, hfirst⟩
    | succ i => exact h.earlier i (Nat.lt_of_succ_lt_succ hi) type'' v'' htype harg

/-- Arguments of the right number convert all, or there is a first that does not. -/
theorem coerceArgs_cases (hlength : types.length = args.length) :
    (∃ ws, Converts types args ws) ∨
      ∃ position type v, IsMisfit types args position type v ∧
        coerceArgs types args = .error (.coercion v.label type.name) := by
  induction types generalizing args with
  | nil =>
    rw [List.length_nil] at hlength
    rw [List.length_eq_zero_iff.mp hlength.symm]
    exact .inl ⟨[], .nil⟩
  | cons type types ih =>
    cases args with
    | nil => cases hlength
    | cons v vs =>
      cases hv : v.coerce type with
      | error f =>
        have hf : f = .coercion v.label type.name := Value.mismatch_of_coerce hv
        have hmisfit : IsMisfit (type :: types) (v :: vs) 0 type v := by
          constructor
          · rfl
          · rfl
          · rintro ⟨w, hw⟩
            rw [hv] at hw
            cases hw
          · intro i hi
            omega
        right
        exact ⟨0, type, v, hmisfit, by rw [coerceArgs, hv, hf]; rfl⟩
      | ok w =>
        rcases ih (Nat.succ.inj hlength) with ⟨ws, hws⟩ | ⟨position, type', v', hmisfit, hrest⟩
        · exact .inl ⟨w :: ws, .cons hv hws⟩
        · right
          exact ⟨position + 1, type', v', hmisfit.cons hv, by rw [coerceArgs, hv, hrest]; rfl⟩

/-! ## Methods -/

structure IsFirst (t : MethodTable) (name : String) (arity index : Nat) (m : Method) : Prop where
  at_index : t.methods[index]? = some m
  name_eq : m.name = name
  arity_eq : m.arity = arity
  least : ∀ i < index, ∀ other, t.methods[i]? = some other →
    ¬(other.name = name ∧ other.arity = arity)

theorem matchesCall_iff {arity : Nat} :
    m.matchesCall name arity = true ↔ m.name = name ∧ m.arity = arity := by
  rw [Method.matchesCall, Bool.and_eq_true, beq_iff_eq, beq_iff_eq]

theorem IsFirst.findIdx?_eq {arity : Nat} (h : t.IsFirst name arity index m) :
    t.methods.findIdx? (·.matchesCall name arity) = some index := by
  obtain ⟨hindex, hm⟩ := List.getElem?_eq_some_iff.mp h.at_index
  rw [List.findIdx?_eq_some_iff_getElem]
  refine ⟨hindex, ?_, ?_⟩
  · rw [hm]
    exact matchesCall_iff.mpr ⟨h.name_eq, h.arity_eq⟩
  · intro i hi hmatch
    exact h.least i hi _ (List.getElem?_eq_getElem (by omega)) (matchesCall_iff.mp hmatch)

/-- The call goes to the first method, whose types decide on the arguments. -/
theorem IsFirst.resolve_eq (h : t.IsFirst name args.length index m) :
    t.resolve name args = (coerceArgs m.params args).map fun args => ⟨index, args⟩ := by
  simp only [resolve, h.findIdx?_eq, h.at_index]

theorem resolve_cases (t : MethodTable) (name : String) (args : List Value) :
    (∃ index m, t.IsFirst name args.length index m) ∨
      ((∀ m ∈ t.methods, ¬(m.name = name ∧ m.arity = args.length)) ∧
        t.resolve name args = .error (.methodNotFound (callSite name args.length))) := by
  cases hfind : t.methods.findIdx? (·.matchesCall name args.length) with
  | none =>
    right
    rw [List.findIdx?_eq_none_iff] at hfind
    constructor
    · intro m hm hmatch
      exact Bool.eq_false_iff.mp (hfind m hm) (matchesCall_iff.mpr hmatch)
    · apply resolve_of_none
      rw [List.find?_eq_none]
      exact fun m hm => Bool.eq_false_iff.mp (hfind m hm)
  | some index =>
    left
    obtain ⟨hindex, hmatch, hleast⟩ := List.findIdx?_eq_some_iff_getElem.mp hfind
    obtain ⟨hname, harity⟩ := matchesCall_iff.mp hmatch
    refine ⟨index, t.methods[index], List.getElem?_eq_getElem hindex, hname, harity, ?_⟩
    intro i hi other hother hsame
    obtain ⟨hlt, rfl⟩ := List.getElem?_eq_some_iff.mp hother
    exact hleast i hi (matchesCall_iff.mpr hsame)

/-- Where the arguments convert, the call resolves to the first method with what they became. -/
theorem IsFirst.resolve_of_converts (h : t.IsFirst name args.length index m)
    (hargs : Converts m.params args ws) : t.resolve name args = .ok ⟨index, ws⟩ := by
  rw [h.resolve_eq, hargs.coerceArgs_eq]
  rfl

/-- The three ways in which the resolution of a call ends. -/
theorem resolve_outcome (t : MethodTable) (name : String) (args : List Value) :
    (∃ index m ws, t.IsFirst name args.length index m ∧ Converts m.params args ws ∧
      t.resolve name args = .ok ⟨index, ws⟩) ∨
    (∃ index m position type v, t.IsFirst name args.length index m ∧
      IsMisfit m.params args position type v ∧
      t.resolve name args = .error (.coercion v.label type.name)) ∨
    ((∀ m ∈ t.methods, ¬(m.name = name ∧ m.arity = args.length)) ∧
      t.resolve name args = .error (.methodNotFound (callSite name args.length))) := by
  rcases resolve_cases t name args with ⟨index, m, hfirst⟩ | hnone
  · rcases coerceArgs_cases hfirst.arity_eq with ⟨ws, hws⟩ | ⟨position, type, v, hmisfit, herror⟩
    · left
      exact ⟨index, m, ws, hfirst, hws, hfirst.resolve_of_converts hws⟩
    · right
      left
      exact ⟨index, m, position, type, v, hfirst, hmisfit, by rw [hfirst.resolve_eq, herror]; rfl⟩
  · exact .inr (.inr hnone)

theorem exists_resolve_iff :
    (∃ call, t.resolve name args = .ok call) ↔
      ∃ index m, t.IsFirst name args.length index m ∧
        List.Forall₂ (fun type v => ∃ w, v.coerce type = .ok w) m.params args := by
  constructor
  · rintro ⟨call, hcall⟩
    rcases resolve_outcome t name args with ⟨index, m, ws, hfirst, hws, -⟩ |
      ⟨_, _, _, _, _, -, -, herror⟩ | ⟨-, herror⟩
    · exact ⟨index, m, hfirst, exists_converts_iff.mp ⟨ws, hws⟩⟩
    · rw [herror] at hcall
      cases hcall
    · rw [herror] at hcall
      cases hcall
  · rintro ⟨index, m, hfirst, hargs⟩
    obtain ⟨ws, hws⟩ := exists_converts_iff.mpr hargs
    exact ⟨⟨index, ws⟩, hfirst.resolve_of_converts hws⟩

theorem of_resolve_ok {call : ResolvedCall} (h : t.resolve name args = .ok call) :
    ∃ m, t.IsFirst name args.length call.index m ∧ Converts m.params args call.args := by
  rcases resolve_outcome t name args with ⟨index, m, ws, hfirst, hws, hok⟩ |
    ⟨_, _, _, _, _, -, -, herror⟩ | ⟨-, herror⟩
  · rw [hok] at h
    cases h
    exact ⟨m, hfirst, hws⟩
  · rw [herror] at h
    cases h
  · rw [herror] at h
    cases h

theorem of_resolve_error {f : Failure} (h : t.resolve name args = .error f) :
    (f = .methodNotFound (callSite name args.length) ∧
      ∀ m ∈ t.methods, ¬(m.name = name ∧ m.arity = args.length)) ∨
    ∃ index m position type v, t.IsFirst name args.length index m ∧
      IsMisfit m.params args position type v ∧ f = .coercion v.label type.name := by
  rcases resolve_outcome t name args with ⟨_, _, _, -, -, hok⟩ |
    ⟨index, m, position, type, v, hfirst, hmisfit, herror⟩ | ⟨hnone, herror⟩
  · rw [hok] at h
    cases h
  · rw [herror] at h
    cases h
    exact .inr ⟨index, m, position, type, v, hfirst, hmisfit, rfl⟩
  · rw [herror] at h
    cases h
    exact .inl ⟨rfl, hnone⟩

/-- A call resolves exactly if there is a first method for it and each argument converts to the
type declared there. The converted arguments have their types and resolve to the same call again. A
failure says that there is no method, or names the first argument that does not convert. -/
theorem resolve_first_match (t : MethodTable) (name : String) (args : List Value) :
    ((∃ call, t.resolve name args = .ok call) ↔
      ∃ index m, t.IsFirst name args.length index m ∧
        List.Forall₂ (fun type v => ∃ w, v.coerce type = .ok w) m.params args) ∧
    (∀ call, t.resolve name args = .ok call →
      ∃ m, t.IsFirst name args.length call.index m ∧ Converts m.params args call.args ∧
        List.Forall₂ DeclaredType.Holds m.params call.args ∧
        ∃ again, t.resolve name call.args = .ok again ∧ call.sameCall again = true) ∧
    ∀ f, t.resolve name args = .error f →
      (f = .methodNotFound (callSite name args.length) ∧
        ∀ m ∈ t.methods, ¬(m.name = name ∧ m.arity = args.length)) ∨
      ∃ index m position type v, t.IsFirst name args.length index m ∧
        IsMisfit m.params args position type v ∧ f = .coercion v.label type.name := by
  refine ⟨exists_resolve_iff, ?_, fun _ => of_resolve_error⟩
  intro call hcall
  obtain ⟨m, hfirst, hargs⟩ := of_resolve_ok hcall
  have hagain : t.IsFirst name call.args.length call.index m := by
    rw [hargs.length_eq]
    exact hfirst
  exact ⟨m, hfirst, hargs, hargs.holds, call, hagain.resolve_of_converts hargs.again,
    ResolvedCall.sameCall_iff.mpr rfl⟩

end MethodTable

end RemoteCall
