import RemoteCall.Value.Coercion

/-!
# What a conversion gives

A conversion ends in a value that has the declared type, and a value that has the type passes as it
is. So nothing is left to convert the second time. A conversion that fails names the kind of the
value and the type that was asked for.
-/

namespace RemoteCall

namespace DeclaredType

def Holds (type : DeclaredType) (v : Value) : Prop := type = .any ∨ v = .null ∨ v.label = type.name

/-- A type accepts its own kind of value and null, and no value of another kind. -/
theorem accepts_iff (type : DeclaredType) (v : Value) : type.accepts v = true ↔ type.Holds v := by
  unfold Holds
  cases type <;> cases v <;> simp [accepts, Value.label, name]

end DeclaredType

namespace Value

variable {type : DeclaredType} {v w : Value} {f : Failure}

theorem coerce_of_accepts (h : type.accepts v = true) : v.coerce type = .ok v := by
  rw [coerce, if_pos h]

/-- Each conversion ends in the constructor of its target. -/
theorem accepts_of_convert? (h : convert? type v = some w) : type.accepts w = true := by
  cases type with
  | any | bytes | map | record => cases h
  | string =>
    cases h
    rfl
  | list | set =>
    simp only [convert?] at h
    split at h <;> cases h <;> rfl
  | _ =>
    obtain ⟨n, -, rfl⟩ := Option.map_eq_some_iff.mp h
    rfl

/-- A conversion leaves a value alone that has the type, and fails if it knows no other way. -/
theorem coerce_cases (type : DeclaredType) (v : Value) :
    (type.accepts v = true ∧ v.coerce type = .ok v) ∨
      (∃ w, convert? type v = some w ∧ v.coerce type = .ok w) ∨
      v.coerce type = .error (v.mismatch type) := by
  by_cases haccepts : type.accepts v = true
  · exact .inl ⟨haccepts, coerce_of_accepts haccepts⟩
  · right
    rw [coerce, if_neg haccepts]
    cases hconvert : convert? type v with
    | none => exact .inr rfl
    | some w => exact .inl ⟨w, rfl, rfl⟩

theorem accepts_of_coerce (h : v.coerce type = .ok w) : type.accepts w = true := by
  rcases coerce_cases type v with ⟨haccepts, hok⟩ | ⟨w', hconvert, hok⟩ | herror
  · rw [hok] at h
    cases h
    exact haccepts
  · rw [hok] at h
    cases h
    exact accepts_of_convert? hconvert
  · rw [herror] at h
    cases h

theorem coerce_coerce (h : v.coerce type = .ok w) : w.coerce type = .ok w :=
  coerce_of_accepts (accepts_of_coerce h)

theorem mismatch_of_coerce (h : v.coerce type = .error f) : f = .coercion v.label type.name := by
  rcases coerce_cases type v with ⟨-, hok⟩ | ⟨w, -, hok⟩ | herror
  · rw [hok] at h
    cases h
  · rw [hok] at h
    cases h
  · rw [herror] at h
    cases h
    rfl

end Value

end RemoteCall
