import RemoteCall.Method.Table

/-!
# Identical values are equal

The comparison that asks for the same bits of floating point numbers finds exactly equal trees. So
it is an equivalence relation, NaN included, and calls are the same if method and arguments are
equal.
-/

namespace RemoteCall

namespace Value

mutual

theorem alike_bitwise_iff (v w : Value) : alike .bitwise v w = true ↔ v = w := by
  cases v with
  | array component items =>
    cases w with
    | array component' items' => simp [alike, itemsAlike_bitwise_iff items items']
    | _ => simp [alike]
  | list items =>
    cases w with
    | list items' => simp [alike, itemsAlike_bitwise_iff items items']
    | _ => simp [alike]
  | set items =>
    cases w with
    | set items' => simp [alike, itemsAlike_bitwise_iff items items']
    | _ => simp [alike]
  | map entries =>
    cases w with
    | map entries' => simp [alike, entriesAlike_bitwise_iff entries entries']
    | _ => simp [alike]
  | entry k u =>
    cases w with
    | entry k' u' => simp [alike, alike_bitwise_iff k k', alike_bitwise_iff u u']
    | _ => simp [alike]
  | record r =>
    obtain ⟨typeName, fields⟩ := r
    cases w with
    | record r' =>
      cases r'
      simp [alike, fieldsAlike_bitwise_iff fields]
    | _ => simp [alike]
  | _ => cases w <;> simp [alike, FloatComparison.bitwise]
termination_by structural v

theorem itemsAlike_bitwise_iff (vs ws : List Value) :
    itemsAlike .bitwise vs ws = true ↔ vs = ws := by
  cases vs with
  | nil => cases ws <;> simp [itemsAlike]
  | cons v vs =>
    cases ws with
    | nil => simp [itemsAlike]
    | cons w ws => simp [itemsAlike, alike_bitwise_iff v w, itemsAlike_bitwise_iff vs ws]
termination_by structural vs

theorem entriesAlike_bitwise_iff (vs ws : List (Value × Value)) :
    entriesAlike .bitwise vs ws = true ↔ vs = ws := by
  cases vs with
  | nil => cases ws <;> simp [entriesAlike]
  | cons p vs =>
    obtain ⟨k, v⟩ := p
    cases ws with
    | nil => simp [entriesAlike]
    | cons q ws =>
      simp [entriesAlike, alike_bitwise_iff k q.1, alike_bitwise_iff v q.2,
        entriesAlike_bitwise_iff vs ws, Prod.ext_iff]
termination_by structural vs

theorem fieldsAlike_bitwise_iff (vs ws : List (String × Value)) :
    fieldsAlike .bitwise vs ws = true ↔ vs = ws := by
  cases vs with
  | nil => cases ws <;> simp [fieldsAlike]
  | cons p vs =>
    obtain ⟨name, v⟩ := p
    cases ws with
    | nil => simp [fieldsAlike]
    | cons q ws =>
      simp [fieldsAlike, alike_bitwise_iff v q.2, fieldsAlike_bitwise_iff vs ws, Prod.ext_iff]
termination_by structural vs

end

instance : DecidableEq Value := fun v w => decidable_of_iff _ (alike_bitwise_iff v w)

end Value

theorem ResolvedCall.sameCall_iff {a b : ResolvedCall} : a.sameCall b = true ↔ a = b := by
  cases a
  cases b
  simp [sameCall, Value.itemsAlike_bitwise_iff]

instance : DecidableEq ResolvedCall := fun _ _ =>
  decidable_of_iff _ ResolvedCall.sameCall_iff

end RemoteCall
