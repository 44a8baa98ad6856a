import RemoteCall.Proofs.Wire.Pace
import RemoteCall.Proofs.Wire.RoundTrip

/-!
# The pace of each reader

Readers of numbers, booleans and names take single items and refuse groups. A reader of values
takes a group with the items inside it, and of a record at least as many as were written, since
the signature has a name for each of them.
-/

namespace RemoteCall.Wire

namespace Reader

/-- A reader that begins with a tag refuses a literal. -/
theorem tagOf_literal {byte : UInt8} (h : byte ≤ Tag.maxLiteral) (s : ReadState) :
    tagOf byte s = .error (.streamCorrupted (.literalForTag byte)) s := by
  rw [tagOf, if_pos h, corrupted_apply]

theorem number_headed : Headed number numberPayload where
  empty h := nomatch h
  literal hle h := by
    rw [number_literal hle] at h
    cases h
    rfl
  tagged := number_tagged ..
  leaf hleaf _ h := by
    cases hleaf with
    | fixed hw => exact Exact.numberPayload hw rfl h
    | _ => cases h
  name h := nomatch h
  group hann _ h := by cases hann <;> cases h

theorem float_headed : Headed float fun t =>
    match t with
    | .float4 => do return (← binary32).toBinary64
    | .float8 => binary64
    | other => do return .ofInt64 (← numberPayload other) where
  empty h := nomatch h
  literal hle h := by
    rw [float, bind_of_ok (lead_cons ..), if_pos hle] at h
    cases h
    rfl
  tagged {t _ _ _} := by cases t <;> rfl
  leaf {t _ _ _ _ _ _} hleaf _ h := by
    have hexact : ∀ n, t.width? = some n → Exact n (match t with
        | .float4 => do return (← binary32).toBinary64
        | .float8 => binary64
        | other => do return .ofInt64 (← numberPayload other)) := by
      intro n hn
      cases t with
      | float4 =>
        cases hn
        exact ((Exact.bigEndian _ 4).map _).map _
      | float8 =>
        cases hn
        exact (Exact.bigEndian _ 8).map _
      | _ => exact (Exact.numberPayload hn).map _
    cases hleaf with
    | fixed hw => exact hexact _ hw rfl h
    | _ => cases h
  name h := nomatch h
  group hann _ h := by cases hann <;> cases h

theorem bool_headed : Headed bool fun t =>
    match t with
    | .boolTrue => return true
    | .boolFalse => return false
    | other => corrupted (.unexpectedTag "a boolean" other) where
  empty h := nomatch h
  literal hle h := by
    rw [bool, bind_of_ok (lead_cons ..), bind_of_error (tagOf_literal hle _)] at h
    cases h
  tagged {t _ _ _} := by cases t <;> rfl
  leaf {t _ _ _ _ _ _} hleaf _ h := by
    have hexact : ∀ n, t.width? = some n → Exact n (match t with
        | .boolTrue => return true
        | .boolFalse => return false
        | other => corrupted (.unexpectedTag "a boolean" other)) := by
      intro n hn
      cases t with
      | boolTrue | boolFalse =>
        cases hn
        exact .pure _
      | _ => exact .corrupted _
    cases hleaf with
    | fixed hw => exact hexact _ hw rfl h
    | _ => cases h
  name h := nomatch h
  group hann _ h := by cases hann <;> cases h

theorem name_headed : Headed name fun t =>
    match t with
    | .tag => nameBody
    | other => corrupted (.unexpectedTag "a tag" other) where
  empty h := nomatch h
  literal hle h := by
    rw [name, bind_of_ok (lead_cons ..), bind_of_error (tagOf_literal hle _)] at h
    cases h
  tagged {t _ _ _} := by cases t <;> rfl
  leaf {t _ _ _ _ _ _} hleaf _ h := by
    cases hleaf with
    | fixed hw =>
      cases t with
      | tag => cases hw
      | _ => cases h
    | _ => cases h
  name h := ⟨_, h⟩
  group hann _ h := by cases hann <;> cases h

/-- A name that is read as a value is the string that was written. -/
theorem value_name {budget : Nat} {x : String} {ws : List Writer} {e final : NameIndex}
    {s t : ReadState} {v : Value} (hs : Ahead (.name x :: ws) e final s)
    (h : value budget s = .ok v t) : v = .string x ∧ ∃ e', Ahead ws e' final t := by
  obtain ⟨names, g, input⟩ := s
  obtain ⟨rest, rfl, hread⟩ := hs.name
  cases budget with
  | zero => cases h
  | succ budget =>
    rw [value_tagged, payload] at h
    obtain ⟨y, u, hy, h⟩ := bind_eq_ok_iff.mp h
    cases h
    obtain ⟨rfl, hnext⟩ := hread _ _ hy
    exact ⟨rfl, hnext⟩

theorem stringIn_name {budget : Nat} {x : String} {ws : List Writer} {e final : NameIndex}
    {s t : ReadState} {a : String} (hs : Ahead (.name x :: ws) e final s)
    (h : stringIn (value budget) s = .ok a t) : a = x ∧ ∃ e', Ahead ws e' final t := by
  obtain ⟨v, u, hv, h⟩ := bind_eq_ok_iff.mp h
  obtain ⟨rfl, hnext⟩ := value_name hs hv
  cases h
  exact ⟨rfl, hnext⟩

/-- A count that was read is followed by as many as were announced. -/
theorem length_bind_ok {α : Type} {f : Nat → Reader α} {n : Nat} (hn : n < 2 ^ 64)
    {names : NameTable} {g : Registry} {rest : List UInt8} {a : α} {t : ReadState}
    (h : (length >>= f) ⟨names, g, countBytes n ++ rest⟩ = .ok a t) :
    f n ⟨names, g, rest⟩ = .ok a t := by
  obtain ⟨k, u, hk, h⟩ := bind_eq_ok_iff.mp h
  obtain ⟨rfl, -, rfl⟩ := length_countBytes_ok hn hk
  exact h

section Values

variable {value : Reader Value}

theorem intoField_consumes (hvalue : Consumes 1 value) (f : Field) (r : Record) :
    Consumes 1 (intoField value f r) := by
  unfold intoField
  split
  · exact bool_headed.consumes.map _
  · exact float_headed.consumes.andThen fun x => .ofExcept _
  · exact float_headed.consumes.andThen fun x => .ofExcept _
  · exact hvalue.map _
  all_goals exact number_headed.consumes.andThen fun n => .ofExcept _

theorem intoSlot_consumes (hvalue : Consumes 1 value) (isDynamic : Bool) (r : Record)
    (slot : String × Option Field) : Consumes 1 (intoSlot value isDynamic r slot) := by
  obtain ⟨name, _ | f⟩ := slot
  · exact hvalue.map _
  · exact intoField_consumes hvalue f r

end Values

/-- The record takes an item for each name of its signature. -/
theorem recordBody_group {budget : Nat} (hvalue : Consumes 1 (value budget)) {x : String}
    {inner ws : List Writer} (hlt : inner.length < (Text.split ',' x).length) {e final : NameIndex}
    {s t : ReadState} {r : Record} (hs : Ahead (.name x :: inner ++ ws) e final s)
    (h : recordBody (value budget) s = .ok r t) :
    ∃ ws' e', Ahead ws' e' final t ∧
      Passed (inner.length + 1) (.name x :: inner ++ ws) ws' := by
  obtain ⟨y, u, hy, h⟩ := bind_eq_ok_iff.mp h
  obtain ⟨rfl, e₁, hs₁⟩ := stringIn_name hs hy
  obtain ⟨layout, u', hres, h⟩ := bind_eq_ok_iff.mp h
  obtain ⟨hlayout, rfl⟩ := resolve_eq_ok_iff.mp hres
  obtain ⟨hkeeps, hslots⟩ := hs₁.keepsSlots.resolve y
  have hfold := Consumes.foldlM (intoSlot_consumes hvalue layout.isDynamic) layout.slots
    layout.blank
  obtain ⟨ws', e', hs', hpassed⟩ := hfold (hs₁.withRegistry hkeeps) h
  have hfirst : Passed 1 (.name y :: inner ++ ws) (inner ++ ws) := .inl ⟨by simp, rfl⟩
  have hlength := hslots layout hlayout
  exact ⟨ws', e', hs', (hfirst.trans hpassed).of_le (by omega)⟩

theorem payload_leaf {budget : Nat} {t : Tag} {bytes : List UInt8} (hleaf : IsLeaf t bytes)
    (hlt : bytes.length < 2 ^ 64) {names : NameTable} {g : Registry} {rest : List UInt8} {v : Value}
    {s : ReadState} (h : payload (value budget) t ⟨names, g, bytes ++ rest⟩ = .ok v s) :
    s = ⟨names, g, rest⟩ := by
  cases hleaf with
  | fixed hw => exact Exact.payload hw _ rfl h
  | string x =>
    have hunits := length_units_le x
    obtain ⟨y, u, hy, h⟩ := bind_eq_ok_iff.mp h
    obtain ⟨-, rfl⟩ := stringBody_ok (by omega) hy
    cases h
    rfl
  | bytes data | foreign data =>
    rw [List.length_append] at hlt
    obtain ⟨y, u, hy, h⟩ := bind_eq_ok_iff.mp h
    rw [List.append_assoc] at hy
    obtain ⟨-, rfl⟩ := byteData_ok (by omega) hy
    cases h
    rfl

theorem payload_group {budget : Nat} (hvalue : Consumes 1 (value budget)) {t : Tag}
    {bytes : List UInt8} {inner ws : List Writer} (hann : Announces t bytes inner)
    {e final : NameIndex} {names : NameTable} {g : Registry} {rest : List UInt8} {v : Value}
    {s : ReadState} (hs : Ahead (inner ++ ws) e final ⟨names, g, rest⟩)
    (h : payload (value budget) t ⟨names, g, bytes ++ rest⟩ = .ok v s) :
    ∃ ws' e', Ahead ws' e' final s ∧ Passed inner.length (inner ++ ws) ws' := by
  have hcount : inner.length < 2 ^ 64 := by
    have hle := hs.length_le
    have hlt := hs.length_lt
    rw [List.length_append] at hle
    omega
  cases hann with
  | array x ws₀ =>
    rw [List.length_cons] at hcount ⊢
    have hread := hvalue.stringIn.bind fun component =>
      (hvalue.times ws₀.length).map (Value.array component)
    obtain ⟨ws', e', hs', hpassed⟩ := hread hs (length_bind_ok (by omega) h)
    exact ⟨ws', e', hs', hpassed.of_le (by omega)⟩
  | list ws₀ =>
    obtain ⟨ws', e', hs', hpassed⟩ :=
      (hvalue.times inner.length).map Value.list hs (length_bind_ok hcount h)
    exact ⟨ws', e', hs', hpassed.of_le (by omega)⟩
  | set ws₀ =>
    obtain ⟨ws', e', hs', hpassed⟩ :=
      (hvalue.times inner.length).map Value.set hs (length_bind_ok hcount h)
    exact ⟨ws', e', hs', hpassed.of_le (by omega)⟩
  | @map n ws₀ hn =>
    have hpair : Consumes 2 (pair (value budget) (value budget)) :=
      hvalue.bind fun a => hvalue.map _
    obtain ⟨ws', e', hs', hpassed⟩ :=
      (hpair.times n).map Value.map hs (length_bind_ok (by omega) h)
    exact ⟨ws', e', hs', hpassed.of_le (by omega)⟩
  | entry key w =>
    exact (hvalue.bind fun key => hvalue.map (Value.entry key)) hs h
  | enum x =>
    refine (hvalue.stringIn.andThen fun x => Consumes.map ?_ Value.enum) hs h
    unfold enumName
    split
    · exact .pure _
    · exact .throw _
  | record hlt =>
    obtain ⟨r, u, hr, h⟩ := bind_eq_ok_iff.mp h
    cases h
    exact recordBody_group hvalue hlt hs hr
  | className x => exact hvalue.stringIn.map _ hs h
  | fieldSignature x => exact hvalue.stringIn.map _ hs h

theorem value_headed {budget : Nat} (hvalue : Consumes 1 (value budget)) :
    Headed (value (budget + 1)) (payload (value budget)) where
  empty h := nomatch h
  literal hle h := by
    rw [value_literal hle] at h
    cases h
    rfl
  tagged := value_tagged ..
  leaf hleaf hlt h := payload_leaf hleaf hlt h
  name h := by
    obtain ⟨x, u, hx, h⟩ := bind_eq_ok_iff.mp h
    cases h
    exact ⟨x, hx⟩
  group hann hs h := payload_group hvalue hann hs h

theorem value_consumes (budget : Nat) : Consumes 1 (value budget) := by
  induction budget with
  | zero => exact fun _ _ _ _ _ _ _ h => nomatch h
  | succ budget ih => exact (value_headed ih).consumes

end Reader

end RemoteCall.Wire
