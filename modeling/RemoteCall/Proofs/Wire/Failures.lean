import RemoteCall.Call
import RemoteCall.Proofs.Schema.Registry
import RemoteCall.Proofs.Wire.Bytes

/-!
# How readers fail

A reader touches the registry only to resolve signatures. It fails because bytes are not understood,
or because a field refuses the number that was read for it. So what resolving preserves holds of the
registry after every read, and every failure is of a sort that covers both.
-/

namespace RemoteCall

namespace Wire

/-- What resolving preserves, and a sort of failures that readers do not leave. -/
structure ReadPolicy (P : Registry → Prop) (F : Failure → Prop) : Prop where
  corrupted : ∀ cause, F (.streamCorrupted cause)
  resolve : ∀ {g} signature, P g → P (g.resolve signature).2
  setInt : ∀ {g signature layout name f r n e}, P g → (g.resolve signature).1 = .ok layout →
    (name, some f) ∈ layout.slots → f.setInt r n = .error e → F e

def Reader.Keeps {α : Type} (P : Registry → Prop) (F : Failure → Prop) (r : Reader α) : Prop :=
  ∀ s, P s.registry →
    match r s with
    | .ok _ t => P t.registry
    | .error e t => P t.registry ∧ F e

namespace Reader.Keeps

variable {α β : Type} {P : Registry → Prop} {F : Failure → Prop} {r : Reader α}

theorem ok (hr : Keeps P F r) {s t : ReadState} {a : α} (hs : P s.registry) (h : r s = .ok a t) :
    P t.registry := by
  have hkept := hr s hs
  rwa [h] at hkept

theorem error (hr : Keeps P F r) {s t : ReadState} {e : Failure} (hs : P s.registry)
    (h : r s = .error e t) : P t.registry ∧ F e := by
  have hkept := hr s hs
  rwa [h] at hkept

theorem pure (a : α) : Keeps P F (Pure.pure a : Reader α) := fun _ hs => hs

theorem throw {e : Failure} (he : F e) : Keeps P F (MonadExcept.throw e : Reader α) :=
  fun _ hs => ⟨hs, he⟩

theorem bind (hr : Keeps P F r) {f : α → Reader β} (hf : ∀ a, Keeps P F (f a)) :
    Keeps P F (r >>= f) := by
  intro s hs
  cases h : r s with
  | ok a t =>
    rw [bind_of_ok h]
    exact hf a t (hr.ok hs h)
  | error e t =>
    rw [bind_of_error h]
    exact hr.error hs h

theorem map (hr : Keeps P F r) (f : α → β) : Keeps P F (r >>= fun a => Pure.pure (f a)) :=
  hr.bind fun a => .pure (f a)

theorem times (hr : Keeps P F r) (n : Nat) : Keeps P F (Reader.times r n) := by
  induction n with
  | zero => exact .pure []
  | succ n ih => exact hr.bind fun a => ih.map _

theorem foldlM {σ ρ : Type} {step : ρ → σ → Reader ρ} {as : List σ}
    (h : ∀ a ∈ as, ∀ b, Keeps P F (step b a)) (b : ρ) : Keeps P F (as.foldlM step b) := by
  induction as generalizing b with
  | nil => exact .pure b
  | cons a as ih =>
    rw [List.foldlM_cons]
    exact (h a (List.mem_cons_self ..) b).bind
      (ih fun a' ha' => h a' (List.mem_cons_of_mem _ ha'))

theorem ofExcept {result : Except Failure α} (h : ∀ e, result = .error e → F e) :
    Keeps P F (Reader.ofExcept result) := by
  cases result with
  | ok a => exact .pure a
  | error e => exact .throw (h e rfl)

section Bytes

/-! ## Readers that leave the registry alone -/

variable (hF : ∀ cause, F (.streamCorrupted cause))

include hF

theorem corrupted (cause : Corruption) : Keeps P F (Reader.corrupted cause : Reader α) :=
  .throw (hF cause)

theorem bytes (what : String) (n : Nat) : Keeps P F (Reader.bytes what n) := by
  intro s hs
  unfold Reader.bytes
  dsimp only
  by_cases hlt : (s.input.take n).length < n
  · rw [if_pos hlt]
    exact ⟨hs, hF _⟩
  · rw [if_neg hlt]
    exact hs

theorem lead : Keeps P F Reader.lead := by
  rintro ⟨names, g, _ | ⟨byte, input⟩⟩ hs
  · exact ⟨hs, hF _⟩
  · exact hs

theorem tagOf (byte : UInt8) : Keeps P F (Reader.tagOf byte) := by
  unfold Reader.tagOf
  split
  · exact corrupted hF _
  · split
    · exact .pure _
    · exact corrupted hF _

theorem bigEndian (what : String) (width : Nat) : Keeps P F (Reader.bigEndian what width) :=
  (bytes hF what width).map _

theorem bool : Keeps P F Reader.bool := by
  refine (lead hF).bind fun byte => (tagOf hF byte).bind fun t => ?_
  cases t with
  | boolTrue | boolFalse => exact .pure _
  | _ => exact corrupted hF _

theorem numberPayload (t : Tag) : Keeps P F (Reader.numberPayload t) := by
  cases t with
  | signed1 | signed2 | signed4 | float4 | float8 | char => exact ((bigEndian hF _ _).map _).map _
  | signed8 => exact (bigEndian hF _ _).map _
  | _ => exact corrupted hF _

theorem number : Keeps P F Reader.number := by
  refine (lead hF).bind fun byte => ?_
  split
  · exact .pure _
  · exact (tagOf hF byte).bind (numberPayload hF)

theorem float : Keeps P F Reader.float := by
  refine (lead hF).bind fun byte => ?_
  split
  · exact .pure _
  · refine (tagOf hF byte).bind fun t => ?_
    cases t with
    | float4 => exact ((bigEndian hF _ _).map _).map _
    | float8 => exact (bigEndian hF _ _).map _
    | _ => exact (numberPayload hF _).map _

theorem length : Keeps P F Reader.length := by
  refine (number hF).bind fun n => ?_
  dsimp only
  split
  · exact .pure _
  · exact corrupted hF _

theorem stringBody : Keeps P F Reader.stringBody := by
  refine (length hF).bind fun n => (bytes hF _ n).bind fun block => ?_
  refine (bytes hF _ _).bind fun wide => ?_
  split
  · exact .pure _
  · exact corrupted hF _

theorem byteData : Keeps P F Reader.byteData := (length hF).bind fun n => bytes hF _ n

theorem nameBody : Keeps P F Reader.nameBody := by
  have hget : Keeps P F (get : Reader ReadState) := fun _ hs => hs
  have hpush : ∀ name : String,
      Keeps P F (modify fun s => { s with names := s.names.push name } : Reader Unit) :=
    fun _ _ hs => hs
  refine (number hF).bind fun n => hget.bind fun s => ?_
  dsimp only
  split
  · exact .pure _
  · split
    · exact (stringBody hF).bind fun name => (hpush name).bind fun _ => .pure name
    · exact corrupted hF _

theorem char : Keeps P F Reader.char := by
  refine ((bigEndian hF _ _).map _).bind fun unit => ?_
  split
  · exact .pure _
  · exact corrupted hF _

theorem enumName (wireName : String) : Keeps P F (Reader.enumName wireName) := by
  unfold Reader.enumName
  split
  · exact .pure _
  · exact corrupted hF _

variable {inner : Reader Value} (hinner : Keeps P F inner)

include hinner

theorem stringIn : Keeps P F (Reader.stringIn inner) :=
  hinner.bind fun v => by
    cases v with
    | string s => exact .pure s
    | _ => exact corrupted hF _

theorem arrayIn : Keeps P F (Reader.arrayIn inner) :=
  hinner.bind fun v => by
    cases v with
    | array component items => exact .pure (component, items)
    | _ => exact corrupted hF _

end Bytes

section Values

/-! ## Readers of values -/

variable (hp : ReadPolicy P F)

include hp

theorem resolve (signature : String) : Keeps P F (Reader.resolve signature) := by
  intro s hs
  have hkept := hp.resolve signature hs
  cases h : (s.registry.resolve signature).1 with
  | ok layout =>
    rw [resolve_eq_ok_iff.mpr ⟨h, rfl⟩]
    exact hkept
  | error e =>
    have hfailed : Reader.resolve signature s =
        .error e { s with registry := (s.registry.resolve signature).2 } := by
      unfold Reader.resolve
      rw [← Prod.eta (s.registry.resolve signature), h]
    rw [hfailed, Registry.resolve_error h]
    exact ⟨hkept, hp.corrupted _⟩

variable {inner : Reader Value} (hinner : Keeps P F inner)

include hinner

theorem intoField {f : Field} (r : Record) (hf : ∀ n e, f.setInt r n = .error e → F e) :
    Keeps P F (Reader.intoField inner f r) := by
  cases hkind : f.kind with
  | bool =>
    simp only [Reader.intoField, hkind]
    exact (bool hp.corrupted).map _
  | float | double =>
    simp only [Reader.intoField, hkind]
    refine (float hp.corrupted).bind fun x => ofExcept fun e he => ?_
    simp [Field.setFloat, hkind, FieldKind.isIntegral] at he
  | object =>
    simp only [Reader.intoField, hkind]
    exact hinner.map _
  | byte | short | char | int | long =>
    simp only [Reader.intoField, hkind]
    exact (number hp.corrupted).bind fun n => ofExcept (hf n)

/-- A layout read under the policy is filled under the policy. -/
theorem recordBody : Keeps P F (Reader.recordBody inner) := by
  refine (stringIn hp.corrupted hinner).bind fun signature => ?_
  intro s hs
  have hfill : ∀ layout, (s.registry.resolve signature).1 = .ok layout →
      Keeps P F (layout.slots.foldlM (Reader.intoSlot inner layout.isDynamic) layout.blank) := by
    intro layout hlayout
    refine foldlM (fun slot hslot r => ?_) _
    obtain ⟨name, _ | f⟩ := slot
    · exact hinner.map _
    · exact intoField hp hinner r fun n e he => hp.setInt hs hlayout hslot he
  cases h : Reader.resolve signature s with
  | ok layout t =>
    rw [bind_of_ok h]
    exact hfill layout (resolve_eq_ok_iff.mp h).1 t ((resolve hp signature).ok hs h)
  | error e t =>
    rw [bind_of_error h]
    exact (resolve hp signature).error hs h

theorem payload (t : Tag) : Keeps P F (Reader.payload inner t) := by
  have hF := hp.corrupted
  have hstring := stringIn hF hinner
  cases t with
  | null | boolTrue | boolFalse => exact .pure _
  | signed1 | signed2 | signed4 | signed8 | float4 | float8 =>
    exact ((bigEndian hF _ _).map _).map _
  | char => exact (char hF).map _
  | string => exact (stringBody hF).map _
  | tag => exact (nameBody hF).map _
  | bytes | foreign => exact (byteData hF).map _
  | array =>
    exact (length hF).bind fun count => hstring.bind fun component => (hinner.times count).map _
  | list | set => exact (length hF).bind fun count => (hinner.times count).map _
  | map =>
    have hpair : Keeps P F (Reader.pair inner inner) := hinner.bind fun key => hinner.map _
    exact (length hF).bind fun count => (hpair.times count).map _
  | entry => exact hinner.bind fun key => hinner.map _
  | enum => exact hstring.bind fun name => (enumName hF name).map _
  | record => exact (recordBody hp hinner).map _
  | className | fieldSignature => exact hstring.map _

omit hinner in
theorem value (budget : Nat) : Keeps P F (Reader.value budget) := by
  induction budget with
  | zero => exact corrupted hp.corrupted _
  | succ budget ih =>
    refine (lead hp.corrupted).bind fun byte => ?_
    split
    · exact .pure _
    · exact (tagOf hp.corrupted byte).bind (payload hp ih)

end Values

end Reader.Keeps

end Wire

open Wire

section Messages

variable {P : Registry → Prop} {F : Failure → Prop} (hp : ReadPolicy P F)

include hp

theorem Call.reader_keeps (budget : Nat) : Reader.Keeps P F (Call.reader budget) := by
  have hF := hp.corrupted
  have hvalue := Reader.Keeps.value hp budget
  refine (Reader.Keeps.number hF).bind fun sequence => ?_
  refine (Reader.Keeps.stringIn hF hvalue).bind fun method => ?_
  exact (Reader.Keeps.arrayIn hF hvalue).map _

theorem Reply.reader_keeps (budget : Nat) : Reader.Keeps P F (Reply.reader budget) := by
  have hF := hp.corrupted
  refine (Reader.Keeps.number hF).bind fun sequence => (Reader.Keeps.bool hF).bind fun success => ?_
  exact (Reader.Keeps.value hp budget).map _

theorem Reply.syncReader_keeps (budget : Nat) : Reader.Keeps P F (Reply.syncReader budget) := by
  refine (Reply.reader_keeps hp budget).bind fun reply => ?_
  split
  · exact .pure reply
  · exact .corrupted hp.corrupted _

end Messages

end RemoteCall
