import RemoteCall.Proofs.Connection.Drafts
import RemoteCall.Proofs.Value.Portable
import RemoteCall.Proofs.Wire.StringBody

/-!
# What readers are made of

Whatever a decoder is asked to read, it does in a few kinds of steps: it takes bytes off its input,
looks at the names it knows, learns a name, resolves a signature or gives up. So what holds of the
steps, and of one reader after another, holds of every read. In particular a read that succeeds and
one that fails leave behind the same kind of state: some more short names, some more resolutions.
-/

namespace RemoteCall

namespace Wire

namespace Reader

/-- A reader made of these steps. What follows a reader is asked to be made of them only for the
results it can have, so a name that is learned is one that was read. -/
inductive Stepwise : {α : Type} → Reader α → Prop
  | pure {α : Type} (a : α) : Stepwise (Pure.pure a)
  | fail {α : Type} (f : Failure) : Stepwise (throw f : Reader α)
  | lead : Stepwise lead
  | bytes (what : String) (n : Nat) : Stepwise (bytes what n)
  | known {α : Type} {f : ReadState → Reader α} (hnames : ∀ s t, s.names = t.names → f s = f t)
    (hf : ∀ s, Stepwise (f s)) : Stepwise (get >>= f)
  | learn {name : String} (h : IsShort name) :
    Stepwise (modify fun s => { s with names := s.names.push name } : Reader Unit)
  | resolve (signature : String) : Stepwise (resolve signature)
  | bind {α β : Type} {r : Reader α} {f : α → Reader β} (hr : Stepwise r)
    (hf : ∀ {s a t}, r s = .ok a t → Stepwise (f a)) : Stepwise (r >>= f)

namespace Stepwise

variable {α β : Type} {r : Reader α}

theorem andThen (hr : Stepwise r) {f : α → Reader β} (hf : ∀ a, Stepwise (f a)) :
    Stepwise (r >>= f) :=
  hr.bind fun _ => hf _

theorem map (hr : Stepwise r) (f : α → β) : Stepwise (r >>= fun a => Pure.pure (f a)) :=
  hr.andThen fun a => .pure (f a)

theorem times (hr : Stepwise r) (n : Nat) : Stepwise (Reader.times r n) := by
  induction n with
  | zero => exact .pure []
  | succ n ih => exact hr.andThen fun a => ih.map _

theorem foldlM {σ ρ : Type} {step : ρ → σ → Reader ρ} (h : ∀ b a, Stepwise (step b a))
    (as : List σ) (b : ρ) : Stepwise (as.foldlM step b) := by
  induction as generalizing b with
  | nil => exact .pure b
  | cons a as ih =>
    rw [List.foldlM_cons]
    exact (h b a).andThen ih

theorem ofExcept (result : Except Failure α) : Stepwise (Reader.ofExcept result) := by
  cases result with
  | ok a => exact .pure a
  | error f => exact .fail f

theorem corrupted (cause : Corruption) : Stepwise (Reader.corrupted cause : Reader α) := .fail _

/-! ## Numbers and strings -/

theorem tagOf (byte : UInt8) : Stepwise (Reader.tagOf byte) := by
  unfold Reader.tagOf
  split
  · exact corrupted _
  · split
    · exact .pure _
    · exact corrupted _

theorem bigEndian (what : String) (width : Nat) : Stepwise (Reader.bigEndian what width) :=
  (bytes what width).map _

theorem bool : Stepwise Reader.bool :=
  lead.andThen fun byte => (tagOf byte).andThen fun t => by
    cases t with
    | boolTrue | boolFalse => exact .pure _
    | _ => exact corrupted _

theorem numberPayload (t : Tag) : Stepwise (Reader.numberPayload t) := by
  cases t with
  | signed1 | signed2 | signed4 | float4 | float8 | char => exact ((bigEndian _ _).map _).map _
  | signed8 => exact (bigEndian _ _).map _
  | _ => exact corrupted _

theorem number : Stepwise Reader.number :=
  lead.andThen fun byte => by
    split
    · exact .pure _
    · exact (tagOf byte).andThen numberPayload

theorem float : Stepwise Reader.float :=
  lead.andThen fun byte => by
    split
    · exact .pure _
    · refine (tagOf byte).andThen fun t => ?_
      cases t with
      | float4 => exact ((bigEndian _ _).map _).map _
      | float8 => exact (bigEndian _ _).map _
      | _ => exact (numberPayload _).map _

theorem length : Stepwise Reader.length :=
  number.andThen fun n => by
    dsimp only
    split
    · exact .pure _
    · exact corrupted _

theorem stringBody : Stepwise Reader.stringBody := by
  refine length.andThen fun n => (bytes _ n).andThen fun block => (bytes _ _).andThen fun wide => ?_
  split
  · exact .pure _
  · exact corrupted _

theorem byteData : Stepwise Reader.byteData := length.andThen fun n => bytes _ n

theorem nameBody : Stepwise Reader.nameBody := by
  refine number.andThen fun n => known (fun s t h => ?_) fun s => ?_
  · dsimp only
    rw [h]
  dsimp only
  split
  · exact .pure _
  · split
    · exact stringBody.bind fun hname =>
        (learn (length_stringUnits_of_stringBody hname)).andThen fun _ => .pure _
    · exact corrupted _

theorem name : Stepwise Reader.name :=
  lead.andThen fun byte => (tagOf byte).andThen fun t => by
    cases t with
    | tag => exact nameBody
    | _ => exact corrupted _

theorem char : Stepwise Reader.char :=
  ((bigEndian _ _).map _).andThen fun unit => by
    split
    · exact .pure _
    · exact corrupted _

theorem enumName (wireName : String) : Stepwise (Reader.enumName wireName) := by
  unfold Reader.enumName
  split
  · exact .pure _
  · exact corrupted _

section Inner

/-! ## Values -/

variable {inner : Reader Value} (hinner : Stepwise inner)

include hinner

theorem stringIn : Stepwise (Reader.stringIn inner) :=
  hinner.andThen fun v => by
    cases v with
    | string s => exact .pure s
    | _ => exact corrupted _

theorem arrayIn : Stepwise (Reader.arrayIn inner) :=
  hinner.andThen fun v => by
    cases v with
    | array component items => exact .pure (component, items)
    | _ => exact corrupted _

theorem intoField (f : Field) (r : Record) : Stepwise (Reader.intoField inner f r) := by
  unfold Reader.intoField
  cases f.kind with
  | bool => exact bool.map _
  | float | double => exact float.andThen fun x => ofExcept _
  | object => exact hinner.map _
  | byte | short | char | int | long => exact number.andThen fun n => ofExcept _

theorem intoSlot (isDynamic : Bool) (r : Record) (slot : String × Option Field) :
    Stepwise (Reader.intoSlot inner isDynamic r slot) := by
  obtain ⟨name, _ | f⟩ := slot
  · exact hinner.map _
  · exact intoField hinner f r

theorem recordBody : Stepwise (Reader.recordBody inner) :=
  (stringIn hinner).andThen fun signature => (resolve signature).andThen fun layout =>
    foldlM (intoSlot hinner layout.isDynamic) layout.slots layout.blank

theorem payload (t : Tag) : Stepwise (Reader.payload inner t) := by
  have hstring := stringIn hinner
  cases t with
  | null | boolTrue | boolFalse => exact .pure _
  | signed1 | signed2 | signed4 | signed8 | float4 | float8 => exact ((bigEndian _ _).map _).map _
  | char => exact char.map _
  | string => exact stringBody.map _
  | tag => exact nameBody.map _
  | bytes | foreign => exact byteData.map _
  | array =>
    exact length.andThen fun count => hstring.andThen fun component => (hinner.times count).map _
  | list | set => exact length.andThen fun count => (hinner.times count).map _
  | map =>
    have hpair : Stepwise (Reader.pair inner inner) := hinner.andThen fun key => hinner.map _
    exact length.andThen fun count => (hpair.times count).map _
  | entry => exact hinner.andThen fun key => hinner.map _
  | enum => exact hstring.andThen fun name => (enumName name).map _
  | record => exact (recordBody hinner).map _
  | className | fieldSignature => exact hstring.map _

end Inner

theorem value (budget : Nat) : Stepwise (Reader.value budget) := by
  induction budget with
  | zero => exact corrupted _
  | succ budget ih =>
    refine lead.andThen fun byte => ?_
    split
    · exact .pure _
    · exact (tagOf byte).andThen (payload ih)

end Stepwise

end Reader

structure ReadState.Leads (s t : ReadState) : Prop where
  names : ∃ new, t.names.names = s.names.names ++ new ∧ ∀ name ∈ new, IsShort name
  resolves : s.registry.Resolves t.registry

namespace ReadState.Leads

variable {s t u : ReadState}

theorem of_eq (hnames : t.names = s.names) (hregistry : t.registry = s.registry) : s.Leads t where
  names := ⟨[], by rw [hnames, List.append_nil], fun _ h => by cases h⟩
  resolves := by
    rw [hregistry]
    exact .refl

theorem trans (h : s.Leads t) (h' : t.Leads u) : s.Leads u where
  names := by
    obtain ⟨new, hnew, hshort⟩ := h.names
    obtain ⟨new', hnew', hshort'⟩ := h'.names
    refine ⟨new ++ new', by rw [hnew', hnew, List.append_assoc], fun name hname => ?_⟩
    rcases List.mem_append.mp hname with hname | hname
    · exact hshort name hname
    · exact hshort' name hname
  resolves := h.resolves.trans h'.resolves

end ReadState.Leads

namespace Reader

variable {α β : Type} {r : Reader α} {s t : ReadState}

def after (r : Reader α) (s : ReadState) : ReadState :=
  match r s with
  | .ok _ t | .error _ t => t

theorem after_of_ok {a : α} (h : r s = .ok a t) : r.after s = t := by
  simp only [after, h]

theorem after_of_error {e : Failure} (h : r s = .error e t) : r.after s = t := by
  simp only [after, h]

theorem after_bind_of_ok {a : α} (h : r s = .ok a t) (f : α → Reader β) :
    (r >>= f).after s = (f a).after t := by
  rw [after, bind_of_ok h, after]

theorem after_bytes (what : String) (n : Nat) (s : ReadState) :
    ∃ input, (bytes what n).after s = { s with input } := by
  by_cases hlt : (s.input.take n).length < n
  · exact ⟨s.input, after_of_error (if_pos hlt)⟩
  · exact ⟨s.input.drop n, after_of_ok (if_neg hlt)⟩

theorem after_resolve (signature : String) (s : ReadState) :
    (resolve signature).after s = { s with registry := (s.registry.resolve signature).2 } := by
  unfold after resolve
  rcases s.registry.resolve signature with ⟨_ | _, g⟩ <;> rfl

namespace Stepwise

theorem leads (h : Stepwise r) (s : ReadState) : s.Leads (r.after s) := by
  induction h generalizing s with
  | pure a => exact .of_eq rfl rfl
  | fail f => exact .of_eq rfl rfl
  | lead =>
    obtain ⟨names, g, _ | ⟨byte, input⟩⟩ := s
    · exact .of_eq rfl rfl
    · exact .of_eq rfl rfl
  | bytes what n =>
    obtain ⟨input, hafter⟩ := after_bytes what n s
    rw [hafter]
    exact .of_eq rfl rfl
  | known _ _ ih => exact ih s s
  | learn hshort => exact ⟨⟨_, rfl, List.forall_mem_singleton.mpr hshort⟩, .refl⟩
  | resolve signature =>
    rw [after_resolve]
    exact ⟨⟨[], (List.append_nil _).symm, fun _ h => by cases h⟩, .resolve signature .refl⟩
  | @bind α β r f _ _ ihr ihf =>
    have hfirst := ihr s
    cases hr : r s with
    | error e t =>
      rw [after_of_error hr] at hfirst
      rwa [after_of_error (bind_of_error hr)]
    | ok a t =>
      rw [after_of_ok hr] at hfirst
      rw [after_bind_of_ok hr]
      exact hfirst.trans (ihf hr t)

theorem leads_ok (h : Stepwise r) {a : α} (hr : r s = .ok a t) : s.Leads t := by
  rw [← after_of_ok hr]
  exact h.leads s

end Stepwise

end Reader

end Wire

open Wire

theorem Read.reader_stepwise (budget : Nat) (read : Read) : (read.reader budget).Stepwise := by
  have hvalue := Reader.Stepwise.value budget
  cases read with
  | bool => exact Reader.Stepwise.bool.map _
  | number => exact Reader.Stepwise.number.map _
  | float => exact Reader.Stepwise.float.map _
  | name => exact Reader.Stepwise.name.map _
  | string => exact hvalue.stringIn.map _
  | array => exact hvalue.arrayIn.map _
  | value => exact hvalue

theorem Read.all_stepwise (reads : List Read) (budget : Nat) :
    (Read.all reads budget).Stepwise := by
  induction reads with
  | nil => exact .pure []
  | cons read reads ih => exact (read.reader_stepwise budget).andThen fun v => ih.map _

end RemoteCall
