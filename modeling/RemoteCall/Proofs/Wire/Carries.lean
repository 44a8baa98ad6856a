import RemoteCall.Proofs.Schema.Registry
import RemoteCall.Proofs.Value.Portable
import RemoteCall.Proofs.Wire.Names
import RemoteCall.Wire.Encoder

/-!
# Writers and readers that fit together

A reader takes back what a writer appended when it consumes exactly those bytes, whatever follows
them, and when ends that agree on the names before agree on them afterwards. Writers and readers
made of parts that fit together fit together.
-/

namespace RemoteCall.Wire

open NameIndex (Agrees)

namespace Writer

@[simp] theorem emit_apply (bytes : List UInt8) (e : NameIndex) : emit bytes e = ⟨bytes, e, none⟩ :=
  rfl

theorem append_of_none {first : Writer} {e : NameIndex} (h : (first e).failure? = none)
    (second : Writer) :
    (first ++ second) e =
      { second (first e).names with
        bytes := (first e).bytes ++ (second (first e).names).bytes } := by
  change append first second e = _
  simp only [append, h]

theorem append_of_some {first : Writer} {e : NameIndex} {f : Failure}
    (h : (first e).failure? = some f) (second : Writer) : (first ++ second) e = first e := by
  change append first second e = _
  simp only [append, h]

theorem failure?_of_append {first second : Writer} {e : NameIndex}
    (h : ((first ++ second) e).failure? = none) :
    (first e).failure? = none ∧ (second (first e).names).failure? = none := by
  cases hf : (first e).failure? with
  | none =>
    rw [append_of_none hf] at h
    exact ⟨rfl, h⟩
  | some f =>
    rw [append_of_some hf, hf] at h
    cases h

theorem emit_append (bytes : List UInt8) (w : Writer) (e : NameIndex) :
    (emit bytes ++ w) e = { w e with bytes := bytes ++ (w e).bytes } :=
  append_of_none rfl w

theorem nothing_append (w : Writer) : nothing ++ w = w := by
  funext e
  exact emit_append [] w e

theorem append_nothing (w : Writer) : w ++ nothing = w := by
  funext e
  cases hf : (w e).failure? with
  | some f => rw [append_of_some hf]
  | none =>
    rw [append_of_none hf]
    simp [nothing, ← hf]

theorem append_assoc (w₁ w₂ w₃ : Writer) : w₁ ++ w₂ ++ w₃ = w₁ ++ (w₂ ++ w₃) := by
  funext e
  cases h₁ : (w₁ e).failure? with
  | some f =>
    have h₁₂ : ((w₁ ++ w₂) e).failure? = some f := by rw [append_of_some h₁, h₁]
    rw [append_of_some h₁₂, append_of_some h₁, append_of_some h₁]
  | none =>
    rw [append_of_none h₁]
    cases h₂ : (w₂ (w₁ e).names).failure? with
    | some f =>
      have h₁₂ : ((w₁ ++ w₂) e).failure? = some f := by rw [append_of_none h₁, h₂]
      rw [append_of_some h₁₂, append_of_none h₁, append_of_some h₂]
    | none =>
      have h₁₂ : ((w₁ ++ w₂) e).failure? = none := by rw [append_of_none h₁, h₂]
      rw [append_of_none h₁₂, append_of_none h₁, append_of_none h₂, List.append_assoc]

def concat (ws : List Writer) : Writer := ws.foldr (· ++ ·) nothing

@[simp] theorem concat_cons (w : Writer) (ws : List Writer) : concat (w :: ws) = w ++ concat ws :=
  rfl

theorem concat_singleton (w : Writer) : concat [w] = w := append_nothing w

theorem failure?_of_concat {ws : List Writer} {e : NameIndex}
    (h : (concat ws e).failure? = none) : ∀ w ∈ ws, ∃ e', (w e').failure? = none := by
  induction ws generalizing e with
  | nil =>
    intro w hw
    cases hw
  | cons w ws ih =>
    obtain ⟨hw, hws⟩ := failure?_of_append h
    exact List.forall_mem_cons.mpr ⟨⟨e, hw⟩, ih hws⟩

end Writer

section Parts

variable (g : Registry)

theorem itemsWriter_eq (vs : List Value) :
    itemsWriter g vs = Writer.concat (vs.map (valueWriter g)) := by
  induction vs with
  | nil => rfl
  | cons v vs ih => rw [itemsWriter, ih, List.map_cons, Writer.concat_cons]

theorem namedWriters_eq (fields : List (String × Value)) :
    namedWriters g fields = fields.map fun field => (field.1, valueWriter g field.2) := by
  induction fields with
  | nil => rfl
  | cons field fields ih => rw [namedWriters, ih, List.map_cons]

theorem keysWriter_eq (vs : List Value) :
    keysWriter g vs = Writer.concat (vs.map fun v => keyOr (valueWriter g v) v) := by
  induction vs with
  | nil => rfl
  | cons v vs ih => rw [keysWriter, ih, List.map_cons, Writer.concat_cons]

theorem entriesWriter_eq (vs : List (Value × Value)) :
    entriesWriter g vs =
      Writer.concat (vs.map fun p => keyOr (valueWriter g p.1) p.1 ++ valueWriter g p.2) := by
  induction vs with
  | nil => rfl
  | cons p vs ih =>
    rw [entriesWriter, ih, List.map_cons, Writer.concat_cons, Writer.append_assoc]

end Parts

variable {α β : Type}

/-- The reader takes back what the writer appended, with any registry of this kind, and leaves one of
this kind. -/
structure Carries (reads : Registry → Prop) (w : Writer) (r : Reader α) (a : α) : Prop where
  failure?_eq : ∀ e, (w e).failure? = none
  size_le : ∀ e, e.size ≤ (w e).names.size
  read : ∀ e d g rest, Agrees e d → reads g → (w e).names.size ≤ maxNames →
    ∃ d' g', r ⟨d, g, (w e).bytes ++ rest⟩ = .ok a ⟨d', g', rest⟩ ∧
      (w e).names.Agrees d' ∧ reads g'

namespace Carries

variable {reads : Registry → Prop} {w w₁ w₂ : Writer} {r : Reader α} {a : α}

/-- What is read from no bytes may still teach the registry a resolution. -/
theorem quiet (h : ∀ d g, reads g → ∃ g', reads g' ∧
    ∀ rest, r ⟨d, g, rest⟩ = .ok a ⟨d, g', rest⟩) : Carries reads .nothing r a where
  failure?_eq _ := rfl
  size_le _ := le_rfl
  read _ d g' rest hd hg' _ := by
    obtain ⟨g'', hg'', hr⟩ := h d g' hg'
    exact ⟨d, g'', hr rest, hd, hg''⟩

theorem pure (a : α) : Carries reads .nothing (Pure.pure a : Reader α) a :=
  quiet fun _ g' hg' => ⟨g', hg', fun _ => rfl⟩

theorem emit {bytes : List UInt8}
    (h : ∀ names g rest, r ⟨names, g, bytes ++ rest⟩ = .ok a ⟨names, g, rest⟩) :
    Carries reads (.emit bytes) r a where
  failure?_eq _ := rfl
  size_le _ := le_rfl
  read _ d g' rest hd hg' _ := ⟨d, g', h d g' rest, hd, hg'⟩

/-- Names of the first part are known to the second. -/
theorem bind {f : α → Reader β} {b : β} (h₁ : Carries reads w₁ r a) (h₂ : Carries reads w₂ (f a) b) :
    Carries reads (w₁ ++ w₂) (r >>= f) b where
  failure?_eq e := by
    rw [Writer.append_of_none (h₁.failure?_eq e)]
    exact h₂.failure?_eq _
  size_le e := by
    rw [Writer.append_of_none (h₁.failure?_eq e)]
    exact (h₁.size_le e).trans (h₂.size_le _)
  read e d g' rest hd hg' hsize := by
    rw [Writer.append_of_none (h₁.failure?_eq e)] at hsize ⊢
    obtain ⟨d₁, g₁, hr₁, hd₁, hg₁⟩ := h₁.read e d g' ((w₂ (w₁ e).names).bytes ++ rest) hd hg'
      ((h₂.size_le _).trans hsize)
    obtain ⟨d₂, g₂, hr₂, hd₂, hg₂⟩ := h₂.read _ d₁ g₁ rest hd₁ hg₁ hsize
    refine ⟨d₂, g₂, ?_, hd₂, hg₂⟩
    rw [List.append_assoc, Reader.bind_of_ok hr₁, hr₂]

theorem thenQuiet {f : α → Reader β} {b : β} (h : Carries reads w r a)
    (hf : Carries reads .nothing (f a) b) : Carries reads w (r >>= f) b := by
  rw [← w.append_nothing]
  exact h.bind hf

theorem quietThen {f : α → Reader β} {b : β} (h : Carries reads .nothing r a)
    (hf : Carries reads w (f a) b) : Carries reads w (r >>= f) b := by
  rw [← w.nothing_append]
  exact h.bind hf

theorem map (h : Carries reads w r a) (f : α → β) :
    Carries reads w (r >>= fun x => Pure.pure (f x)) (f a) :=
  h.thenQuiet (pure (f a))

theorem behind {byte : UInt8} {r' : Reader α}
    (hr : ∀ names g rest, r' ⟨names, g, byte :: rest⟩ = r ⟨names, g, rest⟩)
    (h : Carries reads w r a) : Carries reads (.emit [byte] ++ w) r' a where
  failure?_eq e := by
    rw [Writer.emit_append]
    exact h.failure?_eq e
  size_le e := by
    rw [Writer.emit_append]
    exact h.size_le e
  read e d g' rest hd hg' hsize := by
    rw [Writer.emit_append] at hsize ⊢
    obtain ⟨d₁, g₁, hr₁, hd₁, hg₁⟩ := h.read e d g' rest hd hg' hsize
    exact ⟨d₁, g₁, by rw [← hr₁, ← hr]; rfl, hd₁, hg₁⟩

theorem times {ws : List Writer} {as : List α}
    (h : List.Forall₂ (fun w a => Carries reads w r a) ws as) :
    Carries reads (Writer.concat ws) (Reader.times r as.length) as := by
  induction h with
  | nil => exact pure []
  | cons ha _ ih => exact ha.bind (ih.map _)

end Carries

end RemoteCall.Wire
