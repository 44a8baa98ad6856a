import RemoteCall.Proofs.Wire.Items

/-!
# What a writer refuses

A value that a writer does not accept is one that cannot be written. The failure says so, so that a
connection survives it: a character beyond 16 bits, or a field that holds nothing of its kind.
-/

namespace RemoteCall

def Failure.IsRefusal (f : Failure) : Prop := ∃ cause, f = .notSerializable cause

theorem Failure.IsRefusal.not_isFatal {f : Failure} (h : f.IsRefusal) : f.isFatal = false := by
  obtain ⟨cause, rfl⟩ := h
  rfl

namespace Field

variable {f : Field} {r : Record} {e : Failure}

theorem isRefusal_of_getBool (h : f.getBool r = .error e) : e.IsRefusal := by
  unfold getBool at h
  split at h
  · cases h
  · cases h
    exact ⟨_, rfl⟩

theorem isRefusal_of_getInt (h : f.getInt r = .error e) : e.IsRefusal := by
  unfold getInt at h
  cases hv : f.get r with
  | byte | short | int | long =>
    rw [hv] at h
    cases h
  | char c =>
    rw [hv] at h
    dsimp only at h
    split_ifs at h
    cases h
    exact ⟨_, rfl⟩
  | _ =>
    rw [hv] at h
    cases h
    exact ⟨_, rfl⟩

theorem isRefusal_of_getFloat (h : f.getFloat r = .error e) : e.IsRefusal := by
  unfold getFloat at h
  dsimp only at h
  split at h
  · cases h
  · cases h
    exact ⟨_, rfl⟩

end Field

namespace Wire

def Writer.OnlyRefuses (w : Writer) : Prop := ∀ e f, (w e).failure? = some f → f.IsRefusal

namespace Writer.OnlyRefuses

theorem emit (bytes : List UInt8) : OnlyRefuses (.emit bytes) := fun _ _ h => nomatch h

theorem name (s : String) : OnlyRefuses (.name s) := by
  intro e f h
  cases hi : e.index? s with
  | some i =>
    rw [name_of_known hi] at h
    cases h
  | none =>
    rw [name_of_new hi] at h
    cases h

theorem append {w₁ w₂ : Writer} (h₁ : w₁.OnlyRefuses) (h₂ : w₂.OnlyRefuses) :
    OnlyRefuses (w₁ ++ w₂) := by
  intro e f h
  cases hf : (w₁ e).failure? with
  | some f' =>
    rw [append_of_some hf] at h
    exact h₁ e f h
  | none =>
    rw [append_of_none hf] at h
    exact h₂ _ f h

theorem concat {ws : List Writer} (h : ∀ w ∈ ws, w.OnlyRefuses) : OnlyRefuses (concat ws) := by
  induction ws with
  | nil => exact emit []
  | cons w ws ih =>
    exact (h w (List.mem_cons_self ..)).append
      (ih fun v hv => h v (List.mem_cons_of_mem w hv))

theorem ofExcept {α : Type} {bytes : α → List UInt8} {result : Except Failure α}
    (h : ∀ f, result = .error f → f.IsRefusal) : OnlyRefuses (.ofExcept bytes result) := by
  cases result with
  | ok a => exact emit _
  | error f =>
    intro e f' hf
    cases hf
    exact h f rfl

theorem keyOr {w : Writer} (h : w.OnlyRefuses) (v : Value) : OnlyRefuses (keyOr w v) := by
  cases v with
  | string s => exact name s
  | _ => exact h

end Writer.OnlyRefuses

open Writer (OnlyRefuses)

section Values

variable {g : Registry}

theorem fieldWriter_onlyRefuses {r : Record} {written : RecordOf Writer}
    (h : ∀ p ∈ written.fields, p.2.OnlyRefuses) (f : Field) :
    (fieldWriter r written f).OnlyRefuses := by
  unfold fieldWriter
  split
  · exact .ofExcept fun _ => Field.isRefusal_of_getBool
  · exact .ofExcept fun _ => Field.isRefusal_of_getFloat
  · exact .ofExcept fun _ => Field.isRefusal_of_getFloat
  · cases hw : written.slot? f.index f.name with
    | none => exact .emit _
    | some w =>
      obtain ⟨name, hmem⟩ := RecordOf.mem_of_slot? hw
      exact h _ hmem
  all_goals exact .ofExcept fun _ => Field.isRefusal_of_getInt

theorem recordWriter_onlyRefuses (r : Record) {written : List (String × Writer)}
    (h : ∀ p ∈ written, p.2.OnlyRefuses) : (recordWriter g r written).OnlyRefuses := by
  unfold recordWriter
  split
  · rw [fieldWriters_eq]
    refine (OnlyRefuses.name _).append (.concat (List.forall_mem_map.mpr fun f _ => ?_))
    exact fieldWriter_onlyRefuses h f
  · rw [sequenceOf_eq]
    exact (OnlyRefuses.name _).append (.concat (List.forall_mem_map.mpr h))

theorem valueWriter_onlyRefuses (v : Value) : (valueWriter g v).OnlyRefuses := by
  induction v using Value.inductionOnChildren with
  | step v ih =>
    cases v with
    | char c =>
      rw [valueWriter, charWriter]
      split_ifs
      · exact .emit _
      · intro e f h
        cases h
        exact ⟨_, rfl⟩
    | array component items =>
      rw [valueWriter, itemsWriter_eq]
      exact (OnlyRefuses.emit _).append
        ((OnlyRefuses.name _).append (.concat (List.forall_mem_map.mpr ih)))
    | list items | set items =>
      rw [valueWriter, keysWriter_eq]
      exact (OnlyRefuses.emit _).append
        (.concat (List.forall_mem_map.mpr fun w hw => (ih w hw).keyOr w))
    | map entries =>
      rw [valueWriter, entriesWriter_eq]
      refine (OnlyRefuses.emit _).append (.concat (List.forall_mem_map.mpr fun p hp => ?_))
      obtain ⟨hk, hv⟩ := Value.mem_children_of_entry hp
      exact ((ih p.1 hk).keyOr p.1).append (ih p.2 hv)
    | entry k v =>
      have hk := (ih k (List.mem_cons_self ..)).keyOr k
      have hv := ih v (List.mem_cons_of_mem _ (List.mem_cons_self ..))
      exact (OnlyRefuses.emit _).append (hk.append hv)
    | record r =>
      refine (OnlyRefuses.emit _).append (recordWriter_onlyRefuses _ ?_)
      rw [namedWriters_eq]
      exact List.forall_mem_map.mpr fun p hp => ih p.2 (List.mem_map_of_mem hp)
    | enum | typeByName | typeBySignature => exact (OnlyRefuses.emit _).append (.name _)
    | _ => exact .emit _

end Values

end Wire

end RemoteCall
