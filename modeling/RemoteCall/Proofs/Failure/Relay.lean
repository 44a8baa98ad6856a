import RemoteCall.Failure.Relay
import RemoteCall.Proofs.Schema.Registry
import RemoteCall.Proofs.Value.Portable

/-!
# Failures relayed as records

A failure is the same after it was turned into a record and back, and its record is portable if its
texts are short.
-/

namespace RemoteCall

open Wire

namespace RemoteFailure

theorem stackOf_list (stack : List String) :
    stackOf (some (.list (stack.map .string))) = stack := by
  rw [stackOf, List.map_map]
  exact List.map_id stack

theorem ofValue_toValue (f : RemoteFailure) : ofValue f.toValue = f := by
  have hstack := stackOf_list f.stack
  calc
    ofValue f.toValue =
        ⟨f.kind, f.message, stackOf (some (.list (f.stack.map .string)))⟩ := rfl
    _ = f := by rw [hstack]

structure Fits (f : RemoteFailure) : Prop where
  kind : IsShort f.kind
  message : IsShort f.message
  stack : ∀ frame ∈ f.stack, IsShort frame
  length_le : f.stack.length ≤ Reader.maxLength

instance (f : RemoteFailure) : Decidable f.Fits :=
  decidable_of_iff (IsShort f.kind ∧ IsShort f.message ∧ (∀ frame ∈ f.stack, IsShort frame) ∧
      f.stack.length ≤ Reader.maxLength)
    ⟨fun h => ⟨h.1, h.2.1, h.2.2.1, h.2.2.2⟩, fun h => ⟨h.kind, h.message, h.stack, h.length_le⟩⟩

end RemoteFailure

/-- The type of failures is known from the start and never replaced. -/
theorem Registry.Grown.lookup?_failure {g : Registry} (h : g.Grown) :
    g.lookup? RemoteFailure.typeName = some RemoteFailure.recordType := by
  induction h with
  | initial => rfl
  | @register g t _ hnew ih =>
    have hne : RemoteFailure.typeName ≠ t.name := by
      intro heq
      rw [heq, hnew] at ih
      cases ih
    rw [lookup?_register_of_ne hne, ih]
  | resolve signature _ ih => rw [lookup?_resolve, ih]

namespace RemoteFailure

variable {g : Registry} {f : RemoteFailure}

theorem toRecord_fits (hg : g.Grown) (f : RemoteFailure) : f.toRecord.Fits g where
  typeName_ne := by
    change typeName ≠ ""
    decide
  notMem_comma := by
    change ∀ s ∈ ["tagrpc.RemoteError", "kind", "message", "stack"], ',' ∉ s.toList
    decide
  isShort_signature := by
    change IsShort (signatureOf typeName ["kind", "message", "stack"])
    decide +kernel
  describes t ht := by
    have hknown : g.lookup? f.toRecord.typeName = some recordType := hg.lookup?_failure
    rw [hknown, Option.some.injEq] at ht
    subst ht
    exact ⟨by decide, .cons ⟨rfl, .object _⟩ (.cons ⟨rfl, .object _⟩ (.cons ⟨rfl, .object _⟩ .nil))⟩

theorem itemsDepth_map_string (stack : List String) :
    Value.itemsDepth (stack.map .string) ≤ 1 := by
  induction stack with
  | nil => exact Nat.zero_le _
  | cons s stack ih =>
    rw [List.map_cons, Value.itemsDepth]
    exact Nat.max_le.mpr ⟨Nat.le_refl 1, ih⟩

theorem Fits.toValue_portable (hg : g.Grown) (h : f.Fits) : f.toValue.Portable g where
  allFit := by
    have hstack : (Value.list (f.stack.map .string)).AllFit g := by
      refine .intro (by simpa [Value.Fits] using h.length_le) fun w hw => ?_
      obtain ⟨frame, hframe, rfl⟩ := List.mem_map.mp hw
      exact .leaf rfl (h.stack frame hframe)
    refine .intro (toRecord_fits hg f) fun w hw => ?_
    have hw : w ∈ [.string f.kind, .string f.message, .list (f.stack.map .string)] := hw
    rcases List.mem_cons.mp hw with rfl | hw
    · exact .leaf rfl h.kind
    · rcases List.mem_pair.mp hw with rfl | rfl
      · exact .leaf rfl h.message
      · exact hstack
  wireDepth_le := by
    have hstack := itemsDepth_map_string f.stack
    have hmax : maxNesting = 256 := rfl
    simp only [toValue, toRecord, Value.wireDepth, Value.fieldsDepth]
    omega

end RemoteFailure

end RemoteCall
