import RemoteCall.Proofs.Connection.Drafts
import RemoteCall.Proofs.Value.Identity

/-!
# One encoding for each value

Two values are identical if they are the same tree, floating point numbers with the same bits. Values
that a decoder gives back are written as the same bytes exactly if they are identical, whatever
names their encoder has interned and forgotten before.
-/

namespace RemoteCall

open Wire

namespace Wire

/-- An encoder after any writes whose names fit the indexes, also ones that failed, and after going
back to any marks. -/
inductive Encoder.Reached : Encoder → Prop
  | new : Reached .new
  | write {e : Encoder} (h : Reached e) (g : Registry) (w : Write)
    (hsize : (e.write (w.writer g)).encoder.interned ≤ maxNames) :
    Reached (e.write (w.writer g)).encoder
  | rollback {e : Encoder} (h : Reached e) (mark : Nat) : Reached (e.rollback mark)

variable {e : Encoder} {g : Registry} {a b : Value}

theorem Encoder.Reached.dense (h : e.Reached) : e.names.Dense := by
  induction h with
  | new => exact .empty
  | write _ g w hsize ih => exact (w.writer_isItem g).grows.dense ih hsize
  | rollback _ mark ih => exact ih.rollback mark

def Encoder.reader (e : Encoder) : Decoder := ⟨⟨e.names.entries.map Prod.fst⟩, 0⟩

theorem Encoder.Reached.paired (h : e.Reached) : Paired e e.reader := ⟨h.dense.agrees, rfl⟩

def unresolved (g : Registry) : Registry := { g with resolved := [] }

theorem unresolved_readsFor (g : Registry) : (unresolved g).ReadsFor g where
  lookup?_eq := rfl
  isCurrent := by
    intro signature layout h
    cases h

theorem read_of_reached (he : e.Reached) (ha : a.Portable g)
    (hsize : (e.write (valueWriter g a)).encoder.interned ≤ maxNames) :
    (e.reader.read (unresolved g) Reader.value (e.write (valueWriter g a)).bytes).result =
      .ok (a, []) := by
  have hcarries := Carries.value ha.allFit ha.wireDepth_le
  have hread := (hcarries.read_write he.paired (unresolved_readsFor g) hsize []).1
  rwa [List.append_nil] at hread

theorem eq_of_bytes_eq (he : e.Reached) (ha : a.Portable g) (hb : b.Portable g)
    (hsizea : (e.write (valueWriter g a)).encoder.interned ≤ maxNames)
    (hsizeb : (e.write (valueWriter g b)).encoder.interned ≤ maxNames)
    (hbytes : (e.write (valueWriter g a)).bytes = (e.write (valueWriter g b)).bytes) : a = b := by
  have hreada := read_of_reached he ha hsizea
  have hreadb := read_of_reached he hb hsizeb
  rw [← hbytes, hreada] at hreadb
  cases hreadb
  rfl

end Wire

namespace Value

theorem identical_iff {v w : Value} : v.identical w = true ↔ v = w := alike_bitwise_iff v w

theorem identical_equivalence : Equivalence fun v w : Value => v.identical w = true where
  refl _ := identical_iff.mpr rfl
  symm h := identical_iff.mpr (identical_iff.mp h).symm
  trans h h' := identical_iff.mpr ((identical_iff.mp h).trans (identical_iff.mp h'))

/-- Values are identical if they are the same tree with the same bits in it. Portable values are
written, and by no encoder as the same bytes unless they are identical. As in reading them back, the
indexes of their names have to fit 32 bits. -/
theorem identical_iff_same_bytes :
    (∀ v w : Value, v.identical w = true ↔ v = w) ∧
    (Equivalence fun v w : Value => v.identical w = true) ∧
    ∀ (g : Registry) (e : Encoder), e.Reached → ∀ a b : Value, a.Portable g → b.Portable g →
      let written := e.write (valueWriter g a)
      let written' := e.write (valueWriter g b)
      written.failure? = none ∧ written'.failure? = none ∧
        (written.encoder.interned ≤ maxNames → written'.encoder.interned ≤ maxNames →
          (a.identical b = true ↔ written.bytes = written'.bytes)) := by
  refine ⟨fun v w => identical_iff, identical_equivalence, ?_⟩
  intro g e he a b ha hb written written'
  refine ⟨(Carries.value ha.allFit ha.wireDepth_le).failure?_eq e.names,
    (Carries.value hb.allFit hb.wireDepth_le).failure?_eq e.names, ?_⟩
  intro hsize hsize'
  constructor
  · intro h
    obtain rfl := identical_iff.mp h
    rfl
  · intro hbytes
    exact identical_iff.mpr (eq_of_bytes_eq he ha hb hsize hsize' hbytes)

/-- Two NaN that differ in their last bit, each behind a name that the encoder knows already. -/
theorem identical_iff_same_bytes_nan :
    let e := (Encoder.new.write ((Write.name "x").writer .initial)).encoder
    let a : Value := .list [.string "x", .float ⟨0x7FC00000⟩]
    let b : Value := .list [.string "x", .float ⟨0x7FC00001⟩]
    a.identical a = true ∧ a.identical b = false ∧
      (e.write (valueWriter .initial a)).bytes ≠ (e.write (valueWriter .initial b)).bytes := by
  intro e a b
  have hportable : ∀ x : Binary32, (Value.list [.string "x", .float x]).Portable .initial := by
    intro x
    have htwo : 2 ≤ Reader.maxLength := by decide
    constructor
    · refine .intro htwo fun w hw => ?_
      rcases List.mem_pair.mp hw with rfl | rfl
      · exact .leaf rfl (show IsShort "x" by decide)
      · exact .leaf rfl trivial
    · simp [wireDepth, itemsDepth, maxNesting]
  have he : e.Reached := .write .new .initial (.name "x") (by decide)
  have hnotIdentical : a.identical b = false := by decide
  have hsame := (identical_iff_same_bytes.2.2 .initial e he a b (hportable _) (hportable _)).2.2
    (by decide) (by decide)
  refine ⟨identical_iff_same_bytes.2.1.refl a, hnotIdentical, fun hbytes => ?_⟩
  rw [hsame.mpr hbytes] at hnotIdentical
  cases hnotIdentical

end Value

end RemoteCall
