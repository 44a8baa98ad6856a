import Mathlib.Data.List.Forall2
import RemoteCall.Proofs.Schema.Registry

/-!
# Layouts that give back what was written

A signature names the fields of a record but not their kinds, so the layout that it stands for at
the reading end may come from another type than the one that the record was written by. What was
written comes back if the two types have the same fields in the same order. The kind of a field
may differ in one way only: a boolean is written with its own tag and is read back as any value.
-/

namespace RemoteCall

/-- A field of the first kind reads back whatever was written for a field of the second kind. -/
def FieldKind.GivesBack (kind written : FieldKind) : Prop :=
  kind = written ∨ kind = .object ∧ written = .bool

theorem FieldKind.GivesBack.eq {kind written : FieldKind} (h : kind.GivesBack written)
    (hwritten : written ≠ .bool) : kind = written :=
  h.resolve_right fun hobject => hwritten hobject.2

instance (kind written : FieldKind) : Decidable (kind.GivesBack written) :=
  inferInstanceAs (Decidable (kind = written ∨ kind = .object ∧ written = .bool))

namespace RecordType

structure GivesBack (u t : RecordType) : Prop where
  name_eq : u.name = t.name
  slots : List.Forall₂ (fun slot slot' => slot.1 = slot'.1 ∧ slot.2.GivesBack slot'.2)
    u.layout t.layout

theorem GivesBack.refl (t : RecordType) : t.GivesBack t :=
  ⟨rfl, List.forall₂_same.mpr fun _ _ => ⟨rfl, .inl rfl⟩⟩

theorem map_fst_eq {p : FieldKind → FieldKind → Prop} {layout layout' : List (String × FieldKind)}
    (h : List.Forall₂ (fun slot slot' => slot.1 = slot'.1 ∧ p slot.2 slot'.2) layout layout') :
    layout.map Prod.fst = layout'.map Prod.fst := by
  induction h with
  | nil => rfl
  | cons hslot _ ih => rw [List.map_cons, List.map_cons, hslot.1, ih]

theorem GivesBack.names_eq {u t : RecordType} (h : u.GivesBack t) :
    u.layout.map Prod.fst = t.layout.map Prod.fst := map_fst_eq h.slots

end RecordType

/-- Read by this layout, a record that was written by the types of the registry comes back. -/
inductive WireLayout.GivesBack (g : Registry) (r : Record) : WireLayout → Prop
  | unknown (h : g.lookup? r.typeName = none) (isShadow : Bool) :
    GivesBack g r ⟨r.typeName, none, r.names.map fun name => (name, none), isShadow⟩
  | known {t u : RecordType} (h : g.lookup? r.typeName = some t) (hu : u.GivesBack t)
    (isShadow : Bool) :
    GivesBack g r ⟨r.typeName, some u, r.names.map fun name => (name, u.field? name), isShadow⟩

theorem Registry.givesBack_layoutOf (g : Registry) (r : Record) (signature : String) :
    (g.layoutOf signature r.typeName r.names).GivesBack g r := by
  unfold layoutOf
  cases h : g.lookup? r.typeName with
  | none => exact .unknown h _
  | some t => exact .known h (.refl t) _

end RemoteCall
