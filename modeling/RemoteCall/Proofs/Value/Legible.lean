import RemoteCall.Proofs.Schema.Fields

/-!
# Legible values

What a reader with so many levels left makes out of what is written for a value. The two sides of a
connection enforce different limits: a writer has none on nesting, lengths or the names of a record
of an unknown type, and puts any integer into a field for characters. So not every value that can be
written is legible.
-/

namespace RemoteCall

open Wire

/-- The names can be told apart in the signature made of them. -/
structure Separable (typeName : String) (names : List String) : Prop where
  typeName_ne : typeName ≠ ""
  notMem_comma : ∀ s ∈ typeName :: names, ',' ∉ s.toList

theorem Separable.split_signature {typeName : String} {names : List String}
    (h : Separable typeName names) :
    Text.split ',' (signatureOf typeName names) = typeName :: names :=
  Text.split_join h.notMem_comma

structure RecordType.IsPlain (t : RecordType) : Prop where
  separable : Separable t.name (t.layout.map Prod.fst)
  nodup : (t.layout.map Prod.fst).Nodup

def Registry.IsPlain (g : Registry) : Prop := ∀ t ∈ g.types, t.IsPlain

namespace Registry.IsPlain

theorem of_lookup? {g : Registry} (hg : g.IsPlain) {name : String} {t : RecordType}
    (h : g.lookup? name = some t) : t.IsPlain := hg t (List.mem_of_find?_eq_some h)

theorem initial : Registry.initial.IsPlain := by
  intro t ht
  cases List.mem_singleton.mp ht
  exact ⟨⟨by decide, by decide⟩, by decide⟩

theorem register {g : Registry} (hg : g.IsPlain) {t : RecordType} (ht : t.IsPlain) :
    (g.register t).IsPlain := by
  intro u hu
  rcases List.mem_cons.mp hu with rfl | hu
  · exact ht
  · exact hg u (List.mem_of_mem_filter hu)

end Registry.IsPlain

section Parts

-- the values inside a value and the names in it that are legible
variable (inner : Value → Prop) (named : String → Prop)

def Field.Legible (r : Record) (f : Field) : Prop :=
  match f.kind with
  | .object => inner (f.get r)
  | .char => ∀ n, f.getInt r = .ok n → 0 ≤ n ∧ n ≤ 0xFFFF
  | _ => True

def RecordOf.Legible (g : Registry) (r : Record) : Prop :=
  match g.lookup? r.typeName with
  | some t => named t.signature ∧ ∀ f ∈ t.fields, f.Legible inner r
  | none =>
    named (signatureOf r.typeName r.names) ∧ Separable r.typeName r.names ∧
      ∀ p ∈ r.fields, inner p.2

def Value.LegibleKey : Value → Prop
  | .string s => named s
  | v => inner v

end Parts

/-- What is written for a value is read back by a reader with so many levels left, to which these
names can be conveyed. A name takes a level as any value does. -/
def Value.Legible (g : Registry) (conveyed : String → Prop) : Nat → Value → Prop
  | 0, _ => False
  | budget + 1, v =>
    let inner := Legible g conveyed budget
    let named := fun s => conveyed s ∧ 0 < budget
    match v with
    | .string s => IsShort s
    | .array component items =>
      items.length ≤ Reader.maxLength ∧ named component ∧ ∀ w ∈ items, inner w
    | .list items | .set items =>
      items.length ≤ Reader.maxLength ∧ ∀ w ∈ items, w.LegibleKey inner named
    | .map entries =>
      entries.length ≤ Reader.maxLength ∧ ∀ p ∈ entries, p.1.LegibleKey inner named ∧ inner p.2
    | .entry key value => key.LegibleKey inner named ∧ inner value
    | .enum e => named e.wireName
    | .record r => r.Legible inner named g
    | .bytes data | .foreign data => data.length ≤ Reader.maxLength
    | .typeByName name => named name
    | .typeBySignature signature => named signature
    | _ => True

/-- Of a record of an unknown type everything is written, so everything has to be legible. -/
theorem Value.legible_record_iff {g : Registry} {conveyed : String → Prop} {r : Record}
    (h : g.lookup? r.typeName = none) (budget : Nat) :
    (Value.record r).Legible g conveyed (budget + 1) ↔
      (conveyed (signatureOf r.typeName r.names) ∧ 0 < budget) ∧ Separable r.typeName r.names ∧
        ∀ p ∈ r.fields, p.2.Legible g conveyed budget := by
  rw [Legible, RecordOf.Legible, h]

end RemoteCall
