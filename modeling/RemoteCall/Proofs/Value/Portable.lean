import Mathlib.Data.List.Forall2
import RemoteCall.Schema.Registry
import RemoteCall.Wire.Decoder

/-!
# Portable values

A value is portable when every part of it fits the format and it is not nested too deeply. What a
part has to fit depends on the registry only for records of known types: these hold the fields of
their type, in its order and of its kinds.
-/

namespace RemoteCall

open Wire

/-- A string whose length a reader accepts. -/
def IsShort (s : String) : Prop := (stringUnits s).length ≤ Reader.maxLength

instance (s : String) : Decidable (IsShort s) :=
  inferInstanceAs (Decidable ((stringUnits s).length ≤ Reader.maxLength))

/-- A value that a field of that kind gives back. Floating point fields are left out, since a
number that is an integer is written as one. -/
inductive FieldKind.Holds : FieldKind → Value → Prop
  | bool (b : Bool) : Holds .bool (.bool b)
  | byte (n : Int8) : Holds .byte (.byte n)
  | short (n : Int16) : Holds .short (.short n)
  | char (c : Char) : Holds .char (.char c)
  | int (n : Int32) : Holds .int (.int n)
  | long (n : Int64) : Holds .long (.long n)
  | object (v : Value) : Holds .object v

def FieldKind.HoldsAs (slot : String × FieldKind) (field : String × Value) : Prop :=
  slot.1 = field.1 ∧ slot.2.Holds field.2

structure RecordType.Describes (t : RecordType) (r : Record) : Prop where
  nodup : (t.layout.map Prod.fst).Nodup
  holds : List.Forall₂ FieldKind.HoldsAs t.layout r.fields

/-- The names of a record can be told apart in its signature, and its fields are those of its type
if that is known. -/
structure RecordOf.Fits (g : Registry) (r : Record) : Prop where
  typeName_ne : r.typeName ≠ ""
  notMem_comma : ∀ s ∈ r.typeName :: r.names, ',' ∉ s.toList
  isShort_signature : IsShort (signatureOf r.typeName r.names)
  describes : ∀ t, g.lookup? r.typeName = some t → t.Describes r

namespace Value

/-- What the format asks of a value, leaving aside the values inside it. -/
def Fits (g : Registry) : Value → Prop
  | .char c => c.toNat ≤ 0xFFFF
  | .string s => IsShort s
  | .array component items => IsShort component ∧ items.length ≤ Reader.maxLength
  | .list items | .set items => items.length ≤ Reader.maxLength
  | .map entries => entries.length ≤ Reader.maxLength
  | .enum e => ' ' ∉ e.typeName.toList ∧ IsShort e.wireName
  | .record r => r.Fits g
  | .bytes data | .foreign data => data.length ≤ Reader.maxLength
  | .typeByName name => IsShort name
  | .typeBySignature signature => IsShort signature
  | _ => True

def children : Value → List Value
  | .array _ items | .list items | .set items => items
  | .map entries => entries.flatMap fun entry => [entry.1, entry.2]
  | .entry key value => [key, value]
  | .record r => r.fields.map Prod.snd
  | _ => []

inductive AllFit (g : Registry) : Value → Prop
  | intro {v : Value} (fits : v.Fits g) (children : ∀ w ∈ v.children, AllFit g w) : AllFit g v

theorem AllFit.fits {g : Registry} {v : Value} : AllFit g v → v.Fits g
  | .intro h _ => h

theorem AllFit.child {g : Registry} {v w : Value} : AllFit g v → w ∈ v.children → AllFit g w
  | .intro _ h, hw => h w hw

theorem AllFit.leaf {g : Registry} {v : Value} (h : v.children = []) (hv : v.Fits g) :
    v.AllFit g :=
  .intro hv fun w hw => by
    rw [h] at hw
    cases hw

inductive EveryRecord (p : Record → Prop) : Value → Prop
  | intro {v : Value} (self : ∀ r, v = .record r → p r)
    (children : ∀ w ∈ v.children, EveryRecord p w) : EveryRecord p v

theorem AllFit.everyRecord {g : Registry} {p : Record → Prop} {v : Value} (hv : v.AllFit g)
    (h : ∀ r : Record, r.Fits g → p r) : v.EveryRecord p := by
  induction hv with
  | intro hfits _ ih => exact .intro (fun r hr => h r (by rwa [hr] at hfits)) ih

theorem EveryRecord.self {p : Record → Prop} {r : Record} : (record r).EveryRecord p → p r
  | .intro h _ => h r rfl

theorem EveryRecord.leaf {p : Record → Prop} {v : Value} (h : v.children = [])
    (hv : v.isRecord = false) : v.EveryRecord p := by
  refine .intro (fun r hr => ?_) fun w hw => ?_
  · rw [hr] at hv
    cases hv
  · rw [h] at hw
    cases hw

theorem EveryRecord.child {p : Record → Prop} {v w : Value} :
    v.EveryRecord p → w ∈ v.children → w.EveryRecord p
  | .intro _ h, hw => h w hw

theorem EveryRecord.mono {p q : Record → Prop} {v : Value} (hv : v.EveryRecord p)
    (h : ∀ r, p r → q r) : v.EveryRecord q := by
  induction hv with
  | intro hself _ ih => exact .intro (fun r hr => h r (hself r hr)) ih

theorem EveryRecord.and {p q : Record → Prop} {v : Value} (hv : v.EveryRecord p)
    (hv' : v.EveryRecord q) : v.EveryRecord fun r => p r ∧ q r := by
  induction hv with
  | intro hself _ ih =>
    cases hv' with
    | intro hself' hchildren' =>
      exact .intro (fun r hr => ⟨hself r hr, hself' r hr⟩) fun w hw => ih w hw (hchildren' w hw)

mutual

/-- The levels a value takes on the wire, where a name that is read as a value takes one. -/
def wireDepth : Value → Nat
  | .array _ items => max 1 (itemsDepth items) + 1
  | .list items | .set items => itemsDepth items + 1
  | .map entries => entriesDepth entries + 1
  | .entry key value => max key.wireDepth value.wireDepth + 1
  | .record ⟨_, fields⟩ => max 1 (fieldsDepth fields) + 1
  | .enum _ | .typeByName _ | .typeBySignature _ => 2
  | _ => 1
termination_by structural v => v

def itemsDepth : List Value → Nat
  | [] => 0
  | v :: vs => max v.wireDepth (itemsDepth vs)
termination_by structural vs => vs

def entriesDepth : List (Value × Value) → Nat
  | [] => 0
  | (k, v) :: vs => max (max k.wireDepth v.wireDepth) (entriesDepth vs)
termination_by structural vs => vs

def fieldsDepth : List (String × Value) → Nat
  | [] => 0
  | (_, v) :: vs => max v.wireDepth (fieldsDepth vs)
termination_by structural vs => vs

end

/-- A value that crosses a connection and comes out as it went in. -/
structure Portable (g : Registry) (v : Value) : Prop where
  allFit : v.AllFit g
  wireDepth_le : v.wireDepth ≤ maxNesting

theorem wireDepth_pos (v : Value) : 0 < v.wireDepth := by
  cases v with
  | record r => simp [wireDepth]
  | _ => simp [wireDepth]

theorem wireDepth_le_itemsDepth {v : Value} {vs : List Value} (h : v ∈ vs) :
    v.wireDepth ≤ itemsDepth vs := by
  induction vs with
  | nil => cases h
  | cons w vs ih =>
    rw [itemsDepth]
    cases h with
    | head => exact Nat.le_max_left ..
    | tail _ h => exact Nat.le_trans (ih h) (Nat.le_max_right ..)

theorem wireDepth_le_entriesDepth {k v : Value} {vs : List (Value × Value)} (h : (k, v) ∈ vs) :
    k.wireDepth ≤ entriesDepth vs ∧ v.wireDepth ≤ entriesDepth vs := by
  induction vs with
  | nil => cases h
  | cons w vs ih =>
    rw [entriesDepth]
    cases h with
    | head =>
      dsimp only
      omega
    | tail _ h =>
      have := ih h
      omega

theorem wireDepth_le_fieldsDepth {name : String} {v : Value} {vs : List (String × Value)}
    (h : (name, v) ∈ vs) : v.wireDepth ≤ fieldsDepth vs := by
  induction vs with
  | nil => cases h
  | cons w vs ih =>
    rw [fieldsDepth]
    cases h with
    | head => exact Nat.le_max_left ..
    | tail _ h => exact Nat.le_trans (ih h) (Nat.le_max_right ..)

theorem itemsDepth_le {vs : List Value} {n : Nat} (h : ∀ v ∈ vs, v.wireDepth ≤ n) :
    itemsDepth vs ≤ n := by
  induction vs with
  | nil => exact Nat.zero_le n
  | cons v vs ih =>
    rw [List.forall_mem_cons] at h
    rw [itemsDepth]
    exact Nat.max_le.mpr ⟨h.1, ih h.2⟩

theorem entriesDepth_le {vs : List (Value × Value)} {n : Nat}
    (h : ∀ p ∈ vs, p.1.wireDepth ≤ n ∧ p.2.wireDepth ≤ n) : entriesDepth vs ≤ n := by
  induction vs with
  | nil => exact Nat.zero_le n
  | cons p vs ih =>
    rw [List.forall_mem_cons] at h
    rw [entriesDepth]
    exact Nat.max_le.mpr ⟨Nat.max_le.mpr h.1, ih h.2⟩

theorem fieldsDepth_le {vs : List (String × Value)} {n : Nat} (h : ∀ p ∈ vs, p.2.wireDepth ≤ n) :
    fieldsDepth vs ≤ n := by
  induction vs with
  | nil => exact Nat.zero_le n
  | cons p vs ih =>
    rw [List.forall_mem_cons] at h
    rw [fieldsDepth]
    exact Nat.max_le.mpr ⟨h.1, ih h.2⟩

/-- Keys and values of a map are inside it. -/
theorem mem_children_of_entry {p : Value × Value} {entries : List (Value × Value)}
    (h : p ∈ entries) : p.1 ∈ (map entries).children ∧ p.2 ∈ (map entries).children :=
  ⟨List.mem_flatMap.mpr ⟨p, h, List.mem_cons_self ..⟩,
    List.mem_flatMap.mpr ⟨p, h, List.mem_cons_of_mem _ (List.mem_cons_self ..)⟩⟩

/-- A value inside another one takes fewer levels. -/
theorem wireDepth_lt_of_mem_children {v w : Value} (h : w ∈ v.children) :
    w.wireDepth < v.wireDepth := by
  cases v with
  | array component items =>
    have : w.wireDepth ≤ itemsDepth items := wireDepth_le_itemsDepth h
    rw [wireDepth]
    omega
  | list items | set items => exact Nat.lt_succ_of_le (wireDepth_le_itemsDepth h)
  | map entries =>
    obtain ⟨⟨k, v⟩, he, hw⟩ := List.mem_flatMap.mp h
    have := wireDepth_le_entriesDepth he
    rw [wireDepth]
    rcases List.mem_pair.mp hw with rfl | rfl
    · exact Nat.lt_succ_of_le this.1
    · exact Nat.lt_succ_of_le this.2
  | entry key value =>
    rw [wireDepth]
    rcases List.mem_pair.mp h with rfl | rfl <;> omega
  | record r =>
    obtain ⟨⟨name, v⟩, hf, rfl⟩ := List.mem_map.mp h
    have : v.wireDepth ≤ fieldsDepth r.fields := wireDepth_le_fieldsDepth hf
    rw [wireDepth]
    dsimp only
    omega
  | _ => cases h

end Value

end RemoteCall
