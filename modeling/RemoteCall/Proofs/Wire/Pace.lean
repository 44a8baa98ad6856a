import RemoteCall.Proofs.Wire.Items
import RemoteCall.Wire.Decoder

/-!
# Readers that keep pace

A reader that succeeds may take a value for another than was written: it may know other types, and
a name with a comma in it looks like two. But it never falls behind. It passes at least as many
items as it was asked to read, and the names it has learned are always those of the items passed.
-/

namespace RemoteCall

namespace Registry

/-- A registry that came about by any registrations, of names already known as well. -/
inductive Reachable : Registry → Prop
  | initial : Reachable .initial
  | register {g : Registry} (t : RecordType) (h : Reachable g) : Reachable (g.register t)
  | resolve {g : Registry} (signature : String) (h : Reachable g) :
    Reachable (g.resolve signature).2

def KeepsSlots (g : Registry) : Prop :=
  ∀ signature layout, g.resolved.lookup signature = some layout →
    layout.slots.length + 1 = (Text.split ',' signature).length

variable {g : Registry}

theorem length_slots_layoutOf (g : Registry) (signature typeName : String) (names : List String) :
    (g.layoutOf signature typeName names).slots.length = names.length := by
  unfold layoutOf
  split <;> exact List.length_map _

theorem KeepsSlots.resolve (hg : g.KeepsSlots) (signature : String) :
    (g.resolve signature).2.KeepsSlots ∧
      ∀ layout, (g.resolve signature).1 = .ok layout →
        layout.slots.length + 1 = (Text.split ',' signature).length := by
  have hcases := g.resolvesTo signature
  generalize g.resolve signature = outcome at hcases ⊢
  cases hcases with
  | kept hkept =>
    refine ⟨hg, fun layout h => ?_⟩
    cases h
    exact hg signature _ hkept
  | refused =>
    refine ⟨hg, fun layout h => ?_⟩
    cases h
  | dynamic hsplit =>
    refine ⟨hg, fun layout h => ?_⟩
    cases h
    rw [length_slots_layoutOf, hsplit, List.length_cons]
  | learned hsplit =>
    refine ⟨fun s layout hs => ?_, fun layout h => ?_⟩
    · by_cases hsig : s = signature
      · subst hsig
        rw [List.lookup_cons_self, Option.some.injEq] at hs
        rw [← hs, length_slots_layoutOf, hsplit, List.length_cons]
      · rw [List.lookup_cons, beq_eq_false_iff_ne.mpr hsig] at hs
        exact hg s layout hs
    · cases h
      rw [length_slots_layoutOf, hsplit, List.length_cons]

theorem IsCurrent.keepsSlots (h : g.IsCurrent) : g.KeepsSlots := by
  intro signature layout hs
  obtain ⟨typeName, names, h⟩ := h signature layout hs
  rw [h.layout_eq, length_slots_layoutOf, h.split_eq, List.length_cons]

theorem Reachable.keepsSlots (h : g.Reachable) : g.KeepsSlots := by
  induction h with
  | initial =>
    intro signature layout hs
    cases hs
  | register t _ ih => exact ih
  | resolve signature _ ih => exact (ih.resolve signature).1

theorem Resolves.reachable {g' : Registry} (h : g.Resolves g') (hg : g.Reachable) :
    g'.Reachable := by
  induction h with
  | refl => exact hg
  | resolve signature _ ih => exact .resolve signature ih

end Registry

namespace Wire

open NameIndex (Agrees)

theorem Writer.concat_append (ws ws' : List Writer) :
    Writer.concat (ws ++ ws') = .concat ws ++ .concat ws' := by
  induction ws with
  | nil => exact (Writer.nothing_append _).symm
  | cons w ws ih => rw [List.cons_append, concat_cons, ih, concat_cons, append_assoc]

/-- What is left to read are the items that the writers append, and the reading end knows the names
that the writing end knows before them. -/
structure Ahead (ws : List Writer) (e final : NameIndex) (s : ReadState) : Prop where
  isItem : ∀ w ∈ ws, IsItem w
  agrees : e.Agrees s.names
  keepsSlots : s.registry.KeepsSlots
  input_eq : s.input = (Writer.concat ws e).bytes
  failure?_eq : (Writer.concat ws e).failure? = none
  names_eq : (Writer.concat ws e).names = final
  final_le : final.size ≤ maxNames
  length_lt : s.input.length < 2 ^ 64

/-- The items left after passing so many of them, or after passing more. -/
def Passed (n : Nat) (ws ws' : List Writer) : Prop :=
  n ≤ ws.length ∧ ws' = ws.drop n ∨ ws'.length + n < ws.length

theorem Passed.trans {m n : Nat} {ws ws' ws'' : List Writer} (h : Passed m ws ws')
    (h' : Passed n ws' ws'') : Passed (m + n) ws ws'' := by
  rcases h with ⟨hm, rfl⟩ | hm
  · rcases h' with ⟨hn, rfl⟩ | hn
    · rw [List.length_drop] at hn
      exact .inl ⟨by omega, List.drop_drop ..⟩
    · rw [List.length_drop] at hn
      exact .inr (by omega)
  · rcases h' with ⟨hn, rfl⟩ | hn
    · exact .inr (by rw [List.length_drop]; omega)
    · exact .inr (by omega)

theorem Passed.of_le {m n : Nat} {ws ws' : List Writer} (h : Passed n ws ws') (hmn : m ≤ n) :
    Passed m ws ws' := by
  rcases h with ⟨hn, rfl⟩ | hn
  · by_cases heq : m = n
    · exact .inl ⟨by omega, by rw [heq]⟩
    · exact .inr (by rw [List.length_drop]; omega)
  · exact .inr (by omega)

theorem Passed.le_length {n : Nat} {ws ws' : List Writer} (h : Passed n ws ws') :
    n ≤ ws.length := by
  rcases h with ⟨hn, -⟩ | hn
  · exact hn
  · omega

theorem Passed.length_lt {k n : Nat} {ws ws' : List Writer} (h : Passed n ws ws')
    (hlt : ws.length < n + k) : ws'.length < k := by
  have hle := h.le_length
  rcases h with ⟨-, rfl⟩ | hmore
  · rw [List.length_drop]
    omega
  · omega

theorem Passed.group {inner ws ws' : List Writer} (h : Passed inner.length (inner ++ ws) ws')
    (w : Writer) : Passed 1 (w :: ws) ws' := by
  rcases h with ⟨-, rfl⟩ | h
  · exact .inl ⟨by simp, by simp⟩
  · rw [List.length_append] at h
    exact .inr (by rw [List.length_cons]; omega)

namespace Ahead

variable {w : Writer} {ws : List Writer} {e final : NameIndex} {s : ReadState}

theorem withRegistry (h : Ahead ws e final s) {g : Registry} (hg : g.KeepsSlots) :
    Ahead ws e final { s with registry := g } :=
  { h with keepsSlots := hg }

/-- Behind bytes that teach no name stand the items that are left. -/
theorem behind {bytes : List UInt8} {ws' : List Writer} (h : Ahead (w :: ws) e final s)
    (hw : Writer.concat (w :: ws) = .emit bytes ++ .concat ws') (hws' : ∀ v ∈ ws', IsItem v) :
    ∃ rest, s.input = bytes ++ rest ∧ Ahead ws' e final { s with input := rest } := by
  have hinput := h.input_eq
  have hfailure := h.failure?_eq
  have hnames := h.names_eq
  have hlt := h.length_lt
  rw [hw, Writer.emit_append] at hinput hfailure hnames
  refine ⟨_, hinput, hws', h.agrees, h.keepsSlots, rfl, hfailure, hnames, h.final_le, ?_⟩
  rw [hinput, List.length_append] at hlt
  dsimp only
  omega

theorem leaf {bytes : List UInt8} (h : Ahead (.emit bytes :: ws) e final s) :
    ∃ rest, s.input = bytes ++ rest ∧ Ahead ws e final { s with input := rest } :=
  h.behind rfl fun v hv => h.isItem v (List.mem_cons_of_mem _ hv)

theorem group {bytes : List UInt8} {inner : List Writer} (hinner : ∀ v ∈ inner, IsItem v)
    (h : Ahead ((.emit bytes ++ .concat inner) :: ws) e final s) :
    ∃ rest, s.input = bytes ++ rest ∧ Ahead (inner ++ ws) e final { s with input := rest } := by
  refine h.behind ?_ ?_
  · rw [Writer.concat_cons, Writer.append_assoc, Writer.concat_append]
  · intro v hv
    rcases List.mem_append.mp hv with hv | hv
    · exact hinner v hv
    · exact h.isItem v (List.mem_cons_of_mem _ hv)

theorem failure?_head (h : Ahead (w :: ws) e final s) : (w e).failure? = none :=
  (Writer.failure?_of_append h.failure?_eq).1

theorem input_cons (h : Ahead (w :: ws) e final s) :
    s.input = (w e).bytes ++ (Writer.concat ws (w e).names).bytes := by
  rw [h.input_eq, Writer.concat_cons, Writer.append_of_none h.failure?_head]

/-- Once an item is read, with the names it brought, the other items are left. -/
theorem tail (h : Ahead (w :: ws) e final s) {d : NameTable} {g : Registry} {rest : List UInt8}
    (hd : (w e).names.Agrees d) (hg : g.KeepsSlots)
    (hrest : rest = (Writer.concat ws (w e).names).bytes) :
    Ahead ws (w e).names final ⟨d, g, rest⟩ := by
  have hfailure := h.failure?_eq
  have hnames := h.names_eq
  have hlt := h.length_lt
  rw [h.input_cons, List.length_append] at hlt
  rw [Writer.concat_cons, Writer.append_of_none h.failure?_head] at hfailure hnames
  refine ⟨fun v hv => h.isItem v (List.mem_cons_of_mem _ hv), hd, hg, hrest, hfailure, hnames,
    h.final_le, ?_⟩
  dsimp only
  rw [hrest]
  omega

theorem size_head_le (h : Ahead (w :: ws) e final s) : (w e).names.size ≤ maxNames := by
  have hnames := h.names_eq
  rw [Writer.concat_cons, Writer.append_of_none h.failure?_head] at hnames
  have hgrows := Writer.Grows.concat fun v hv => (h.isItem v (List.mem_cons_of_mem _ hv)).grows
  have hfinal := h.final_le
  rw [← hnames] at hfinal
  exact (hgrows.size_le _).trans hfinal

theorem name {x : String} (h : Ahead (.name x :: ws) e final s) :
    ∃ rest, s.input = Tag.tag.byte :: rest ∧
      ∀ a t, Reader.nameBody { s with input := rest } = .ok a t →
        a = x ∧ ∃ e', Ahead ws e' final t := by
  have hinput := h.input_cons
  have hlt := h.length_lt
  rw [hinput, List.length_append] at hlt
  obtain ⟨body, hbytes, hread⟩ := nameBody_ok h.agrees h.size_head_le (by omega)
  refine ⟨_, by rw [hinput, hbytes, List.cons_append], fun a t hr => ?_⟩
  obtain ⟨ha, -, d, rfl, hd⟩ := hread _ _ a t hr
  exact ⟨ha, _, h.tail hd h.keepsSlots rfl⟩

theorem length_le (h : Ahead ws e final s) : ws.length ≤ s.input.length := by
  rw [h.input_eq]
  exact length_le_concat h.isItem h.failure?_eq

end Ahead

def Exact {α : Type} (n : Nat) (r : Reader α) : Prop :=
  ∀ ⦃bytes : List UInt8⦄ ⦃names g rest a t⦄, bytes.length = n →
    r ⟨names, g, bytes ++ rest⟩ = .ok a t → t = ⟨names, g, rest⟩

namespace Exact

variable {α β : Type} {n : Nat} {r : Reader α}

theorem pure (a : α) : Exact 0 (Pure.pure a : Reader α) := by
  intro bytes names g rest b t hlen h
  rw [List.eq_nil_of_length_eq_zero hlen] at h
  exact (Reader.pure_eq_ok_iff.mp h).2.symm

theorem corrupted (cause : Corruption) : Exact n (Reader.corrupted cause : Reader α) :=
  fun _ _ _ _ _ _ _ h => nomatch h

theorem bind (hr : Exact n r) {f : α → Reader β} (hf : ∀ a, Exact 0 (f a)) :
    Exact n (r >>= f) := by
  intro bytes names g rest b t hlen h
  obtain ⟨a, u, hu, h⟩ := Reader.bind_eq_ok_iff.mp h
  obtain rfl := hr hlen hu
  have hnil : ([] : List UInt8).length = 0 := rfl
  exact hf a hnil h

theorem map (hr : Exact n r) (f : α → β) : Exact n (r >>= fun a => Pure.pure (f a)) :=
  hr.bind fun a => .pure (f a)

theorem bigEndian (what : String) (width : Nat) : Exact width (Reader.bigEndian what width) := by
  intro bytes names g rest a t hlen h
  rw [Reader.bigEndian, Reader.bind_of_ok (Reader.bytes_append_of_length hlen ..)] at h
  exact (Reader.pure_eq_ok_iff.mp h).2.symm

theorem char : Exact 2 Reader.char := by
  refine ((Exact.bigEndian _ 2).map _).bind fun unit => ?_
  cases Text.Utf16.unitChar? unit with
  | some c => exact .pure c
  | none => exact .corrupted _

theorem numberPayload {t : Tag} (h : t.width? = some n) : Exact n (Reader.numberPayload t) := by
  cases t with
  | signed1 | signed2 | signed4 | float4 | float8 | char =>
    cases h
    exact ((Exact.bigEndian _ _).map _).map _
  | signed8 =>
    cases h
    exact (Exact.bigEndian _ _).map _
  | _ => exact .corrupted _

theorem payload {t : Tag} (h : t.width? = some n) (value : Reader Value) :
    Exact n (Reader.payload value t) := by
  cases t with
  | null | boolTrue | boolFalse =>
    cases h
    exact .pure _
  | signed1 | signed2 | signed4 | signed8 | float4 | float8 =>
    cases h
    exact ((Exact.bigEndian _ _).map _).map _
  | char =>
    cases h
    exact Exact.char.map _
  | _ => cases h

end Exact

/-- A success passes at least so many items, and exactly so many if no later read falls behind. -/
def Consumes {α : Type} (n : Nat) (r : Reader α) : Prop :=
  ∀ ⦃ws e final s a t⦄, Ahead ws e final s → r s = .ok a t →
    ∃ ws' e', Ahead ws' e' final t ∧ Passed n ws ws'

namespace Consumes

variable {α β : Type} {m n : Nat} {r : Reader α}

theorem pure (a : α) : Consumes 0 (Pure.pure a : Reader α) := by
  intro ws e final s b t hs h
  obtain ⟨-, rfl⟩ := Reader.pure_eq_ok_iff.mp h
  exact ⟨ws, e, hs, .inl ⟨Nat.zero_le _, rfl⟩⟩

theorem throw (f : Failure) : Consumes n (MonadExcept.throw f : Reader α) :=
  fun _ _ _ _ _ _ _ h => nomatch h

theorem ofExcept (result : Except Failure α) : Consumes 0 (Reader.ofExcept result) := by
  cases result with
  | ok a => exact .pure a
  | error f => exact .throw f

theorem bind (hr : Consumes m r) {f : α → Reader β} (hf : ∀ a, Consumes n (f a)) :
    Consumes (m + n) (r >>= f) := by
  intro ws e final s b t hs h
  obtain ⟨a, u, hu, h⟩ := Reader.bind_eq_ok_iff.mp h
  obtain ⟨ws₁, e₁, hs₁, hpassed₁⟩ := hr hs hu
  obtain ⟨ws₂, e₂, hs₂, hpassed₂⟩ := hf a hs₁ h
  exact ⟨ws₂, e₂, hs₂, hpassed₁.trans hpassed₂⟩

theorem andThen (hr : Consumes n r) {f : α → Reader β} (hf : ∀ a, Consumes 0 (f a)) :
    Consumes n (r >>= f) := hr.bind hf

theorem map (hr : Consumes n r) (f : α → β) : Consumes n (r >>= fun a => Pure.pure (f a)) :=
  hr.andThen fun a => .pure (f a)

theorem times (hr : Consumes n r) (count : Nat) : Consumes (count * n) (Reader.times r count) := by
  induction count with
  | zero =>
    rw [Nat.zero_mul]
    exact .pure []
  | succ count ih =>
    rw [Nat.succ_mul, Nat.add_comm]
    exact hr.bind fun a => ih.map _

theorem foldlM {σ ρ : Type} {step : ρ → σ → Reader ρ} (h : ∀ b a, Consumes 1 (step b a))
    (as : List σ) (b : ρ) : Consumes as.length (as.foldlM step b) := by
  induction as generalizing b with
  | nil => exact .pure b
  | cons a as ih =>
    rw [List.foldlM_cons, List.length_cons, Nat.add_comm]
    exact (h b a).bind ih

theorem stringIn {value : Reader Value} (h : Consumes n value) :
    Consumes n (Reader.stringIn value) :=
  h.andThen fun v => by
    cases v with
    | string s => exact .pure s
    | _ => exact .throw _

theorem arrayIn {value : Reader Value} (h : Consumes n value) :
    Consumes n (Reader.arrayIn value) :=
  h.andThen fun v => by
    cases v with
    | array component items => exact .pure (component, items)
    | _ => exact .throw _

end Consumes

/-- A reader that passes all items ends with the names that were written. -/
theorem Consumes.all {α : Type} {ws : List Writer} {r : Reader α} (hr : Consumes ws.length r)
    {e final : NameIndex} {s t : ReadState} {a : α} (hs : Ahead ws e final s) (h : r s = .ok a t) :
    final.Agrees t.names := by
  obtain ⟨ws', e', ht, ⟨-, rfl⟩ | hmore⟩ := hr hs h
  · rw [List.drop_length] at ht
    obtain rfl : e' = final := ht.names_eq
    exact ht.agrees
  · omega

/-- A reader that goes by a lead byte and then, after a tag, by what follows that tag. -/
structure Headed {α : Type} (r : Reader α) (next : Tag → Reader α) : Prop where
  empty : ∀ {names g a t}, r ⟨names, g, []⟩ ≠ .ok a t
  literal : ∀ {byte : UInt8} {names g rest a t}, byte ≤ Tag.maxLiteral →
    r ⟨names, g, byte :: rest⟩ = .ok a t → t = ⟨names, g, rest⟩
  tagged : ∀ {t : Tag} {names g rest},
    r ⟨names, g, t.byte :: rest⟩ = next t ⟨names, g, rest⟩
  leaf : ∀ {t bytes names g rest a s}, IsLeaf t bytes → bytes.length < 2 ^ 64 →
    next t ⟨names, g, bytes ++ rest⟩ = .ok a s → s = ⟨names, g, rest⟩
  name : ∀ {s a t}, next .tag s = .ok a t → ∃ x, Reader.nameBody s = .ok x t
  group : ∀ {t bytes inner ws e final names g rest a s}, Announces t bytes inner →
    Ahead (inner ++ ws) e final ⟨names, g, rest⟩ →
    next t ⟨names, g, bytes ++ rest⟩ = .ok a s →
    ∃ ws' e', Ahead ws' e' final s ∧ Passed inner.length (inner ++ ws) ws'

theorem Headed.consumes {α : Type} {r : Reader α} {next : Tag → Reader α} (h : Headed r next) :
    Consumes 1 r := by
  intro ws e final s a t hs hr
  obtain ⟨names, g, input⟩ := s
  cases ws with
  | nil =>
    obtain rfl : input = [] := hs.input_eq
    exact absurd hr h.empty
  | cons w ws =>
    have hnext : ∀ e', Ahead ws e' final t →
        ∃ ws' e', Ahead ws' e' final t ∧ Passed 1 (w :: ws) ws' :=
      fun e' ht => ⟨ws, e', ht, .inl ⟨by simp, rfl⟩⟩
    cases hs.isItem w (List.mem_cons_self ..) with
    | fail f => cases hs.failure?_head
    | literal hle =>
      obtain ⟨rest, rfl, ht⟩ := hs.leaf
      obtain rfl := h.literal hle hr
      exact hnext e ht
    | leaf hleaf =>
      have hlt := hs.length_lt
      obtain ⟨rest, rfl, ht⟩ := hs.leaf
      rw [tagged_append, List.length_cons, List.length_append] at hlt
      rw [tagged_append, h.tagged] at hr
      obtain rfl := h.leaf hleaf (by omega) hr
      exact hnext e ht
    | name x =>
      obtain ⟨rest, rfl, hread⟩ := hs.name
      rw [h.tagged] at hr
      obtain ⟨y, hy⟩ := h.name hr
      obtain ⟨-, e', ht⟩ := hread y t hy
      exact hnext e' ht
    | group hann hinner =>
      obtain ⟨rest, rfl, ht⟩ := hs.group hinner
      rw [tagged_append, h.tagged] at hr
      obtain ⟨ws', e', ht', hpassed⟩ := h.group hann ht hr
      exact ⟨ws', e', ht', hpassed.group _⟩

end Wire

end RemoteCall
