import RemoteCall.Proofs.Value.Legible
import RemoteCall.Proofs.Wire.Headed

/-!
# Readers that take what was written, or fail

A reader on track stands before the items that are left with the names and the types of the writing
end. Under a condition it takes exactly the items meant for it and stays on track. Without it the
reader may still succeed, by taking more than was meant for it; it has then fallen behind, and
readers that keep pace never catch up. So a condition on every part of a value decides whether the
whole of it is read.
-/

namespace RemoteCall.Wire

theorem conveys_name_iff {e : NameIndex} {x : String} (hx : e.Conveys x) (y : String) :
    (Writer.name x e).names.Conveys y ↔ e.Conveys y := by
  cases hi : e.index? x with
  | some i => rw [Writer.name_of_known hi]
  | none =>
    rw [Writer.name_of_new hi]
    by_cases hy : y = x
    · subst hy
      exact ⟨fun _ => hx, fun _ => .inl (hx.isShort hi)⟩
    · rw [NameIndex.Conveys, NameIndex.index?_insert_of_ne hy, NameIndex.Conveys]

structure OnTrack (g : Registry) (conveyed : String → Prop) (ws : List Writer)
    (e final : NameIndex) (s : ReadState) : Prop where
  ahead : Ahead ws e final s
  readsFor : s.registry.ReadsFor g
  conveys_iff : ∀ x, e.Conveys x ↔ conveyed x

namespace OnTrack

variable {g : Registry} {conveyed : String → Prop} {w : Writer} {ws : List Writer}
  {e final : NameIndex} {s : ReadState}

theorem leaf {bytes : List UInt8} (h : OnTrack g conveyed (.emit bytes :: ws) e final s) :
    ∃ rest, s.input = bytes ++ rest ∧ OnTrack g conveyed ws e final { s with input := rest } := by
  obtain ⟨rest, hinput, ht⟩ := h.ahead.leaf
  exact ⟨rest, hinput, ht, h.readsFor, h.conveys_iff⟩

theorem group {bytes : List UInt8} {inner : List Writer} (hinner : ∀ v ∈ inner, IsItem v)
    (h : OnTrack g conveyed ((.emit bytes ++ .concat inner) :: ws) e final s) :
    ∃ rest, s.input = bytes ++ rest ∧
      OnTrack g conveyed (inner ++ ws) e final { s with input := rest } := by
  obtain ⟨rest, hinput, ht⟩ := h.ahead.group hinner
  exact ⟨rest, hinput, ht, h.readsFor, h.conveys_iff⟩

/-- A name that crosses is read as the string it is, if there is a level left for it. -/
theorem name {x : String} (h : OnTrack g conveyed (.name x :: ws) e final s) (hx : conveyed x)
    (budget : Nat) :
    ∃ t e', Reader.value (budget + 1) s = .ok (.string x) t ∧
      OnTrack g conveyed ws e' final t := by
  obtain ⟨names, known, input⟩ := s
  have hconveys := (h.conveys_iff x).mpr hx
  obtain ⟨body, d, hbytes, hd, hbody⟩ := exists_nameBody h.ahead.agrees hconveys
    h.ahead.size_head_le
  have hinput := h.ahead.input_cons
  dsimp only at hinput
  rw [hbytes, List.cons_append] at hinput
  refine ⟨_, _, ?_, h.ahead.tail hd h.ahead.keepsSlots rfl, h.readsFor, fun y => ?_⟩
  · rw [hinput, Reader.value_tagged, Reader.payload, Reader.bind_of_ok (hbody ..),
      Reader.pure_apply]
  · rw [conveys_name_iff hconveys, h.conveys_iff]

/-- Only a name that crosses can be read. -/
theorem conveyed_of_value {x : String} (h : OnTrack g conveyed (.name x :: ws) e final s)
    {budget : Nat} {v : Value} {t : ReadState} (hv : Reader.value budget s = .ok v t) :
    conveyed x ∧ 0 < budget := by
  obtain ⟨names, known, input⟩ := s
  cases budget with
  | zero => cases hv
  | succ budget =>
    refine ⟨?_, Nat.succ_pos _⟩
    have hinput := h.ahead.input_cons
    have hlt := h.ahead.length_lt
    rw [hinput, List.length_append] at hlt
    obtain ⟨body, hbytes, hread⟩ := nameBody_ok h.ahead.agrees h.ahead.size_head_le (by omega)
    dsimp only at hinput
    rw [hbytes, List.cons_append] at hinput
    rw [hinput, Reader.value_tagged, Reader.payload] at hv
    obtain ⟨y, u, hy, -⟩ := Reader.bind_eq_ok_iff.mp hv
    obtain ⟨-, hconveys, -⟩ := hread _ _ y u hy
    exact (h.conveys_iff x).mp hconveys

end OnTrack

/-- Under the condition the reader takes exactly these items. Without it the reader fails, or takes
more of what is left than these. -/
structure TakesIff {α : Type} (g : Registry) (conveyed : String → Prop) (p : Prop)
    (ws : List Writer) (r : Reader α) : Prop where
  takes : p → ∀ {rest : List Writer} {e final : NameIndex} {s : ReadState},
    OnTrack g conveyed (ws ++ rest) e final s →
      ∃ a t e', r s = .ok a t ∧ OnTrack g conveyed rest e' final t
  overruns : ¬ p → ∀ {rest : List Writer} {e final : NameIndex} {s : ReadState} {a : α}
    {t : ReadState}, OnTrack g conveyed (ws ++ rest) e final s → r s = .ok a t →
      ∃ ws' e', Ahead ws' e' final t ∧ ws'.length < rest.length

namespace TakesIff

variable {α β : Type} {g : Registry} {conveyed : String → Prop} {p q : Prop} {ws ws' : List Writer}
  {r : Reader α}

theorem pure (a : α) : TakesIff g conveyed True [] (Pure.pure a : Reader α) where
  takes _ _ _ _ _ h := ⟨a, _, _, rfl, h⟩
  overruns h := absurd trivial h

/-- What falls behind in the first reader stays behind in the second, which keeps pace. -/
theorem bind (h : TakesIff g conveyed p ws r) {f : α → Reader β}
    (hf : ∀ a, TakesIff g conveyed q ws' (f a)) (hpace : ∀ a, Consumes ws'.length (f a)) :
    TakesIff g conveyed (p ∧ q) (ws ++ ws') (r >>= f) where
  takes := by
    rintro ⟨hp, hq⟩ rest e final s hs
    rw [List.append_assoc] at hs
    obtain ⟨a, t, e₁, hr, ht⟩ := h.takes hp hs
    obtain ⟨b, u, e₂, hb, hu⟩ := (hf a).takes hq ht
    exact ⟨b, u, e₂, by rw [Reader.bind_of_ok hr, hb], hu⟩
  overruns := by
    intro hpq rest e final s b u hs hb
    rw [List.append_assoc] at hs
    obtain ⟨a, t, hr, hb⟩ := Reader.bind_eq_ok_iff.mp hb
    by_cases hp : p
    · have hq : ¬ q := fun hq => hpq ⟨hp, hq⟩
      obtain ⟨a', t', e₁, hr', ht⟩ := h.takes hp hs
      cases hr.symm.trans hr'
      exact (hf a).overruns hq ht hb
    · -- the second reader takes as many items as it has to from fewer than it should find
      obtain ⟨ws₁, e₁, ht, hlt⟩ := h.overruns hp hs hr
      obtain ⟨ws₂, e₂, hu, hpassed⟩ := hpace a ht hb
      rw [List.length_append] at hlt
      exact ⟨ws₂, e₂, hu, hpassed.length_lt hlt⟩

theorem map (h : TakesIff g conveyed p ws r) (f : α → β) :
    TakesIff g conveyed p ws (r >>= fun a => Pure.pure (f a)) := by
  have hmap := h.bind (fun a => pure (f a)) (fun a => Consumes.pure (f a))
  rwa [and_true, List.append_nil] at hmap

theorem congr (h : TakesIff g conveyed p ws r) (hpq : p ↔ q) : TakesIff g conveyed q ws r := by
  rwa [← propext hpq]

theorem fail (f : Failure) (p : Prop) (r : Reader α) : TakesIff g conveyed p [.fail f] r where
  takes _ _ _ _ _ hs := by cases hs.ahead.failure?_head
  overruns _ _ _ _ _ _ _ hs := by cases hs.ahead.failure?_head

theorem ofExcept {bytes : β → List UInt8} {result : Except Failure β}
    (h : ∀ b, result = .ok b → TakesIff g conveyed p [.emit (bytes b)] r) :
    TakesIff g conveyed p [.ofExcept bytes result] r := by
  cases result with
  | ok b => exact h b rfl
  | error f => exact fail f p r

theorem emit {bytes : List UInt8}
    (takes : p → ∀ names g rest, ∃ a, r ⟨names, g, bytes ++ rest⟩ = .ok a ⟨names, g, rest⟩)
    (holds : ∀ names g rest a t, bytes.length < 2 ^ 64 →
      r ⟨names, g, bytes ++ rest⟩ = .ok a t → p) :
    TakesIff g conveyed p [.emit bytes] r where
  takes := by
    intro hp rest e final s hs
    obtain ⟨names, known, input⟩ := s
    obtain ⟨input, rfl, ht⟩ := hs.leaf
    obtain ⟨a, ha⟩ := takes hp names known input
    exact ⟨a, _, e, ha, ht⟩
  overruns := by
    intro hp rest e final s a t hs hr
    obtain ⟨names, known, input⟩ := s
    have hlt := hs.ahead.length_lt
    obtain ⟨input, rfl, -⟩ := hs.leaf
    rw [List.length_append] at hlt
    exact absurd (holds names known input a t (by omega) hr) hp

theorem ofCarries {bytes : List UInt8} {a : α} (h : Carries (·.ReadsFor g) (.emit bytes) r a) :
    TakesIff g conveyed True [.emit bytes] r where
  takes := by
    intro _ rest e final s hs
    obtain ⟨names, known, input⟩ := s
    obtain ⟨d, known', hr, hd, hknown⟩ := h.read e names known (Writer.concat rest e).bytes
      hs.ahead.agrees hs.readsFor hs.ahead.size_head_le
    have hinput := hs.ahead.input_cons
    dsimp only at hinput
    rw [hinput]
    exact ⟨a, _, e, hr, hs.ahead.tail hd hknown.isCurrent.keepsSlots rfl, hknown, hs.conveys_iff⟩
  overruns h := absurd trivial h

theorem always {bytes : List UInt8}
    (h : ∀ names g rest, ∃ a, r ⟨names, g, bytes ++ rest⟩ = .ok a ⟨names, g, rest⟩) :
    TakesIff g conveyed True [.emit bytes] r :=
  emit (fun _ => h) fun _ _ _ _ _ _ _ => trivial

theorem group {bytes : List UInt8} {r' : Reader α} (hitems : ∀ w ∈ ws, IsItem w)
    (hr : ∀ names g rest, r' ⟨names, g, bytes ++ rest⟩ = r ⟨names, g, rest⟩)
    (h : TakesIff g conveyed p ws r) :
    TakesIff g conveyed p [.emit bytes ++ .concat ws] r' where
  takes := by
    intro hp rest e final s hs
    obtain ⟨names, known, input⟩ := s
    obtain ⟨input, rfl, ht⟩ := hs.group hitems
    rw [hr]
    exact h.takes hp ht
  overruns := by
    intro hp rest e final s a t hs hread
    obtain ⟨names, known, input⟩ := s
    obtain ⟨input, rfl, ht⟩ := hs.group hitems
    rw [hr] at hread
    exact h.overruns hp ht hread

/-- A count is read if it is small enough, and is then the number that was written. -/
theorem counted {n : Nat} {bytes : List UInt8} {f : Nat → Reader α} {r' : Reader α}
    (hitems : ∀ w ∈ ws, IsItem w) (hn : n ≤ ws.length)
    (hr : ∀ names g rest, r' ⟨names, g, bytes ++ rest⟩ =
      (Reader.length >>= f) ⟨names, g, countBytes n ++ rest⟩)
    (h : TakesIff g conveyed p ws (f n)) :
    TakesIff g conveyed (n ≤ Reader.maxLength ∧ p) [.emit bytes ++ .concat ws] r' where
  takes := by
    rintro ⟨hle, hp⟩ rest e final s hs
    obtain ⟨names, known, input⟩ := s
    obtain ⟨input, rfl, ht⟩ := hs.group hitems
    rw [hr, Reader.bind_of_ok (Reader.length_append hle ..)]
    exact h.takes hp ht
  overruns := by
    intro hp rest e final s a t hs hread
    obtain ⟨names, known, input⟩ := s
    obtain ⟨input, rfl, ht⟩ := hs.group hitems
    have hcount : n < 2 ^ 64 := by
      have hle := ht.ahead.length_le
      have hlt := ht.ahead.length_lt
      rw [List.length_append] at hle
      omega
    rw [hr] at hread
    obtain ⟨k, u, hk, hread⟩ := Reader.bind_eq_ok_iff.mp hread
    obtain ⟨rfl, hle, rfl⟩ := Reader.length_countBytes_ok hcount hk
    exact h.overruns (fun hq => hp ⟨hle, hq⟩) ht hread

theorem name (x : String) (budget : Nat) :
    TakesIff g conveyed (conveyed x ∧ 0 < budget) [.name x] (Reader.value budget) where
  takes := by
    rintro ⟨hx, hbudget⟩ rest e final s hs
    obtain ⟨budget, rfl⟩ := Nat.exists_eq_succ_of_ne_zero hbudget.ne'
    obtain ⟨t, e', hv, ht⟩ := hs.name hx budget
    exact ⟨.string x, t, e', hv, ht⟩
  overruns hp _ _ _ _ _ _ hs hr := absurd (hs.conveyed_of_value hr) hp

/-- Behind a name that has to be read the reader goes on with that name. -/
theorem named {x : String} {budget : Nat} {f : String → Reader α}
    (h : TakesIff g conveyed p ws (f x)) :
    TakesIff g conveyed ((conveyed x ∧ 0 < budget) ∧ p) (.name x :: ws)
      (Reader.stringIn (Reader.value budget) >>= f) where
  takes := by
    rintro ⟨⟨hx, hbudget⟩, hp⟩ rest e final s hs
    obtain ⟨budget, rfl⟩ := Nat.exists_eq_succ_of_ne_zero hbudget.ne'
    obtain ⟨t, e', hv, ht⟩ := OnTrack.name hs hx budget
    have hstring : Reader.stringIn (Reader.value (budget + 1)) s = .ok x t :=
      Reader.bind_of_ok hv
    rw [Reader.bind_of_ok hstring]
    exact h.takes hp ht
  overruns := by
    intro hp rest e final s a t hs hread
    obtain ⟨y, u, hy, hread⟩ := Reader.bind_eq_ok_iff.mp hread
    obtain ⟨v, u', hv, hy⟩ := Reader.bind_eq_ok_iff.mp hy
    obtain ⟨hx, hbudget⟩ := OnTrack.conveyed_of_value hs hv
    obtain ⟨budget, rfl⟩ := Nat.exists_eq_succ_of_ne_zero hbudget.ne'
    obtain ⟨t', e', hv', ht⟩ := OnTrack.name hs hx budget
    cases hv.symm.trans hv'
    cases hy
    exact h.overruns (fun hq => hp ⟨⟨hx, hbudget⟩, hq⟩) ht hread

theorem times {as : List β} {p : β → Prop} {ws : β → List Writer} {n : Nat}
    (h : ∀ b ∈ as, TakesIff g conveyed (p b) (ws b) r) (hlength : ∀ b, (ws b).length = n)
    (hr : Consumes n r) :
    TakesIff g conveyed (∀ b ∈ as, p b) (as.flatMap ws) (Reader.times r as.length) := by
  induction as with
  | nil => exact (pure []).congr (by simp)
  | cons b as ih =>
    have hrest := ih fun b' hb' => h b' (List.mem_cons_of_mem b hb')
    have hitems : (as.flatMap ws).length = as.length * n := by
      simp [List.length_flatMap, hlength]
    rw [List.forall_mem_cons, List.flatMap_cons, List.length_cons]
    refine (h b (List.mem_cons_self ..)).bind (fun a => hrest.map _) fun a => ?_
    rw [hitems]
    exact (hr.times as.length).map _

theorem foldlM {σ ρ τ : Type} {as : List τ} {slot : τ → σ} {step : ρ → σ → Reader ρ}
    {p : τ → Prop} {w : τ → Writer}
    (h : ∀ b, ∀ a ∈ as, TakesIff g conveyed (p a) [w a] (step b (slot a)))
    (hstep : ∀ b a, Consumes 1 (step b a)) (b : ρ) :
    TakesIff g conveyed (∀ a ∈ as, p a) (as.map w) ((as.map slot).foldlM step b) := by
  induction as generalizing b with
  | nil => exact (pure b).congr (by simp)
  | cons a as ih =>
    have hrest := ih fun b a' ha' => h b a' (List.mem_cons_of_mem a ha')
    rw [List.forall_mem_cons, List.map_cons, List.map_cons, List.foldlM_cons]
    refine (h b a (List.mem_cons_self ..)).bind hrest fun b => ?_
    have hpace := Consumes.foldlM hstep (as.map slot) b
    rwa [List.length_map, ← List.length_map w] at hpace

end TakesIff

end RemoteCall.Wire
