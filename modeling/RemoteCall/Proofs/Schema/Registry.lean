import Mathlib.Tactic.SplitIfs
import RemoteCall.Proofs.Text.Split
import RemoteCall.Schema.Registry

/-!
# Registries without repeated names

A registry in which no name was registered twice reads every signature by the types it knows now:
each resolution that it keeps is the one it would make again. Resolving a signature changes neither
the types nor what any signature stands for.
-/

namespace RemoteCall

namespace Registry

/-- A registry that came about without registering a name twice. -/
inductive Grown : Registry → Prop
  | initial : Grown .initial
  | register {g : Registry} {t : RecordType} (h : Grown g) (new : g.lookup? t.name = none) :
    Grown (g.register t)
  | resolve {g : Registry} (signature : String) (h : Grown g) : Grown (g.resolve signature).2

structure IsResolution (g : Registry) (signature : String) (layout : WireLayout) (typeName : String)
    (names : List String) : Prop where
  split_eq : Text.split ',' signature = typeName :: names
  typeName_ne : typeName ≠ ""
  isSome_lookup? : (g.lookup? typeName).isSome
  layout_eq : layout = g.layoutOf signature typeName names

def IsCurrent (g : Registry) : Prop :=
  ∀ signature layout, g.resolved.lookup signature = some layout →
    ∃ typeName names, g.IsResolution signature layout typeName names

variable {g g' : Registry}

theorem lookup?_register_of_ne {t : RecordType} {name : String} (h : name ≠ t.name) :
    (g.register t).lookup? name = g.lookup? name := by
  have hname : (t.name == name) = false := beq_eq_false_iff_ne.mpr h.symm
  have hpred :
      (fun u : RecordType => decide ((u.name != t.name) = true ∧ (u.name == name) = true)) =
        fun u => u.name == name := by
    funext u
    by_cases hu : u.name = name
    · simp [hu, h]
    · simp [hu]
  simp only [lookup?, register, List.find?_cons, hname, List.find?_filter, hpred]

theorem layoutOf_congr (h : g'.lookup? = g.lookup?) (signature typeName : String)
    (names : List String) :
    g'.layoutOf signature typeName names = g.layoutOf signature typeName names := by
  rw [layoutOf, layoutOf, h]

theorem isSome_lookup?_of_not_dynamic {signature typeName : String} {names : List String}
    (h : ¬ (g.layoutOf signature typeName names).isDynamic = true) :
    (g.lookup? typeName).isSome := by
  cases hl : g.lookup? typeName with
  | some t => rfl
  | none => simp [layoutOf, hl, WireLayout.isDynamic] at h

inductive ResolvesTo (g : Registry) (signature : String) :
    Except Failure WireLayout × Registry → Prop
  | kept {layout : WireLayout} (h : g.resolved.lookup signature = some layout) :
    ResolvesTo g signature (.ok layout, g)
  | refused (h : ∀ typeName names, Text.split ',' signature = typeName :: names → typeName = "") :
    ResolvesTo g signature (.error (.streamCorrupted (.signatureWithoutType signature)), g)
  | dynamic {typeName : String} {names : List String}
    (hsplit : Text.split ',' signature = typeName :: names) :
    ResolvesTo g signature (.ok (g.layoutOf signature typeName names), g)
  | learned {typeName : String} {names : List String}
    (hsplit : Text.split ',' signature = typeName :: names) (hne : typeName ≠ "")
    (hknown : (g.lookup? typeName).isSome) :
    ResolvesTo g signature (.ok (g.layoutOf signature typeName names),
      { g with resolved := (signature, g.layoutOf signature typeName names) :: g.resolved })

theorem resolvesTo (g : Registry) (signature : String) :
    g.ResolvesTo signature (g.resolve signature) := by
  unfold resolve
  cases hl : g.resolved.lookup signature with
  | some layout => exact .kept hl
  | none =>
    cases hsplit : Text.split ',' signature with
    | nil =>
      refine .refused fun typeName names h => ?_
      rw [hsplit] at h
      cases h
    | cons typeName names =>
      dsimp only
      split_ifs with hne hdyn
      · refine .refused fun typeName' names' h => ?_
        rw [hsplit] at h
        cases h
        exact hne
      · exact .dynamic hsplit
      · exact .learned hsplit hne (isSome_lookup?_of_not_dynamic hdyn)

theorem lookup?_resolve (g : Registry) (signature : String) :
    (g.resolve signature).2.lookup? = g.lookup? := by
  have h := g.resolvesTo signature
  generalize g.resolve signature = outcome at h ⊢
  cases h <;> rfl

/-- A signature is refused only for having no type. -/
theorem resolve_error {signature : String} {f : Failure} (h : (g.resolve signature).1 = .error f) :
    f = .streamCorrupted (.signatureWithoutType signature) := by
  have hcases := g.resolvesTo signature
  generalize g.resolve signature = outcome at h hcases
  cases hcases with
  | refused =>
    cases h
    rfl
  | _ => cases h

theorem IsResolution.congr {signature typeName : String} {layout : WireLayout}
    {names : List String} (h : g.IsResolution signature layout typeName names)
    (hg : g'.lookup? = g.lookup?) : g'.IsResolution signature layout typeName names where
  split_eq := h.split_eq
  typeName_ne := h.typeName_ne
  isSome_lookup? := by rw [hg]; exact h.isSome_lookup?
  layout_eq := by rw [layoutOf_congr hg]; exact h.layout_eq

theorem resolve_of_split (hg : g.IsCurrent) {signature typeName : String} {names : List String}
    (hsplit : Text.split ',' signature = typeName :: names) (hne : typeName ≠ "") :
    (g.resolve signature).1 = .ok (g.layoutOf signature typeName names) := by
  have h := g.resolvesTo signature
  generalize g.resolve signature = outcome at h ⊢
  cases h with
  | kept hkept =>
    obtain ⟨typeName', names', h⟩ := hg _ _ hkept
    cases hsplit.symm.trans h.split_eq
    rw [h.layout_eq]
  | refused hrefused => exact absurd (hrefused _ _ hsplit) hne
  | dynamic hsplit' =>
    cases hsplit.symm.trans hsplit'
    rfl
  | learned hsplit' =>
    cases hsplit.symm.trans hsplit'
    rfl

theorem resolve_of_split_empty (hg : g.IsCurrent) {signature : String} {names : List String}
    (hsplit : Text.split ',' signature = "" :: names) :
    (g.resolve signature).1 = .error (.streamCorrupted (.signatureWithoutType signature)) := by
  unfold resolve
  cases hl : g.resolved.lookup signature with
  | some layout =>
    obtain ⟨typeName, names', h⟩ := hg _ _ hl
    cases hsplit.symm.trans h.split_eq
    exact absurd rfl h.typeName_ne
  | none => simp only [hsplit, if_true]

/-- A signature that is resolved has a type, and stands for what the types known now give. -/
theorem IsCurrent.layout_of_resolve (hg : g.IsCurrent) {signature : String} {layout : WireLayout}
    (h : (g.resolve signature).1 = .ok layout) :
    ∃ typeName names, Text.split ',' signature = typeName :: names ∧ typeName ≠ "" ∧
      layout = g.layoutOf signature typeName names := by
  cases hsplit : Text.split ',' signature with
  | nil =>
    have hnil : Text.splitChars ',' signature.toList = [] := List.map_eq_nil_iff.mp hsplit
    exact absurd hnil (Text.splitChars_ne_nil _ _)
  | cons typeName names =>
    by_cases hne : typeName = ""
    · subst hne
      rw [resolve_of_split_empty hg hsplit] at h
      cases h
    · rw [resolve_of_split hg hsplit hne] at h
      cases h
      exact ⟨typeName, names, rfl, hne, rfl⟩

theorem IsCurrent.resolve (hg : g.IsCurrent) (signature : String) :
    (g.resolve signature).2.IsCurrent := by
  have hlookup := lookup?_resolve g signature
  have h := g.resolvesTo signature
  generalize g.resolve signature = outcome at h hlookup ⊢
  cases h with
  | @learned typeName names hsplit hne hknown =>
    intro s layout hs
    by_cases hsig : s = signature
    · subst hsig
      rw [List.lookup_cons_self, Option.some.injEq] at hs
      exact ⟨typeName, names, IsResolution.congr ⟨hsplit, hne, hknown, hs.symm⟩ hlookup⟩
    · rw [List.lookup_cons, beq_eq_false_iff_ne.mpr hsig] at hs
      obtain ⟨typeName', names', h⟩ := hg s layout hs
      exact ⟨typeName', names', h.congr hlookup⟩
  | _ => exact hg

theorem IsCurrent.register (hg : g.IsCurrent) {t : RecordType} (hnew : g.lookup? t.name = none) :
    (g.register t).IsCurrent := by
  intro signature layout hs
  obtain ⟨typeName, names, h⟩ := hg signature layout hs
  have hne : typeName ≠ t.name := by
    rintro rfl
    have hsome := h.isSome_lookup?
    rw [hnew] at hsome
    cases hsome
  have hlookup : (g.register t).lookup? typeName = g.lookup? typeName :=
    lookup?_register_of_ne hne
  refine ⟨typeName, names, h.split_eq, h.typeName_ne, ?_, ?_⟩
  · rw [hlookup]
    exact h.isSome_lookup?
  · rw [h.layout_eq, layoutOf, layoutOf, hlookup]

theorem Grown.isCurrent (h : g.Grown) : g.IsCurrent := by
  induction h with
  | initial =>
    intro signature layout hs
    cases hs
  | register _ new ih => exact ih.register new
  | resolve signature _ ih => exact ih.resolve signature

/-- A registry reads what another one writes: it knows the same types and reads by them. -/
structure ReadsFor (g' g : Registry) : Prop where
  lookup?_eq : g'.lookup? = g.lookup?
  isCurrent : g'.IsCurrent

theorem Grown.readsFor (h : g.Grown) : g.ReadsFor g := ⟨rfl, h.isCurrent⟩

theorem ReadsFor.resolve (h : g'.ReadsFor g) (signature : String) :
    (g'.resolve signature).2.ReadsFor g where
  lookup?_eq := (lookup?_resolve g' signature).trans h.lookup?_eq
  isCurrent := h.isCurrent.resolve signature

theorem resolve_congr {signature : String} (hlookup : g'.lookup? = g.lookup?)
    (hresolved : g'.resolved.lookup signature = g.resolved.lookup signature) :
    (g'.resolve signature).1 = (g.resolve signature).1 := by
  unfold resolve
  rw [hresolved]
  cases g.resolved.lookup signature with
  | some layout => rfl
  | none =>
    cases Text.split ',' signature with
    | nil => rfl
    | cons typeName names =>
      dsimp only
      rw [layoutOf_congr hlookup]
      split_ifs <;> rfl

theorem resolve_of_lookup {signature : String} {layout : WireLayout}
    (h : g.resolved.lookup signature = some layout) : (g.resolve signature).1 = .ok layout := by
  simp only [resolve, h]

theorem resolve_of_lookup_none {signature typeName : String}
    {names : List String} (hnone : g.resolved.lookup signature = none)
    (hsplit : Text.split ',' signature = typeName :: names) (hne : typeName ≠ "") :
    (g.resolve signature).1 = .ok (g.layoutOf signature typeName names) := by
  unfold resolve
  simp only [hnone, hsplit, if_neg hne]
  split <;> rfl

/-- Resolving keeps at most the layout that it gives. -/
theorem resolved_resolve (g : Registry) (signature : String) :
    (g.resolve signature).2.resolved = g.resolved ∨
      ∃ layout, (g.resolve signature).1 = .ok layout ∧
        (g.resolve signature).2.resolved = (signature, layout) :: g.resolved := by
  have h := g.resolvesTo signature
  generalize g.resolve signature = outcome at h ⊢
  cases h with
  | learned => exact .inr ⟨_, rfl, rfl⟩
  | _ => exact .inl rfl

/-- What a signature stands for does not depend on the signatures resolved before. -/
theorem resolve_resolve (g : Registry) (signature signature' : String) :
    ((g.resolve signature).2.resolve signature').1 = (g.resolve signature').1 := by
  have hlookup := lookup?_resolve g signature
  rcases resolved_resolve g signature with h | ⟨layout, hlayout, h⟩
  · exact resolve_congr hlookup (by rw [h])
  · by_cases heq : signature' = signature
    · rw [heq, hlayout]
      exact resolve_of_lookup (by rw [h, List.lookup_cons_self])
    · refine resolve_congr hlookup ?_
      rw [h, List.lookup_cons, beq_eq_false_iff_ne.mpr heq]

inductive Resolves (g : Registry) : Registry → Prop
  | refl : Resolves g g
  | resolve {g' : Registry} (signature : String) (h : Resolves g g') :
    Resolves g (g'.resolve signature).2

theorem Resolves.lookup?_eq (h : g.Resolves g') : g'.lookup? = g.lookup? := by
  induction h with
  | refl => rfl
  | @resolve g' signature _ ih => rw [lookup?_resolve, ih]

theorem Resolves.readsFor (h : g.Resolves g') (hg : g.IsCurrent) : g'.ReadsFor g := by
  induction h with
  | refl => exact ⟨rfl, hg⟩
  | resolve signature _ ih => exact ih.resolve signature

theorem Resolves.trans {g'' : Registry} (h : g.Resolves g') (h' : g'.Resolves g'') :
    g.Resolves g'' := by
  induction h' with
  | refl => exact h
  | resolve signature _ ih => exact .resolve signature ih

theorem ReadsFor.trans {g'' : Registry} (h : g'.ReadsFor g) (h' : g'.Resolves g'') :
    g''.ReadsFor g := by
  induction h' with
  | refl => exact h
  | resolve signature _ ih => exact ih.resolve signature

/-- Whatever was resolved in between, a signature stands for the same. -/
theorem Resolves.resolve_eq (h : g.Resolves g') (signature : String) :
    (g'.resolve signature).1 = (g.resolve signature).1 := by
  induction h with
  | refl => rfl
  | resolve s _ ih => rw [resolve_resolve, ih]

end Registry

end RemoteCall
