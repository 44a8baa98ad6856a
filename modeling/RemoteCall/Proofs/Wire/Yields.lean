import Mathlib.Tactic.ByContra
import RemoteCall.Proofs.Wire.Items
import RemoteCall.Proofs.Wire.RoundTrip

/-!
# What a successful read yields

Reading may fail on what was written, for instance on a text that is too long. If it succeeds, what
it yields depends on what was written, exactly the bytes written are consumed and the reading end
has learned the names written. The statements here are about the reads that succeed, so nothing is
asked of what was written; and the registry of the reading end need not be that of the writing end.
-/

namespace RemoteCall.Wire

structure Follows (g : Registry) (e : NameIndex) (names : NameTable) (known : Registry) : Prop where
  agrees : e.Agrees names
  resolves : g.Resolves known

structure Yields {α : Type} (g : Registry) (w : Writer) (r : Reader α) (p : α → Prop) : Prop where
  grows : w.Grows
  read : ∀ {e : NameIndex} {names : NameTable} {known : Registry} {rest : List UInt8} {a : α}
    {t : ReadState}, Follows g e names known → (w e).failure? = none →
    (w e).names.size ≤ maxNames → (w e).bytes.length < 2 ^ 64 → r ⟨names, known, (w e).bytes ++ rest⟩ = .ok a t →
    p a ∧ t.input = rest ∧ Follows g (w e).names t.names t.registry

namespace Yields

variable {α β : Type} {g : Registry} {w w' : Writer} {r : Reader α} {p : α → Prop} {q : β → Prop}
  {budget : Nat}

theorem of_written (hw : w.Grows) (h : ∀ e, (w e).failure? = none → Yields g w r p) :
    Yields g w r p where
  grows := hw
  read hs hw hsize hlt hr := (h _ hw).read hs hw hsize hlt hr

theorem fail (f : Failure) : Yields g (.fail f) r p := of_written (.fail f) fun _ h => by cases h

theorem mono {q : α → Prop} (h : Yields g w r p) (hpq : ∀ a, p a → q a) : Yields g w r q where
  grows := h.grows
  read hs hw hsize hlt hr := (h.read hs hw hsize hlt hr).imp_left (hpq _)

theorem pure {a : α} (ha : p a) : Yields g .nothing (Pure.pure a) p where
  grows := .emit []
  read hs _ _ _ hr := by
    obtain ⟨rfl, rfl⟩ := Reader.pure_eq_ok_iff.mp hr
    exact ⟨ha, rfl, hs⟩

theorem bind {f : α → Reader β} (h : Yields g w r p) (hw' : w'.Grows)
    (hf : ∀ a, p a → Yields g w' (f a) q) : Yields g (w ++ w') (r >>= f) q where
  grows := h.grows.append hw'
  read hs hw hsize hlt hr := by
    obtain ⟨hfirst, hsecond⟩ := Writer.failure?_of_append hw
    rw [Writer.append_of_none hfirst] at hsize hlt hr ⊢
    simp only [List.length_append] at hlt
    rw [List.append_assoc] at hr
    obtain ⟨a, ⟨names', known', input⟩, ha, hb⟩ := Reader.bind_eq_ok_iff.mp hr
    obtain ⟨hpa, rfl, hs'⟩ := h.read hs hfirst ((hw'.size_le _).trans hsize) (by omega) ha
    exact (hf a hpa).read hs' hsecond hsize (by omega) hb

theorem thenQuiet {f : α → Reader β} (h : Yields g w r p)
    (hf : ∀ a, p a → Yields g .nothing (f a) q) : Yields g w (r >>= f) q := by
  rw [← w.append_nothing]
  exact h.bind (.emit []) hf

theorem quietThen {f : α → Reader β} (h : Yields g .nothing r p) (hw : w.Grows)
    (hf : ∀ a, p a → Yields g w (f a) q) : Yields g w (r >>= f) q := by
  rw [← w.nothing_append]
  exact h.bind hw hf

theorem map (h : Yields g w r p) (f : α → β) (hf : ∀ a, p a → q (f a)) :
    Yields g w (r >>= fun a => Pure.pure (f a)) q :=
  h.thenQuiet fun a ha => pure (hf a ha)

theorem emit {bytes : List UInt8}
    (h : ∀ names known rest a t, bytes.length < 2 ^ 64 →
      r ⟨names, known, bytes ++ rest⟩ = .ok a t → p a ∧ t = ⟨names, known, rest⟩) :
    Yields g (.emit bytes) r p where
  grows := .emit bytes
  read hs _ _ hlt hr := by
    obtain ⟨ha, rfl⟩ := h _ _ _ _ _ hlt hr
    exact ⟨ha, rfl, hs⟩

theorem behind {bytes : List UInt8} {r' : Reader α}
    (hr' : ∀ names known rest, r' ⟨names, known, bytes ++ rest⟩ = r ⟨names, known, rest⟩)
    (h : Yields g w r p) : Yields g (.emit bytes ++ w) r' p where
  grows := (Writer.Grows.emit bytes).append h.grows
  read hs hw hsize hlt hr := by
    rw [Writer.emit_append] at hw hsize hlt hr ⊢
    simp only [List.length_append] at hlt
    rw [List.append_assoc, hr'] at hr
    exact h.read hs hw hsize (by omega) hr

/-- A count is read as the number that was written, since no more items than bytes follow. -/
theorem counted {n : Nat} {ws : List Writer} {f : Nat → Reader α} (hitems : ∀ w ∈ ws, IsItem w)
    (hn : n ≤ ws.length) (h : Yields g (.concat ws) (f n) p) :
    Yields g (.emit (countBytes n) ++ .concat ws) (Reader.length >>= f) p where
  grows := (Writer.Grows.emit _).append h.grows
  read hs hw hsize hlt hr := by
    rw [Writer.emit_append] at hw hsize hlt hr ⊢
    simp only [List.length_append] at hlt
    have hcount := length_le_concat hitems hw
    rw [List.append_assoc] at hr
    obtain ⟨k, u, hk, hr⟩ := Reader.bind_eq_ok_iff.mp hr
    obtain ⟨rfl, -, rfl⟩ := Reader.length_countBytes_ok (by omega) hk
    exact h.read hs hw hsize (by omega) hr

theorem nameValue (x : String) (budget : Nat) :
    Yields g (.name x) (Reader.value budget) (· = .string x) where
  grows := .name x
  read hs _ hsize hlt hr := by
    cases budget with
    | zero => cases hr
    | succ budget =>
      obtain ⟨body, hbytes, hread⟩ := nameBody_ok hs.agrees hsize hlt
      rw [hbytes, List.cons_append, Reader.value_tagged, Reader.payload] at hr
      obtain ⟨y, u, hy, hr⟩ := Reader.bind_eq_ok_iff.mp hr
      obtain ⟨rfl, -, names', rfl, hagrees⟩ := hread _ _ y u hy
      obtain ⟨rfl, rfl⟩ := Reader.pure_eq_ok_iff.mp hr
      exact ⟨rfl, rfl, hagrees, hs.resolves⟩

theorem nameString (x : String) (budget : Nat) :
    Yields g (.name x) (Reader.stringIn (Reader.value budget)) (· = x) :=
  (nameValue x budget).thenQuiet fun _ hv => by
    subst hv
    exact pure rfl

theorem resolve {signature : String} {layout : WireLayout}
    (h : (g.resolve signature).1 = .ok layout) :
    Yields g .nothing (Reader.resolve signature) (· = layout) where
  grows := .emit []
  read hs _ _ _ hr := by
    obtain ⟨hlayout, rfl⟩ := Reader.resolve_eq_ok_iff.mp hr
    rw [hs.resolves.resolve_eq, h] at hlayout
    cases hlayout
    exact ⟨rfl, rfl, hs.agrees, .resolve signature hs.resolves⟩

theorem tagged {t : Tag} {p : Value → Prop}
    (h : Yields g w (Reader.payload (Reader.value budget) t) p) :
    Yields g (.emit [t.byte] ++ w) (Reader.value (budget + 1)) p :=
  h.behind fun names known rest => Reader.value_tagged budget t names known rest

theorem taggedCount {t : Tag} {n : Nat} {ws : List Writer} {f : Nat → Reader Value}
    {p : Value → Prop} (hitems : ∀ w ∈ ws, IsItem w) (hn : n ≤ ws.length)
    (hr : Reader.payload (Reader.value budget) t = Reader.length >>= f)
    (h : Yields g (.concat ws) (f n) p) :
    Yields g (.emit (Wire.tagged t (countBytes n)) ++ .concat ws) (Reader.value (budget + 1))
      p := by
  have hw : (Writer.emit (Wire.tagged t (countBytes n)) ++ Writer.concat ws) =
      .emit [t.byte] ++ (.emit (countBytes n) ++ .concat ws) := by
    funext e
    simp [Writer.emit_append, Wire.tagged]
  rw [hw]
  refine tagged ?_
  rw [hr]
  exact counted hitems hn h

theorem leaf {t : Tag} {bytes : List UInt8} {p : Value → Prop}
    (h : Yields g (.emit bytes) (Reader.payload (Reader.value budget) t) p) :
    Yields g (.emit (Wire.tagged t bytes)) (Reader.value (budget + 1)) p := by
  have hw : Writer.emit (Wire.tagged t bytes) = .emit [t.byte] ++ .emit bytes := by
    funext e
    exact (Writer.emit_append [t.byte] (.emit bytes) e).symm
  rw [hw]
  exact tagged h

theorem stringBody (x : String) : Yields g (.emit (stringBody x)) Reader.stringBody (· = x) :=
  emit fun names known rest a t hlt hr => by
    have hunits := length_units_le x
    exact Reader.stringBody_ok (by omega) hr

theorem byteData (data : List UInt8) :
    Yields g (.emit (countBytes data.length ++ data)) Reader.byteData (· = data) :=
  emit fun names known rest a t hlt hr => by
    rw [List.length_append] at hlt
    rw [List.append_assoc] at hr
    exact Reader.byteData_ok (by omega) hr

theorem fixed {v : Value} {bytes : List UInt8} (h : v.fixedBytes? = some bytes) :
    Yields g (.emit bytes) (Reader.value (budget + 1)) (· = v) :=
  emit fun names known rest a t _ hr => by
    rw [Reader.value_fixedBytes? h] at hr
    cases hr
    exact ⟨rfl, rfl⟩

theorem times {vs : List β} {w : β → Writer} {p : β → α → Prop}
    (h : ∀ v ∈ vs, Yields g (w v) r (p v)) :
    Yields g (.concat (vs.map w)) (Reader.times r vs.length) (List.Forall₂ p vs) := by
  induction vs with
  | nil => exact pure .nil
  | cons v vs ih =>
    have hrest := ih fun v' hv' => h v' (List.mem_cons_of_mem v hv')
    refine (h v (List.mem_cons_self ..)).bind hrest.grows fun a ha => ?_
    exact hrest.map _ fun as has => .cons ha has

theorem pushes {value : Reader Value} {w : Value → Writer} {p : Value → Value → Prop}
    {todo : List (String × Value)} (h : ∀ field ∈ todo, Yields g (w field.2) value (p field.2))
    (r : Record) :
    Yields g (.concat (todo.map fun field => w field.2))
      ((todo.map fun field => (field.1, none)).foldlM (Reader.intoSlot value true) r)
      fun r' => ∃ more, r' = ⟨r.typeName, r.fields ++ more⟩ ∧
        List.Forall₂ (fun field field' => field'.1 = field.1 ∧ p field.2 field'.2) todo more := by
  induction todo generalizing r with
  | nil => exact pure ⟨[], by rw [List.append_nil], .nil⟩
  | cons field todo ih =>
    have hfirst : Yields g (w field.2) (Reader.intoSlot value true r (field.1, none))
        fun r' => ∃ v, p field.2 v ∧ r' = r.push field.1 v :=
      (h field (List.mem_cons_self ..)).map _ fun v hv => ⟨v, hv, rfl⟩
    have hrest := ih fun field' hmem => h field' (List.mem_cons_of_mem _ hmem)
    refine hfirst.bind (hrest r).grows fun r' hr' => ?_
    obtain ⟨v, hv, rfl⟩ := hr'
    refine (hrest _).mono fun r' hr' => ?_
    obtain ⟨more, rfl, hmore⟩ := hr'
    exact ⟨(field.1, v) :: more, by simp [RecordOf.push], .cons ⟨rfl, hv⟩ hmore⟩

theorem objects {value : Reader Value} {w : Value → Writer} {p : Value → Value → Prop}
    {layout : List (String × FieldKind)} (hlayout : ∀ slot ∈ layout, slot.2 = .object)
    {todo : List (String × Value)} (hnames : layout.map Prod.fst = todo.map Prod.fst)
    (h : ∀ field ∈ todo, Yields g (w field.2) value (p field.2)) (typeName : String)
    (done : List (String × Value)) :
    Yields g (.concat (todo.map fun field => w field.2))
      (((RecordType.fieldsFrom layout done.length).map fun f => (f.name, some f)).foldlM
        (Reader.intoSlot value false)
        ⟨typeName, done ++ layout.map fun slot => (slot.1, slot.2.zero)⟩)
      fun r' => ∃ more, r' = ⟨typeName, done ++ more⟩ ∧
        List.Forall₂ (fun field field' => field'.1 = field.1 ∧ p field.2 field'.2) todo more := by
  induction layout generalizing todo done with
  | nil =>
    cases todo with
    | nil => exact pure ⟨[], rfl, .nil⟩
    | cons field todo => cases hnames
  | cons slot layout ih =>
    cases todo with
    | nil => cases hnames
    | cons field todo =>
      obtain ⟨name, kind⟩ := slot
      obtain ⟨hkind, hobjects⟩ := List.forall_mem_cons.mp hlayout
      obtain ⟨hfield, hfields⟩ := List.forall_mem_cons.mp h
      rw [List.map_cons, List.map_cons, List.cons.injEq] at hnames
      obtain ⟨rfl, hnames⟩ := hnames
      obtain rfl : kind = .object := hkind
      have hfirst : Yields g (w field.2)
          (Reader.intoSlot value false
            ⟨typeName, done ++ (field.1, .null) :: layout.map fun slot => (slot.1, slot.2.zero)⟩
            (field.1, some ⟨field.1, .object, done.length⟩))
          fun r' => ∃ v, p field.2 v ∧
            r' = ⟨typeName, (done ++ [(field.1, v)]) ++
              layout.map fun slot => (slot.1, slot.2.zero)⟩ := by
        refine hfield.map _ fun v hv => ⟨v, hv, ?_⟩
        have hat : Field.IsAt ⟨field.1, .object, done.length⟩
            ⟨typeName, done ++ (field.1, .null) ::
              layout.map fun slot => (slot.1, slot.2.zero)⟩ .null := by
          simp [Field.IsAt]
        rw [hat.set_eq]
        simp [List.set_append_right]
      refine hfirst.bind (ih hobjects hnames hfields done).grows fun r' hr' => ?_
      obtain ⟨v, hv, rfl⟩ := hr'
      have hrest := ih hobjects hnames hfields (done ++ [(field.1, v)])
      rw [List.length_append, List.length_singleton] at hrest
      refine hrest.mono fun r' hr' => ?_
      obtain ⟨more, rfl, hmore⟩ := hr'
      exact ⟨(field.1, v) :: more, by simp, .cons ⟨rfl, hv⟩ hmore⟩

end Yields

end RemoteCall.Wire
