import RemoteCall.Proofs.Wire.Steps

/-!
# Values end where they end

The bytes that a successful read consumes say by themselves where they end. The read does not look
at what stands behind them, and if some of them are missing at the end it notices. This holds of
everything a reader accepts, whether or not a writer would write it.
-/

namespace RemoteCall.Wire

namespace Reader

/-- In this state the reader takes these bytes, whatever stands behind them, and not fewer. -/
structure Takes {α : Type} (r : Reader α) (s : ReadState) (bytes : List UInt8) (a : α)
    (t : ReadState) : Prop where
  whole : ∀ rest, r { s with input := bytes ++ rest } = .ok a { t with input := rest }
  cut : ∀ front, front <+: bytes → front ≠ bytes →
    ∃ cause u, r { s with input := front } = .error (.streamCorrupted cause) u

def Delimits {α : Type} (r : Reader α) : Prop :=
  ∀ {s a t}, r s = .ok a t → ∃ bytes, s.input = bytes ++ t.input ∧ Takes r s bytes a t

namespace Takes

variable {α β : Type} {r : Reader α} {s t : ReadState} {a : α}

theorem still (h : ∀ input, r { s with input } = .ok a { t with input }) : Takes r s [] a t where
  whole rest := h rest
  cut _ hprefix hne := absurd (List.prefix_nil.mp hprefix) hne

/-- If bytes are missing, the first reader misses them or the second one does. -/
theorem bind {f : α → Reader β} {first second : List UInt8} {b : β} {u : ReadState}
    (h : Takes r s first a t) (hf : Takes (f a) t second b u) :
    Takes (r >>= f) s (first ++ second) b u where
  whole rest := by
    rw [List.append_assoc, bind_of_ok (h.whole _)]
    exact hf.whole rest
  cut front hprefix hne := by
    by_cases hfirst : first <+: front
    · obtain ⟨front', rfl⟩ := hfirst
      rw [List.prefix_append_right_inj] at hprefix
      obtain ⟨cause, u', he⟩ := hf.cut front' hprefix fun heq => hne (by rw [heq])
      exact ⟨cause, u', by rw [bind_of_ok (h.whole _), he]⟩
    · have hfront : front <+: first :=
        (List.prefix_or_prefix_of_prefix hprefix (List.prefix_append ..)).resolve_right hfirst
      obtain ⟨cause, u', he⟩ := h.cut front hfront fun heq => hfirst (heq ▸ List.prefix_rfl)
      exact ⟨cause, u', bind_of_error he⟩

end Takes

namespace Delimits

variable {α β : Type} {r : Reader α}

theorem lead : Delimits lead := by
  rintro ⟨names, g, _ | ⟨byte, input⟩⟩ a t h
  · cases h
  · cases h
    refine ⟨[byte], rfl, fun rest => rfl, fun front hprefix hne => ?_⟩
    cases front with
    | nil => exact ⟨_, _, rfl⟩
    | cons b front =>
      obtain ⟨rfl, hnil⟩ := List.cons_prefix_cons.mp hprefix
      exact absurd (congrArg (b :: ·) (List.prefix_nil.mp hnil)) hne

theorem bytes (what : String) (n : Nat) : Delimits (bytes what n) := by
  intro s front t h
  obtain ⟨hlen, hinput, ht⟩ := bytes_ok h
  refine ⟨front, hinput, fun rest => ?_, fun short hprefix hne => ?_⟩
  · rw [ht]
    exact bytes_append_of_length hlen ..
  · have hlt : (short.take n).length < n := by
      rw [List.length_take, ← hlen]
      have := hprefix.length_le
      have := mt hprefix.eq_of_length hne
      omega
    exact ⟨_, _, if_pos hlt⟩

theorem bind (hr : Delimits r) {f : α → Reader β}
    (hf : ∀ {s a t}, r s = .ok a t → Delimits (f a)) : Delimits (r >>= f) := by
  intro s b u h
  obtain ⟨a, t, ha, hb⟩ := bind_eq_ok_iff.mp h
  obtain ⟨first, hfirst, htakes⟩ := hr ha
  obtain ⟨second, hsecond, htakes'⟩ := hf ha hb
  refine ⟨first ++ second, ?_, htakes.bind htakes'⟩
  rw [hfirst, hsecond, List.append_assoc]

theorem of_get {f : ReadState → Reader α} (hnames : ∀ s t, s.names = t.names → f s = f t)
    (hf : ∀ s, Delimits (f s)) : Delimits (get >>= f) := by
  intro s a t h
  rw [get_bind] at h
  obtain ⟨bytes, hinput, htakes⟩ := hf s h
  have hget : ∀ input, (get >>= f) { s with input } = f s { s with input } := by
    intro input
    rw [get_bind, hnames { s with input } s rfl]
  refine ⟨bytes, hinput, fun rest => ?_, fun front hprefix hne => ?_⟩
  · rw [hget, htakes.whole]
  · rw [hget]
    exact htakes.cut front hprefix hne

theorem resolve (signature : String) : Delimits (resolve signature) := by
  intro s layout t h
  obtain ⟨hlayout, rfl⟩ := resolve_eq_ok_iff.mp h
  exact ⟨[], rfl, .still fun input => resolve_eq_ok_iff.mpr ⟨hlayout, rfl⟩⟩

theorem of_stepwise (h : Stepwise r) : Delimits r := by
  induction h with
  | pure a =>
    intro s b t h
    cases h
    exact ⟨[], rfl, .still fun _ => rfl⟩
  | fail f =>
    intro s b t h
    cases h
  | lead => exact lead
  | bytes what n => exact bytes what n
  | known hnames _ ih => exact of_get hnames ih
  | learn hshort =>
    intro s b t h
    cases h
    exact ⟨[], rfl, .still fun _ => rfl⟩
  | resolve signature => exact resolve signature
  | bind _ _ ihr ihf => exact bind ihr ihf

end Delimits

end Reader

/-- A read that succeeds does the same if anything else follows what it consumed, and reports a
corrupted stream on every proper prefix of that. -/
theorem read_value_delimited {g : Registry} {d : Decoder} {input rest : List UInt8} {v : Value}
    (h : (d.read g Reader.value input).result = .ok (v, rest)) :
    ∃ consumed, input = consumed ++ rest ∧
      (∀ other, d.read g Reader.value (consumed ++ other) =
        { d.read g Reader.value input with result := .ok (v, other) }) ∧
      ∀ front, front <+: consumed → front ≠ consumed →
        ∃ cause, (d.read g Reader.value front).result = .error (.streamCorrupted cause) := by
  cases hread : Reader.value d.budget ⟨d.names, g, input⟩ with
  | error f t =>
    rw [Decoder.read_of_error hread] at h
    cases h
  | ok a t =>
    rw [Decoder.read_of_ok hread] at h ⊢
    cases h
    obtain ⟨consumed, hinput, htakes⟩ := Reader.Delimits.of_stepwise (.value d.budget) hread
    refine ⟨consumed, hinput, fun other => ?_, fun front hprefix hne => ?_⟩
    · exact Decoder.read_of_ok (htakes.whole other)
    · obtain ⟨cause, u, he⟩ := htakes.cut front hprefix hne
      exact ⟨cause, by rw [Decoder.read_of_error he]⟩

/-- A list of one new name, its length written in two bytes, with another byte behind it. -/
theorem read_value_delimited_list :
    let input := [0xF2, 0xFB, 0, 1, 0xF3, 0, 1, 97, 7]
    (Decoder.new.read .initial Reader.value input).result = .ok (.list [.string "a"], [7]) ∧
      ∃ consumed, input = consumed ++ [7] ∧
        (∀ other, Decoder.new.read .initial Reader.value (consumed ++ other) =
          { Decoder.new.read .initial Reader.value input with
            result := .ok (.list [.string "a"], other) }) ∧
        ∀ front, front <+: consumed → front ≠ consumed →
          ∃ cause, (Decoder.new.read .initial Reader.value front).result =
            .error (.streamCorrupted cause) := by
  intro input
  have hread : (Decoder.new.read .initial Reader.value input).result =
      .ok (.list [.string "a"], [7]) := rfl
  exact ⟨hread, read_value_delimited hread⟩

end RemoteCall.Wire
