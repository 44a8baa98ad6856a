import Mathlib.Data.List.Nodup
import Mathlib.Logic.Function.Basic
import Mathlib.Tactic.SplitIfs
import RemoteCall.Pool.Basic

/-!
# Slots and the pools they make up

A look at a slot hands out a connection that was free and open, reserves a place or leaves the slot
without free connections. Whatever is done to the slot of one key, the slots of all other keys stay
as they are.
-/

namespace RemoteCall

namespace Slot

variable {s : Slot} {isOpen : Nat → Bool} {max : Nat} {c : Nat}

def members (s : Slot) : List Nat := s.free ++ s.used

theorem mem_members : c ∈ s.members ↔ c ∈ s.free ∨ c ∈ s.used := List.mem_append

/-- What one look at a slot comes to. Closed connections on the way to the one handed out are
forgotten, and if none is handed out all that were free were closed. -/
inductive Grants (s : Slot) (isOpen : Nat → Bool) (max : Nat) : SlotGrant × Slot → Prop
  | connection {rest shut : List Nat} {c : Nat} (free_eq : s.free = rest ++ c :: shut)
    (isOpen_eq : isOpen c = true) :
    Grants s isOpen max (.connection c, { s with free := rest, used := s.used ++ [c] })
  | lookAgain : Grants s isOpen max (.lookAgain, { s with free := [] })
  | reservation (lt : s.used.length + s.connecting < max) :
    Grants s isOpen max (.reservation, { s with free := [], connecting := s.connecting + 1 })
  | full : Grants s isOpen max (.full, { s with free := [] })

/-- The free connections in the order in which they are looked at are the closed ones met first, the
one that is open, and those not looked at. -/
theorem grants (s : Slot) (isOpen : Nat → Bool) (max : Nat) (hasLooked : Bool) :
    s.Grants isOpen max (s.grant isOpen max hasLooked) := by
  cases h : s.free.reverse.dropWhile (!isOpen ·) with
  | nil =>
    simp only [grant, popOpen, h]
    split_ifs with hagain hlt
    · exact .lookAgain
    · exact .reservation (by simpa [live] using hlt)
    · exact .full
  | cons c rest =>
    have hsplit : s.free.reverse = s.free.reverse.takeWhile (!isOpen ·) ++ c :: rest := by
      rw [← h, List.takeWhile_append_dropWhile]
    have hfree : s.free = rest.reverse ++ c :: (s.free.reverse.takeWhile (!isOpen ·)).reverse := by
      rw [← s.free.reverse_reverse]
      nth_rewrite 1 [hsplit]
      simp
    have hne : s.free.reverse.dropWhile (!isOpen ·) ≠ [] := by simp [h]
    have hopen : (!isOpen c) = false := by
      have hhead := List.head_dropWhile_not (!isOpen ·) hne
      simpa only [h, List.head_cons] using hhead
    simp only [grant, popOpen, h]
    exact .connection hfree (by simpa using hopen)

theorem nodup_handOut {rest shut : List Nat} (h : s.members.Nodup)
    (free_eq : s.free = rest ++ c :: shut) : (rest ++ (s.used ++ [c])).Nodup := by
  have hsub : (rest ++ c :: s.used).Sublist s.members := by
    rw [members, free_eq, List.append_assoc]
    exact (List.Sublist.refl rest).append ((List.sublist_append_right shut s.used).cons_cons c)
  exact ((List.perm_append_singleton c s.used).append_left rest).nodup_iff.mpr (h.sublist hsub)

theorem nodup_takeBack (h : s.members.Nodup) (hc : c ∈ s.used) :
    (s.free ++ [c] ++ s.used.filter (· != c)).Nodup := by
  obtain ⟨hfree, hused, hdisj⟩ := List.nodup_append.mp h
  refine List.nodup_append.mpr ⟨?_, hused.filter _, fun a ha b hb hab => ?_⟩
  · refine List.nodup_append.mpr ⟨hfree, List.nodup_singleton c, fun a ha b hb => ?_⟩
    rw [List.mem_singleton.mp hb]
    exact hdisj a ha c hc
  · subst hab
    obtain ⟨hb, hne⟩ := List.mem_filter.mp hb
    rcases List.mem_append.mp ha with ha | ha
    · exact hdisj a ha a hb rfl
    · simp [List.mem_singleton.mp ha] at hne

end Slot

namespace Pool

variable {p : Pool} {key : String} {s : Slot}

theorem lookup_replace (slots : List (String × Slot)) (key key' : String) (s : Slot) :
    (slots.map fun (k, old) => (k, if k = key then s else old)).lookup key' =
      if key' = key then (slots.lookup key').map fun _ => s else slots.lookup key' := by
  induction slots with
  | nil => simp
  | cons slot slots ih =>
    obtain ⟨k, old⟩ := slot
    rw [List.map_cons, List.lookup_cons, List.lookup_cons, ih]
    by_cases hk : key' = k
    · subst hk
      by_cases hkey : key' = key <;> simp [hkey]
    · simp [beq_eq_false_iff_ne.mpr hk]

theorem slot_setSlot (p : Pool) (key : String) (s : Slot) :
    (p.setSlot key s).slot = Function.update p.slot key s := by
  funext key'
  unfold setSlot slot
  by_cases hkey : key' = key
  · subst hkey
    rw [Function.update_self]
    split_ifs with hsome
    · obtain ⟨old, hold⟩ := Option.isSome_iff_exists.mp hsome
      simp [lookup_replace, hold]
    · rw [Bool.not_eq_true, Option.isSome_eq_false_iff, Option.isNone_iff_eq_none] at hsome
      simp [List.lookup_append, hsome]
  · rw [Function.update_of_ne hkey]
    split_ifs
    · simp [lookup_replace, hkey]
    · simp [List.lookup_append, List.lookup_cons, beq_eq_false_iff_ne.mpr hkey]

theorem slot_setSlot_self (p : Pool) (key : String) (s : Slot) : (p.setSlot key s).slot key = s := by
  rw [slot_setSlot, Function.update_self]

theorem slot_setSlot_of_ne {key' : String} (h : key' ≠ key) (s : Slot) :
    (p.setSlot key s).slot key' = p.slot key' := by
  rw [slot_setSlot, Function.update_of_ne h]

theorem forall_slot_setSlot {P : String → Slot → Prop} {p : Pool} {key : String} {s : Slot}
    (hs : P key s) (hothers : ∀ key', key' ≠ key → P key' (p.slot key')) (key' : String) :
    P key' ((p.setSlot key s).slot key') := by
  by_cases hkey : key' = key
  · rw [hkey, slot_setSlot_self]
    exact hs
  · rw [slot_setSlot_of_ne hkey]
    exact hothers key' hkey

/-- What a slot lists after one slot was changed, it listed before or the change added. -/
theorem mem_slot_of_setSlot {part : Slot → List Nat} {p : Pool} {key key' : String} {s : Slot}
    {new : Nat → Prop} {c : Nat} (hs : ∀ c ∈ part s, c ∈ part (p.slot key) ∨ new c)
    (hc : c ∈ part ((p.setSlot key s).slot key')) : c ∈ part (p.slot key') ∨ key' = key ∧ new c := by
  by_cases hkey : key' = key
  · subst hkey
    rw [slot_setSlot_self] at hc
    exact (hs c hc).imp_right (⟨rfl, ·⟩)
  · rw [slot_setSlot_of_ne hkey] at hc
    exact .inl hc

theorem slot_withSlot (p : Pool) (key : String) : (p.withSlot key).slot = p.slot := by
  rw [withSlot, slot_setSlot, Function.update_eq_self]

@[simp] theorem settings_setSlot (p : Pool) (key : String) (s : Slot) :
    (p.setSlot key s).settings = p.settings := by
  unfold setSlot
  split_ifs <;> rfl

@[simp] theorem isClosed_setSlot (p : Pool) (key : String) (s : Slot) :
    (p.setSlot key s).isClosed = p.isClosed := by
  unfold setSlot
  split_ifs <;> rfl

/-- A connection that is taken back is kept while the pool and the connection are open and there is
room among the free ones. -/
theorem takeBack_eq (p : Pool) (isOpen : Nat → Bool) (key : String) (c : Nat) :
    p.takeBack isOpen key c =
      if (p.isClosed = false ∧ isOpen c = true) ∧
          (p.slot key).free.length < p.settings.maxConnections then
        (true, p.setSlot key { p.slot key with
          free := (p.slot key).free ++ [c], used := (p.slot key).used.filter (· != c) })
      else (false, p.setSlot key { p.slot key with used := (p.slot key).used.filter (· != c) }) := by
  simp only [takeBack, Slot.takeBack, Bool.and_eq_true, Bool.not_eq_true', decide_eq_true_eq]
  split_ifs <;> rfl

def HasDistinctKeys (p : Pool) : Prop := (p.slots.map Prod.fst).Nodup

theorem HasDistinctKeys.setSlot (h : p.HasDistinctKeys) (key : String) (s : Slot) :
    (p.setSlot key s).HasDistinctKeys := by
  unfold HasDistinctKeys Pool.setSlot at *
  split_ifs with hsome
  · rw [List.map_map]
    exact h
  · rw [List.map_append, List.map_singleton]
    refine List.nodup_append.mpr ⟨h, List.nodup_singleton key, fun k hk k' hk' => ?_⟩
    rw [List.mem_singleton] at hk'
    rintro rfl
    obtain ⟨slot, hslot, rfl⟩ := List.mem_map.mp hk
    refine hsome (Option.isSome_iff_ne_none.mpr fun hnone => ?_)
    have := List.lookup_eq_none_iff.mp hnone slot hslot
    simp [hk'] at this

theorem lookup_of_mem {slots : List (String × Slot)} (h : (slots.map Prod.fst).Nodup)
    (hmem : (key, s) ∈ slots) : slots.lookup key = some s := by
  induction slots with
  | nil => cases hmem
  | cons slot slots ih =>
    rw [List.map_cons, List.nodup_cons] at h
    rcases List.mem_cons.mp hmem with rfl | hmem
    · exact List.lookup_cons_self
    · have hne : (key == slot.1) = false :=
        beq_eq_false_iff_ne.mpr fun he => h.1 (he ▸ List.mem_map_of_mem hmem)
      rw [List.lookup_cons, hne]
      exact ih h.2 hmem

theorem slot_of_mem (h : p.HasDistinctKeys) (hmem : (key, s) ∈ p.slots) : p.slot key = s := by
  rw [slot, lookup_of_mem h hmem, Option.getD_some]

theorem mem_used_of_owner? (h : p.HasDistinctKeys) {c : Nat} (howner : p.owner? c = some key) :
    c ∈ (p.slot key).used := by
  obtain ⟨⟨_, s⟩, hfind, rfl⟩ := Option.map_eq_some_iff.mp howner
  have hused : c ∈ s.used := by simpa using List.find?_some hfind
  rwa [slot_of_mem h (List.mem_of_find?_eq_some hfind)]

end Pool

end RemoteCall
