import Mathlib.Algebra.Group.Nat.Defs
import Mathlib.Tactic.SplitIfs
import RemoteCall.Client.AsyncRun
import RemoteCall.Proofs.Connection.Callbacks
import RemoteCall.Proofs.Positions

/-!
# Senders and their callbacks

The senders on a connection get sequence numbers in the order in which they come, so that no two of
them have the same until all numbers were used. The table holds callbacks of senders, each under the
number of its sender, and who takes one out by its number takes out that of nobody else.
-/

namespace RemoteCall

namespace Sender

def sequence : Sender → UInt64
  | .numbered q | .checked q | .registered q | .withdrawing q | .writing q | .closing q _
  | .draining q _ | .retracting q _ | .returned q _ => q

end Sender

namespace AsyncRun

variable {k : Client} {c : Connection} {r : AsyncRun} {i j : Nat} {s s' : Sender}

theorem senders_setSender (h : r.senders[i]? = some s) (s' : Sender) (j : Nat) :
    (r.setSender i s').senders[j]? = if j = i then some s' else r.senders[j]? :=
  getElem?_set_of_some h s' j

theorem senders_setSender_of_connection (h : r.senders[i]? = some s) (d : Connection) (s' : Sender)
    (j : Nat) : ({ r with connection := d }.setSender i s').senders[j]? =
      if j = i then some s' else r.senders[j]? :=
  senders_setSender (r := { r with connection := d }) h s' j

theorem length_setSender (r : AsyncRun) (i : Nat) (s : Sender) :
    (r.setSender i s).senders.length = r.senders.length := List.length_set ..

theorem length_advanceSender (r : AsyncRun) (i : Nat) (s : Sender) :
    (r.advanceSender i s).senders.length = r.senders.length := by
  cases s with
  | writing | returned => rfl
  | numbered | registered | checked | draining => exact List.length_set ..
  | withdrawing | closing | retracting =>
    simp only [advanceSender]
    split_ifs <;> exact List.length_set ..

theorem length_le_step (k : Client) (r : AsyncRun) (s : AsyncStep) :
    r.senders.length ≤ (r.step k s).senders.length := by
  cases s with
  | send => exact (List.sublist_append_left ..).length_le
  | advance i =>
    simp only [step]
    cases r.senders[i]? with
    | none => exact Nat.le_refl _
    | some s => exact Nat.le_of_eq (r.length_advanceSender i s).symm
  | written i | failsToWrite i f =>
    simp only [step]
    split
    · exact Nat.le_of_eq (List.length_set ..).symm
    · exact Nat.le_refl _
  | close | drain =>
    simp only [step]
    split_ifs <;> exact Nat.le_refl _
  | reply reply => exact Nat.le_refl _

theorem length_le_run (k : Client) (r : AsyncRun) (steps : List AsyncStep) :
    r.senders.length ≤ (r.run k steps).senders.length := by
  induction steps generalizing r with
  | nil => exact Nat.le_refl _
  | cons s steps ih => exact Nat.le_trans (r.length_le_step k s) (ih _)

def Waits (r : AsyncRun) (i : Nat) : Prop :=
  ∃ e ∈ r.connection.callbacks.entries, e.2.callback = i

/-- The senders of a connection that was `c` at first, and whose callbacks are in its table. -/
structure Booked (c : Connection) (r : AsyncRun) : Prop where
  name_eq : r.connection.name = c.name
  peer_eq : r.connection.peer = c.peer
  next_eq : r.connection.nextSequence = c.nextSequence + UInt64.ofNat r.senders.length
  sequence_eq : ∀ {i : Nat} {s : Sender}, r.senders[i]? = some s →
    s.sequence = c.nextSequence + UInt64.ofNat i
  nodup : (r.connection.callbacks.entries.map (·.2.callback)).Nodup
  entry : ∀ e ∈ r.connection.callbacks.entries,
    ∃ s, r.senders[e.2.callback]? = some s ∧ s.sequence = e.1

namespace Booked

theorem setSender (h : r.Booked c) (hi : r.senders[i]? = some s)
    (hseq : s'.sequence = s.sequence) : (r.setSender i s').Booked c where
  name_eq := h.name_eq
  peer_eq := h.peer_eq
  next_eq := by
    rw [length_setSender]
    exact h.next_eq
  sequence_eq {j t} hj := by
    rw [senders_setSender hi] at hj
    split_ifs at hj with hji
    · cases hj
      rw [hseq, hji, h.sequence_eq hi]
    · exact h.sequence_eq hj
  nodup := h.nodup
  entry e he := by
    obtain ⟨t, ht, hte⟩ := h.entry e he
    rw [senders_setSender hi]
    split_ifs with hei
    · rw [hei, hi] at ht
      cases ht
      exact ⟨s', rfl, hseq.trans hte⟩
    · exact ⟨t, ht, hte⟩

/-- Sequence numbers are not used again before all of them were used. -/
theorem eq_of_sequence_eq (h : r.Booked c) (hlen : r.senders.length ≤ 2 ^ 64)
    (hi : r.senders[i]? = some s) (hj : r.senders[j]? = some s') (heq : s.sequence = s'.sequence) :
    i = j := by
  have hilt := Nat.lt_of_lt_of_le (List.getElem?_eq_some_iff.mp hi).1 hlen
  have hjlt := Nat.lt_of_lt_of_le (List.getElem?_eq_some_iff.mp hj).1 hlen
  rw [h.sequence_eq hi, h.sequence_eq hj] at heq
  have hnat := congrArg UInt64.toNat ((UInt64.add_right_inj _).mp heq)
  rwa [UInt64.toNat_ofNat_of_lt' hilt, UInt64.toNat_ofNat_of_lt' hjlt] at hnat

theorem callback_eq_iff (h : r.Booked c) (hlen : r.senders.length ≤ 2 ^ 64)
    (hi : r.senders[i]? = some s) {e : UInt64 × PendingCallback}
    (he : e ∈ r.connection.callbacks.entries) : e.2.callback = i ↔ e.1 = s.sequence := by
  obtain ⟨t, ht, hseq⟩ := h.entry e he
  constructor
  · rintro rfl
    rw [← hseq, Option.some.inj (ht.symm.trans hi)]
  · intro heq
    exact h.eq_of_sequence_eq hlen ht hi (hseq.trans heq)

theorem waits_iff (h : r.Booked c) (hlen : r.senders.length ≤ 2 ^ 64)
    (hi : r.senders[i]? = some s) :
    r.Waits i ↔ (r.connection.callbacks.find? s.sequence).isSome := by
  rw [CallbackTable.isSome_find?_iff]
  exact exists_congr fun e => and_congr_right fun he => h.callback_eq_iff hlen hi he

/-- Who takes out a callback by its sequence number leaves those of all others. -/
theorem waits_erase_iff (h : r.Booked c) (hlen : r.senders.length ≤ 2 ^ 64)
    (hi : r.senders[i]? = some s) (j : Nat) :
    { r with connection := r.connection.eraseCallback s.sequence }.Waits j ↔ r.Waits j ∧ j ≠ i := by
  constructor
  · rintro ⟨e, he, rfl⟩
    obtain ⟨he, hne⟩ := CallbackTable.mem_erase.mp he
    exact ⟨⟨e, he, rfl⟩, fun hei => hne ((h.callback_eq_iff hlen hi he).mp hei)⟩
  · rintro ⟨⟨e, he, rfl⟩, hne⟩
    refine ⟨e, CallbackTable.mem_erase.mpr ⟨he, fun heq => ?_⟩, rfl⟩
    exact hne ((h.callback_eq_iff hlen hi he).mpr heq)

theorem withCallbacks (h : r.Booked c) {t : CallbackTable} (heard : List (Nat × CallOutcome))
    (hnodup : (t.entries.map (·.2.callback)).Nodup)
    (hentry : ∀ e ∈ t.entries, ∃ s, r.senders[e.2.callback]? = some s ∧ s.sequence = e.1) :
    { r with connection := { r.connection with callbacks := t, heard := heard } }.Booked c where
  name_eq := h.name_eq
  peer_eq := h.peer_eq
  next_eq := h.next_eq
  sequence_eq := h.sequence_eq
  nodup := hnodup
  entry := hentry

theorem erase (h : r.Booked c) (q : UInt64) (heard : List (Nat × CallOutcome)) :
    { r with connection := { r.connection.eraseCallback q with heard := heard } }.Booked c :=
  h.withCallbacks heard (h.nodup.sublist (List.filter_sublist.map _))
    fun e he => h.entry e (CallbackTable.mem_erase.mp he).1

theorem insert (h : r.Booked c) (hi : r.senders[i]? = some s) (hwaits : ¬ r.Waits i)
    (method : String) (since : Nat) :
    { r with connection := r.connection.insertCallback s.sequence ⟨i, method, since⟩ }.Booked c := by
  refine h.withCallbacks _ (List.nodup_cons.mpr ⟨fun hmem => ?_, ?_⟩) fun e he => ?_
  · obtain ⟨e, he, heq⟩ := List.mem_map.mp hmem
    exact hwaits ⟨e, (CallbackTable.mem_erase.mp he).1, heq⟩
  · exact h.nodup.sublist (List.filter_sublist.map _)
  · rcases CallbackTable.mem_insert.mp he with rfl | ⟨he, -⟩
    · exact ⟨s, hi, rfl⟩
    · exact h.entry e he

theorem waits_insert_iff (h : r.Booked c) (hlen : r.senders.length ≤ 2 ^ 64)
    (hi : r.senders[i]? = some s) (hwaits : ¬ r.Waits i) (method : String) (since j : Nat) :
    { r with connection := r.connection.insertCallback s.sequence ⟨i, method, since⟩ }.Waits j ↔
      j = i ∨ r.Waits j := by
  constructor
  · rintro ⟨e, he, rfl⟩
    rcases CallbackTable.mem_insert.mp he with rfl | ⟨he, -⟩
    · exact .inl rfl
    · exact .inr ⟨e, he, rfl⟩
  · rintro (rfl | ⟨e, he, rfl⟩)
    · exact ⟨_, CallbackTable.mem_insert.mpr (.inl rfl), rfl⟩
    · refine ⟨e, CallbackTable.mem_insert.mpr (.inr ⟨he, fun heq => ?_⟩), rfl⟩
      exact hwaits ⟨e, he, (h.callback_eq_iff hlen hi he).mpr heq⟩

theorem toldTo_drained (h : r.Booked c) (i : Nat) :
    (r.Waits i ∧ toldTo r.connection.drainCallbacks.heard i =
      toldTo r.connection.heard i ++ [.error c.closedFailure]) ∨
    (¬ r.Waits i ∧ toldTo r.connection.drainCallbacks.heard i = toldTo r.connection.heard i) := by
  have hfailure : r.connection.closedFailure = c.closedFailure :=
    congrArg Failure.connectionClosed h.name_eq
  rw [Connection.drainCallbacks, toldTo_append, hfailure]
  by_cases hwaits : r.Waits i
  · obtain ⟨e, he, rfl⟩ := hwaits
    refine .inl ⟨⟨e, he, rfl⟩, congrArg (_ ++ ·) (toldTo_eq_singleton ?_ ?_)⟩
    · rw [List.map_map]
      exact h.nodup
    · exact List.mem_map.mpr ⟨e, he, rfl⟩
  · refine .inr ⟨hwaits, ?_⟩
    refine (congrArg (_ ++ ·) (toldTo_eq_nil fun hmem => ?_)).trans (List.append_nil _)
    rw [List.map_map] at hmem
    obtain ⟨e, he, heq⟩ := List.mem_map.mp hmem
    exact hwaits ⟨e, he, heq⟩

theorem not_waits_of_length_le (h : r.Booked c) (hi : r.senders.length ≤ i) : ¬ r.Waits i := by
  rintro ⟨e, he, rfl⟩
  obtain ⟨s, hs, -⟩ := h.entry e he
  exact Nat.not_lt.mpr hi (List.getElem?_eq_some_iff.mp hs).1

end Booked

end AsyncRun

end RemoteCall
