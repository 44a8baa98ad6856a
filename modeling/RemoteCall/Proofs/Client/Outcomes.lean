import RemoteCall.Proofs.Client.Senders
import RemoteCall.Proofs.Value.Identity

/-!
# Outcomes of asynchronous calls

A callback waits in the table from its registration until somebody takes it out: the reader, who
tells it the reply, the one who closed the connection, who tells it that, or its own sender, who
tells it nothing and reports the failure to its caller.
-/

namespace RemoteCall

deriving instance DecidableEq for Sender, Reply

namespace Sender

def IsRegistered : Sender → Prop
  | .numbered _ | .checked _ | .returned _ (.error _) => False
  | _ => True

/-- The sender has yet to see whether the connection was closed when it registered its callback. -/
def IsEntering : Sender → Prop
  | .registered _ | .withdrawing _ => True
  | _ => False

end Sender

namespace AsyncRun

def answeredBy (r : AsyncRun) : AsyncStep → List (Nat × Reply)
  | .reply reply =>
    (r.connection.callbacks.find? reply.sequence).toList.map fun p => (p.callback, reply)
  | _ => []

/-- The callbacks that the reader takes out of the table in a run, each with the reply for it. -/
def answered (k : Client) (r : AsyncRun) : List AsyncStep → List (Nat × Reply)
  | [] => []
  | s :: steps => r.answeredBy s ++ (r.step k s).answered k steps

/-- The connection is closed, and whoever closed it has emptied the table. -/
structure IsQuiet (r : AsyncRun) : Prop where
  isClosed : r.connection.isClosed = true
  isDraining : r.isDraining = false
  not_draining : ∀ q f, .draining q f ∉ r.senders

variable {k : Client} {c : Connection} {r : AsyncRun} {log : List (Nat × Reply)} {i j : Nat}
  {s s' : Sender}

structure Unheard (r : AsyncRun) (log : List (Nat × Reply)) (i : Nat) : Prop where
  heard : toldTo r.connection.heard i = []
  answered : toldTo log i = []

/-- The callback was told one thing: the one reply for it or, if there was none, the closing. -/
def Told (k : Client) (c : Connection) (r : AsyncRun) (log : List (Nat × Reply)) (i : Nat)
    (q : UInt64) : Prop :=
  (∃ reply : Reply, toldTo log i = [reply] ∧ reply.sequence = q ∧
    toldTo r.connection.heard i = [reply.outcome c.peer (k.asyncSite q)]) ∨
  toldTo log i = [] ∧ toldTo r.connection.heard i = [.error c.closedFailure]

inductive Fate (k : Client) (c : Connection) (r : AsyncRun) (log : List (Nat × Reply)) (i : Nat)
    (s : Sender) : Prop
  | outside (registered : ¬ s.IsRegistered) (waits : ¬ r.Waits i) (unheard : r.Unheard log i)
  | waiting (registered : s.IsRegistered) (waits : r.Waits i) (unheard : r.Unheard log i)
  | told (registered : s.IsRegistered) (waits : ¬ r.Waits i) (told : r.Told k c log i s.sequence)

/-- Once the table was emptied, only who has not yet seen that can have a callback in it. -/
def Settled (r : AsyncRun) : Prop :=
  r.IsQuiet → ∀ {i : Nat} {s : Sender}, r.senders[i]? = some s → r.Waits i → s.IsEntering

/-- Every callback is where its sender and the reader of replies have left it. -/
structure Kept (k : Client) (c : Connection) (r : AsyncRun) (log : List (Nat × Reply)) : Prop
    extends r.Booked c where
  fresh : ∀ i, r.senders.length ≤ i → r.Unheard log i
  fate : ∀ {i : Nat} {s : Sender}, r.senders[i]? = some s → r.Fate k c log i s
  settled : r.Settled

theorem isQuiet_of_setSender (h : r.senders[i]? = some s) (hs : ∀ q f, s ≠ .draining q f)
    (hq : (r.setSender i s').IsQuiet) : r.IsQuiet where
  isClosed := hq.isClosed
  isDraining := hq.isDraining
  not_draining q f hmem := by
    obtain ⟨j, hj⟩ := List.mem_iff_getElem?.mp hmem
    refine hq.not_draining q f (List.mem_of_getElem? (i := j) ?_)
    rw [senders_setSender h, if_neg, hj]
    rintro rfl
    exact hs q f (Option.some.inj (h.symm.trans hj))

theorem Fate.congr {r' : AsyncRun} {log' : List (Nat × Reply)} (h : r.Fate k c log i s)
    (hreg : s'.IsRegistered ↔ s.IsRegistered) (hseq : s'.sequence = s.sequence)
    (hwaits : r'.Waits i ↔ r.Waits i)
    (hheard : toldTo r'.connection.heard i = toldTo r.connection.heard i)
    (hlog : toldTo log' i = toldTo log i) : r'.Fate k c log' i s' := by
  have hunheard : r.Unheard log i → r'.Unheard log' i := fun hu =>
    ⟨hheard.trans hu.heard, hlog.trans hu.answered⟩
  cases h with
  | outside hs hw hu => exact .outside (fun hs' => hs (hreg.mp hs')) (hwaits.not.mpr hw) (hunheard hu)
  | waiting hs hw hu => exact .waiting (hreg.mpr hs) (hwaits.mpr hw) (hunheard hu)
  | told hs hw ht =>
    refine .told (hreg.mpr hs) (hwaits.not.mpr hw) ?_
    rwa [Told, hheard, hlog, hseq]

/-- A sender goes on while the table changes, if at all, in its own callback. -/
theorem Settled.setSender (h : r.Settled) (hi : r.senders[i]? = some s)
    (hs : ∀ q f, s ≠ .draining q f) {d : Connection}
    (hclosed : d.isClosed = r.connection.isClosed)
    (hwaits : ∀ j, j ≠ i → { r with connection := d }.Waits j → r.Waits j)
    (hentering : r.IsQuiet → { r with connection := d }.Waits i → s'.IsEntering) :
    ({ r with connection := d }.setSender i s').Settled := by
  intro hquiet j t hj hw
  have hquiet' : r.IsQuiet :=
    { isClosed := hclosed.symm.trans hquiet.isClosed
      isDraining := hquiet.isDraining
      not_draining :=
        (isQuiet_of_setSender (r := { r with connection := d }) hi hs hquiet).not_draining }
  rw [senders_setSender_of_connection hi] at hj
  split_ifs at hj with hji
  · cases hj
    subst hji
    exact hentering hquiet' hw
  · exact h hquiet' hj (hwaits j hji hw)

namespace Kept

theorem start (k : Client) (hcallbacks : c.callbacks = .empty) (hheard : c.heard = []) :
    (AsyncRun.start c).Kept k c [] where
  name_eq := rfl
  peer_eq := rfl
  next_eq := by simp [AsyncRun.start]
  sequence_eq h := nomatch h
  nodup := by simp [AsyncRun.start, hcallbacks, CallbackTable.empty]
  entry e he := by
    rw [AsyncRun.start, hcallbacks] at he
    cases he
  fresh i _ := ⟨by rw [AsyncRun.start, hheard]; rfl, rfl⟩
  fate h := nomatch h
  settled _ _ _ h := nomatch h

theorem outside (h : r.Kept k c log) (hi : r.senders[i]? = some s) (hs : ¬ s.IsRegistered) :
    ¬ r.Waits i ∧ r.Unheard log i := by
  cases h.fate hi with
  | outside _ hw hu => exact ⟨hw, hu⟩
  | waiting hs' => exact absurd hs' hs
  | told hs' => exact absurd hs' hs

theorem unheard (h : r.Kept k c log) (hi : r.senders[i]? = some s) (hw : r.Waits i) :
    r.Unheard log i := by
  cases h.fate hi with
  | outside _ hw' => exact absurd hw hw'
  | waiting _ _ hu => exact hu
  | told _ hw' => exact absurd hw hw'

theorem setSender (h : r.Kept k c log) (hi : r.senders[i]? = some s)
    (hseq : s'.sequence = s.sequence) (hreg : s'.IsRegistered ↔ s.IsRegistered)
    (hsettled : (r.setSender i s').Settled) : (r.setSender i s').Kept k c log where
  toBooked := h.toBooked.setSender hi hseq
  fresh j hj := by
    rw [length_setSender] at hj
    exact { h.fresh j hj with }
  fate {j t} hj := by
    rw [senders_setSender hi] at hj
    split_ifs at hj with hji
    · cases hj
      subst hji
      exact (h.fate hi).congr hreg hseq Iff.rfl rfl rfl
    · exact (h.fate hj).congr Iff.rfl rfl Iff.rfl rfl rfl
  settled := hsettled

theorem proceed (h : r.Kept k c log) (hi : r.senders[i]? = some s)
    (hs : ∀ q f, s ≠ .draining q f) (hseq : s'.sequence = s.sequence)
    (hreg : s'.IsRegistered ↔ s.IsRegistered)
    (hentering : r.IsQuiet → r.Waits i → s.IsEntering → s'.IsEntering) :
    (r.setSender i s').Kept k c log :=
  h.setSender hi hseq hreg <| h.settled.setSender hi hs rfl (fun _ _ hw => hw) fun hquiet hw =>
    hentering hquiet hw (h.settled hquiet hi hw)

theorem register (h : r.Kept k c log) (hlen : r.senders.length ≤ 2 ^ 64) {q : UInt64}
    (hi : r.senders[i]? = some (.checked q)) (method : String) (since : Nat) :
    ({ r with connection := r.connection.insertCallback q ⟨i, method, since⟩ }.setSender i
      (.registered q)).Kept k c log := by
  obtain ⟨hwaits, hunheard⟩ := h.outside hi id
  have hwaits_iff := h.toBooked.waits_insert_iff hlen hi hwaits method since
  exact
    { toBooked := (h.toBooked.insert hi hwaits method since).setSender hi rfl
      fresh := fun j hj => by
        rw [length_setSender] at hj
        exact { h.fresh j hj with }
      fate := fun {j t} hj => by
        rw [senders_setSender_of_connection hi] at hj
        split_ifs at hj with hji
        · cases hj
          subst hji
          exact .waiting trivial ((hwaits_iff j).mpr (.inl rfl)) { hunheard with }
        · exact (h.fate hj).congr Iff.rfl rfl ((hwaits_iff j).trans (or_iff_right hji)) rfl rfl
      settled := h.settled.setSender hi nofun rfl
        (fun j hji hw => ((hwaits_iff j).mp hw).resolve_left hji) fun _ _ => trivial }

theorem withdraw (h : r.Kept k c log) (hlen : r.senders.length ≤ 2 ^ 64)
    (hi : r.senders[i]? = some s) (hs : ∀ q f, s ≠ .draining q f)
    (hfound : (r.connection.callbacks.find? s.sequence).isSome = true) (f : Failure) :
    ({ r with connection := r.connection.eraseCallback s.sequence }.setSender i
      (.returned s.sequence (.error f))).Kept k c log := by
  have hunheard := h.unheard hi ((h.toBooked.waits_iff hlen hi).mpr hfound)
  have hwaits_iff := h.toBooked.waits_erase_iff hlen hi
  exact
    { toBooked := (h.toBooked.erase s.sequence _).setSender hi rfl
      fresh := fun j hj => by
        rw [length_setSender] at hj
        exact { h.fresh j hj with }
      fate := fun {j t} hj => by
        rw [senders_setSender_of_connection hi] at hj
        split_ifs at hj with hji
        · cases hj
          subst hji
          -- whoever else took the callback out would have told it, and it would not be found here
          exact .outside id (fun hw => ((hwaits_iff j).mp hw).2 rfl) { hunheard with }
        · exact (h.fate hj).congr Iff.rfl rfl ((hwaits_iff j).trans (and_iff_left hji)) rfl rfl
      settled := h.settled.setSender hi hs rfl (fun j _ hw => ((hwaits_iff j).mp hw).1)
        fun _ hw => absurd rfl ((hwaits_iff i).mp hw).2 }

theorem close (h : r.Kept k c log) :
    { r with connection := r.connection.markClosed, isDraining := true }.Kept k c log :=
  { h with
    fresh := fun j hj => { h.fresh j hj with }
    fate := fun hj => (h.fate hj).congr Iff.rfl rfl Iff.rfl rfl rfl
    settled := fun hquiet => nomatch hquiet.isDraining }

/-- Whoever empties the table tells every callback in it that the connection is closed. -/
theorem drain (h : r.Kept k c log) (isDraining : Bool) :
    { r with connection := r.connection.drainCallbacks, isDraining := isDraining }.Kept k c log := by
  have hwaits : ∀ i, ¬ { r with
      connection := r.connection.drainCallbacks, isDraining := isDraining }.Waits i := by
    rintro i ⟨e, he, -⟩
    cases he
  exact
    { toBooked := { h.toBooked with nodup := List.nodup_nil, entry := fun e he => nomatch he }
      fresh := fun i hi => by
        rcases h.toBooked.toldTo_drained i with ⟨hw, -⟩ | ⟨-, hheard⟩
        · exact absurd hw (h.toBooked.not_waits_of_length_le hi)
        · exact ⟨hheard.trans (h.fresh i hi).heard, (h.fresh i hi).answered⟩
      fate := fun {i s} hi => by
        rcases h.toBooked.toldTo_drained i with ⟨hw, hheard⟩ | ⟨hw, hheard⟩
        · cases h.fate hi with
          | outside _ hw' => exact absurd hw hw'
          | waiting hs _ hu =>
            rw [hu.heard] at hheard
            exact .told hs (hwaits i) (.inr ⟨hu.answered, hheard⟩)
          | told _ hw' => exact absurd hw hw'
        · exact (h.fate hi).congr Iff.rfl rfl (iff_of_false (hwaits i) hw) hheard rfl
      settled := fun _ {i s} _ hw => absurd hw (hwaits i) }

theorem reply (h : r.Kept k c log) (hlen : r.senders.length ≤ 2 ^ 64) (reply : Reply) :
    { r with connection := k.route r.connection reply }.Kept k c
      (log ++ r.answeredBy (.reply reply)) := by
  rw [Client.route, Connection.tell, answeredBy]
  cases hfound : r.connection.callbacks.find? reply.sequence with
  | none =>
    rw [Option.toList_none, List.map_nil, List.append_nil]
    exact h
  | some p =>
    have hmem := CallbackTable.mem_of_find? hfound
    obtain ⟨s, hi, hseq⟩ := h.entry _ hmem
    have hwaits : r.Waits p.callback := ⟨_, hmem, rfl⟩
    have hunheard := h.unheard hi hwaits
    have hwaits_iff := h.toBooked.waits_erase_iff hlen hi
    rw [hseq] at hwaits_iff
    have hothers : ∀ {α : Type} (l : List (Nat × α)) (a : α) (j : Nat), j ≠ p.callback →
        toldTo (l ++ [(p.callback, a)]) j = toldTo l j := by
      intro α l a j hj
      rw [toldTo_append, toldTo_cons_of_ne hj.symm, toldTo_nil, List.append_nil]
    have hown : ∀ {α : Type} (l : List (Nat × α)) (a : α), toldTo l p.callback = [] →
        toldTo (l ++ [(p.callback, a)]) p.callback = [a] := by
      intro α l a hl
      rw [toldTo_append, hl, List.nil_append, toldTo_cons_self, toldTo_nil]
    exact
      { toBooked := h.toBooked.erase reply.sequence _
        fresh := fun j hj => by
          have hne : j ≠ p.callback := by
            rintro rfl
            exact h.toBooked.not_waits_of_length_le hj hwaits
          exact ⟨(hothers _ _ j hne).trans (h.fresh j hj).heard,
            (hothers _ _ j hne).trans (h.fresh j hj).answered⟩
        fate := fun {j t} hj => by
          by_cases hjp : j = p.callback
          · subst hjp
            obtain rfl := Option.some.inj (hi.symm.trans hj)
            have hreg : s.IsRegistered := by
              by_contra hs
              exact (h.outside hi hs).1 hwaits
            -- the entry is taken out in the step in which the reply is told, so neither comes twice
            refine .told hreg (fun hw => ((hwaits_iff _).mp hw).2 rfl) (.inl ⟨reply, ?_, hseq.symm, ?_⟩)
            · exact hown log reply hunheard.answered
            · rw [hseq, ← h.peer_eq]
              exact hown _ _ hunheard.heard
          · exact (h.fate hj).congr Iff.rfl rfl ((hwaits_iff j).trans (and_iff_left hjp))
              (hothers _ _ j hjp) (hothers _ _ j hjp)
        settled := fun hquiet {j t} hj hw =>
          h.settled { hquiet with } hj ((hwaits_iff j).mp hw).1 }

theorem send (h : r.Kept k c log) : (r.step k .send).Kept k c log := by
  have hsenders : ∀ j, (r.step k .send).senders[j]? = if j = r.senders.length then
      some (.numbered r.connection.nextSequence) else r.senders[j]? := getElem?_concat _ _
  have hlength : (r.step k .send).senders.length = r.senders.length + 1 := List.length_append
  have hnew := h.toBooked.not_waits_of_length_le (Nat.le_refl _)
  have hne : ∀ {j : Nat} {t : Sender}, r.senders[j]? = some t → j ≠ r.senders.length :=
    fun hj => Nat.ne_of_lt (List.getElem?_eq_some_iff.mp hj).1
  exact
    { name_eq := h.name_eq
      peer_eq := h.peer_eq
      next_eq := by
        rw [hlength, UInt64.ofNat_add, ← UInt64.add_assoc, ← h.next_eq]
        rfl
      sequence_eq := fun {j t} hj => by
        rw [hsenders] at hj
        split_ifs at hj with hjn
        · cases hj
          rw [hjn]
          exact h.next_eq
        · exact h.sequence_eq hj
      nodup := h.nodup
      entry := fun e he => by
        obtain ⟨t, ht, hseq⟩ := h.entry e he
        exact ⟨t, by rw [hsenders, if_neg (hne ht), ht], hseq⟩
      fresh := fun j hj => by
        rw [hlength] at hj
        exact { h.fresh j (Nat.le_of_succ_le hj) with }
      fate := fun {j t} hj => by
        rw [hsenders] at hj
        split_ifs at hj with hjn
        · cases hj
          subst hjn
          exact .outside id hnew { h.fresh _ (Nat.le_refl _) with }
        · exact (h.fate hj).congr Iff.rfl rfl Iff.rfl rfl rfl
      settled := fun hquiet {j t} hj hw => by
        rw [hsenders] at hj
        split_ifs at hj with hjn
        · exact absurd hw (hjn ▸ hnew)
        · refine h.settled ⟨hquiet.isClosed, hquiet.isDraining, fun q f hmem => ?_⟩ hj hw
          exact hquiet.not_draining q f (List.mem_append_left _ hmem) }

theorem closing (h : r.Kept k c log) {q : UInt64} {f : Failure}
    (hi : r.senders[i]? = some (.closing q f)) :
    ({ r with connection := r.connection.markClosed }.setSender i (.draining q f)).Kept k c log := by
  have hset : (r.setSender i (.draining q f)).Kept k c log :=
    h.proceed hi nofun rfl Iff.rfl fun _ _ hs => hs.elim
  have hmem : .draining q f ∈ (r.setSender i (.draining q f)).senders := by
    refine List.mem_of_getElem? (i := i) ?_
    rw [senders_setSender hi, if_pos rfl]
  exact { hset with
    fresh := fun j hj => { hset.fresh j hj with }
    fate := fun hj => (hset.fate hj).congr Iff.rfl rfl Iff.rfl rfl rfl
    settled := fun hquiet => absurd hmem (hquiet.not_draining q f) }

theorem draining (h : r.Kept k c log) {q : UInt64} {f : Failure}
    (hi : r.senders[i]? = some (.draining q f)) :
    ({ r with connection := r.connection.drainCallbacks }.setSender i (.retracting q f)).Kept
      k c log :=
  (h.drain r.isDraining).setSender hi rfl Iff.rfl fun _ {_ _} _ hw => by
    obtain ⟨e, he, -⟩ := hw
    cases he

theorem advanceSender (h : r.Kept k c log) (hlen : r.senders.length ≤ 2 ^ 64)
    (hi : r.senders[i]? = some s) : (r.advanceSender i s).Kept k c log := by
  have hwaits := h.toBooked.waits_iff hlen hi
  cases s with
  | numbered q =>
    simp only [AsyncRun.advanceSender]
    split_ifs
    · exact h.proceed hi (by rintro _ _ ⟨⟩) rfl Iff.rfl fun _ _ hs => hs.elim
    · exact h.proceed hi (by rintro _ _ ⟨⟩) rfl Iff.rfl fun _ _ hs => hs.elim
  | checked q => exact h.register hlen hi "" 0
  | registered q =>
    simp only [AsyncRun.advanceSender]
    split_ifs with hclosed
    · exact h.proceed hi (by rintro _ _ ⟨⟩) rfl Iff.rfl fun _ _ _ => trivial
    · exact h.proceed hi (by rintro _ _ ⟨⟩) rfl Iff.rfl fun hquiet => absurd hquiet.isClosed hclosed
  | withdrawing q =>
    simp only [AsyncRun.advanceSender]
    split_ifs with hfound
    · exact h.withdraw hlen hi (by rintro _ _ ⟨⟩) hfound _
    · exact h.proceed hi (by rintro _ _ ⟨⟩) rfl Iff.rfl fun _ hw => absurd (hwaits.mp hw) hfound
  | closing q f =>
    simp only [AsyncRun.advanceSender]
    split_ifs
    · exact h.proceed hi (by rintro _ _ ⟨⟩) rfl Iff.rfl fun _ _ hs => hs.elim
    · exact h.closing hi
  | draining q f => exact h.draining hi
  | retracting q f =>
    simp only [AsyncRun.advanceSender]
    split_ifs with hfound
    · exact h.withdraw hlen hi (by rintro _ _ ⟨⟩) hfound _
    · exact h.proceed hi (by rintro _ _ ⟨⟩) rfl Iff.rfl fun _ _ hs => hs.elim
  | writing | returned => exact h

theorem step (h : r.Kept k c log) (hlen : r.senders.length ≤ 2 ^ 64) (s : AsyncStep) :
    (r.step k s).Kept k c (log ++ r.answeredBy s) := by
  have hsilent : (r.step k s).Kept k c log → r.answeredBy s = [] →
      (r.step k s).Kept k c (log ++ r.answeredBy s) := by
    intro hs hnone
    rwa [hnone, List.append_nil]
  cases s with
  | send => exact hsilent h.send rfl
  | advance i =>
    refine hsilent ?_ rfl
    simp only [AsyncRun.step]
    cases hi : r.senders[i]? with
    | none => exact h
    | some s => exact h.advanceSender hlen hi
  | written i =>
    refine hsilent ?_ rfl
    simp only [AsyncRun.step]
    split
    · rename_i hi
      exact h.proceed hi (by rintro _ _ ⟨⟩) rfl Iff.rfl fun _ _ hs => hs.elim
    · exact h
  | failsToWrite i f =>
    refine hsilent ?_ rfl
    simp only [AsyncRun.step]
    split
    · rename_i hi
      split_ifs
      · exact h.proceed hi (by rintro _ _ ⟨⟩) rfl Iff.rfl fun _ _ hs => hs.elim
      · exact h.proceed hi (by rintro _ _ ⟨⟩) rfl Iff.rfl fun _ _ hs => hs.elim
    · exact h
  | close =>
    refine hsilent ?_ rfl
    simp only [AsyncRun.step]
    split_ifs
    · exact h
    · exact h.close
  | drain =>
    refine hsilent ?_ rfl
    simp only [AsyncRun.step]
    split_ifs
    · exact h.drain false
    · exact h
  | reply reply => exact h.reply hlen reply

theorem run (h : r.Kept k c log) (steps : List AsyncStep)
    (hlen : (r.run k steps).senders.length ≤ 2 ^ 64) :
    (r.run k steps).Kept k c (log ++ r.answered k steps) := by
  induction steps generalizing r log with
  | nil => rwa [AsyncRun.answered, List.append_nil]
  | cons s steps ih =>
    have hle := Nat.le_trans (r.length_le_run k (s :: steps)) hlen
    rw [AsyncRun.answered, ← List.append_assoc]
    exact ih (h.step hle s) hlen

end Kept

def sending (i : Nat) : List AsyncStep := [.send, .advance i, .advance i, .advance i]

end AsyncRun

end RemoteCall
