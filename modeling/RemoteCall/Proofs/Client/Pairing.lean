import Mathlib.Data.List.Perm.Basic
import RemoteCall.Client.SyncRun
import RemoteCall.Proofs.Pool.Holders

/-!
# Replies and their callers

Synchronous calls carry nothing that tells them apart. A caller reads the reply to its own call
nevertheless, because the frames on a connection that is held or can be handed out are those of its
holder: a caller that leaves before it has read its reply leaves its connection to be closed.
-/

namespace RemoteCall

def Exchange.read? : Exchange → Option Nat
  | .answered j | .unreadable j => some j
  | _ => none

namespace SyncRun

variable {r : SyncRun} {i j c : Nat} {e old : Exchange} {f : InFlight} {log : List InFlight}

def newCalls (r : SyncRun) (s : SyncStep) : List InFlight := (r.step s).calls.drop r.calls.length

def sent (r : SyncRun) : List SyncStep → List InFlight
  | [] => []
  | s :: steps => r.newCalls s ++ (r.step s).sent steps

def HasRead (r : SyncRun) (j : Nat) : Prop := ∃ e, r.exchanges[j]? = some e ∧ e.read? = some j

theorem takeFirst?_perm {fs rest : List InFlight} (h : takeFirst? c fs = some (f, rest)) :
    f.connection = c ∧ (f :: rest).Perm fs := by
  induction fs generalizing rest with
  | nil => cases h
  | cons g fs ih =>
    rw [takeFirst?] at h
    split_ifs at h with hg
    · cases h
      exact ⟨hg, List.Perm.refl _⟩
    · obtain ⟨⟨f', rest'⟩, hfound, heq⟩ := Option.map_eq_some_iff.mp h
      cases heq
      obtain ⟨hf, hperm⟩ := ih hfound
      exact ⟨hf, (List.Perm.swap g f rest').trans (hperm.cons g)⟩

theorem held?_eq_some_iff : r.held? i = some c ↔ r.pool.tasks[i]? = some (.holding c) := by
  unfold held?
  constructor
  · intro h
    split at h
    · rename_i task
      cases h
      exact task
    · cases h
  · intro task
    rw [task]

theorem calls_readReply_le (r : SyncRun) (i : Nat) (e : Nat → Exchange) :
    (r.readReply i e).calls.length ≤ r.calls.length := by
  unfold readReply
  split
  · split <;> exact Nat.le_refl _
  · exact Nat.le_refl _

theorem newCalls_of_silent {s : SyncStep} (hs : ∀ i, s ≠ .write i) : r.newCalls s = [] := by
  refine List.drop_eq_nil_of_le ?_
  cases s with
  | write i => exact absurd rfl (hs i)
  | pool s => cases s <;> exact Nat.le_refl _
  | read i | failsToDecode i => exact calls_readReply_le ..
  | answer c | ignore c =>
    simp only [step]
    split
    · rename_i hfirst
      exact Nat.le_of_succ_le (Nat.le_of_eq (takeFirst?_perm hfirst).2.length_eq)
    · exact Nat.le_refl _
  | failsToEncode i =>
    simp only [step]
    split <;> exact Nat.le_refl _
  | await i | breakDown i | handBack i =>
    simp only [step]
    split
    · split_ifs <;> exact Nat.le_refl _
    · exact Nat.le_refl _

theorem exchanges_setExchange (h : r.exchanges[i]? = some old) (e : Exchange) (j : Nat) :
    (r.setExchange i e).exchanges[j]? = if j = i then some e else r.exchanges[j]? :=
  getElem?_set_of_some h e j

theorem exchanges_stepPool (h : r.exchanges[j]? = some e) (s : PoolStep) :
    (r.stepPool s).exchanges[j]? = some e := by
  have hlt := (List.getElem?_eq_some_iff.mp h).1
  rw [stepPool, List.getElem?_append_left hlt, h]

theorem exchanges_of_stepPool {s : PoolStep} (h : (r.stepPool s).exchanges[j]? = some e) :
    r.exchanges[j]? = some e ∨ e = .notSent := by
  rw [stepPool, List.getElem?_append] at h
  split_ifs at h
  · exact .inl h
  · exact .inr (List.eq_of_mem_replicate (List.mem_of_getElem? h))

theorem hasRead_stepPool_iff {s : PoolStep} : (r.stepPool s).HasRead j ↔ r.HasRead j := by
  constructor
  · rintro ⟨e, he, hread⟩
    rcases exchanges_of_stepPool he with he | rfl
    · exact ⟨e, he, hread⟩
    · cases hread
  · rintro ⟨e, he, hread⟩
    exact ⟨e, exchanges_stepPool he s, hread⟩

theorem effect_readReply (r : SyncRun) (i : Nat) (e : Nat → Exchange) :
    r.pool.Effect (r.readReply i e).pool := by
  unfold readReply
  split
  · split <;> exact .idle
  · exact .idle

theorem effect_stepPool (r : SyncRun) (s : PoolStep) : r.pool.Effect (r.stepPool s).pool :=
  r.pool.effect_step s

/-- Every step comes to at most one step of the pool. -/
theorem effect_step (r : SyncRun) (s : SyncStep) : r.pool.Effect (r.step s).pool := by
  cases s with
  | pool s =>
    cases s with
    | handBack j => exact .idle
    | _ => exact r.effect_stepPool _
  | write i | await i =>
    simp only [step]
    split
    · split_ifs <;> exact .idle
    · exact .idle
  | failsToEncode i | answer c | ignore c =>
    simp only [step]
    split <;> exact .idle
  | read i => exact r.effect_readReply ..
  | failsToDecode i => exact r.effect_readReply ..
  | breakDown i =>
    simp only [step]
    split
    · split_ifs
      · exact .idle
      · exact .hangUp _
    · exact .idle
  | handBack i =>
    simp only [step]
    split
    · split_ifs
      · exact r.effect_stepPool _
      · exact .idle
    · exact .idle

/-- What a call that was sent leaves behind. Whoever holds its connection is its caller, unless the
reply was read; and an open connection is used by its caller until then. -/
structure Tracked (r : SyncRun) (f : InFlight) : Prop where
  lt : f.connection < r.pool.made
  unbrought : ∀ i, r.pool.brought? i ≠ some f.connection
  begun : ∃ e, r.exchanges[f.caller]? = some e ∧ e ≠ .notSent
  held : ∀ i : Nat, r.pool.tasks[i]? = some (.holding f.connection) →
    r.HasRead f.caller ∨ i = f.caller
  used : r.pool.isOpen f.connection = true → r.HasRead f.caller ∨
    (r.pool.Uses f.caller f.connection ∧ r.exchanges[f.caller]? ≠ some .failed)

structure Paired (r : SyncRun) (log : List InFlight) : Prop where
  exclusive : r.pool.Exclusive
  own : ∀ {i j : Nat} {e : Exchange}, r.exchanges[i]? = some e → e.read? = some j → j = i
  tracked : ∀ f ∈ log, r.Tracked f
  sent : ∀ f ∈ r.calls ++ r.replies, f ∈ log
  nodup : ((r.calls ++ r.replies).map InFlight.caller).Nodup
  unread : ∀ f ∈ r.calls ++ r.replies, ¬ r.HasRead f.caller

theorem Tracked.closeConnection (h : r.Tracked f) (c : Nat) :
    { r with pool := r.pool.closeConnection c }.Tracked f :=
  { h with
    used := fun hopen =>
      h.used (PoolRun.isOpen_iff.mpr (r.pool.closeConnection_subset c (PoolRun.isOpen_iff.mp hopen))) }

theorem Tracked.setExchange (h : r.Tracked f) (hi : r.exchanges[i]? = some old)
    (hold : old.read? = none) (he : e ≠ .notSent)
    (hfailed : e = .failed → f.caller = i → r.pool.isOpen f.connection = false) :
    (r.setExchange i e).Tracked f := by
  have hread : r.HasRead f.caller → (r.setExchange i e).HasRead f.caller := by
    rintro ⟨e', he', hread⟩
    refine ⟨e', ?_, hread⟩
    rw [exchanges_setExchange hi, if_neg, he']
    intro hf
    rw [hf, hi] at he'
    cases he'
    rw [hold] at hread
    cases hread
  refine ⟨h.lt, h.unbrought, ?_, fun j hj => (h.held j hj).imp_left hread, fun hopen => ?_⟩
  · rw [exchanges_setExchange hi]
    split_ifs
    · exact ⟨e, rfl, he⟩
    · exact h.begun
  · refine (h.used hopen).imp hread (And.imp_right fun hne => ?_)
    rw [exchanges_setExchange hi]
    split_ifs with hf
    · intro heq
      rw [show r.pool.isOpen f.connection = true from hopen] at hfailed
      exact Bool.noConfusion (hfailed (Option.some.inj heq) hf)
    · exact hne

/-- A step of the pool may hand out the connection of a call when it is open and nobody has it, so
that the reply was read. -/
theorem Tracked.stepPool (h : r.Tracked f) (hr : r.pool.Exclusive) {s : PoolStep}
    (hs : s = .handBack f.caller → r.exchanges[f.caller]? = some .failed ∨ r.HasRead f.caller) :
    (r.stepPool s).Tracked f := by
  have heffect := r.pool.effect_step s
  refine ⟨Nat.lt_of_lt_of_le h.lt heffect.made_le,
    fun i hi => h.unbrought i (heffect.brought?_of_lt h.lt hi), ?_, fun i hi => ?_, fun hopen => ?_⟩
  · obtain ⟨e, he, hne⟩ := h.begun
    exact ⟨e, exchanges_stepPool he s, hne⟩
  · rw [hasRead_stepPool_iff]
    by_cases hheld : r.pool.tasks[i]? = some (.holding f.connection)
    · exact h.held i hheld
    · rcases hr.handedOut heffect hheld hi with ⟨hopen, hnobody⟩ | hbrought
      · exact (h.used hopen).imp_right fun ⟨huses, _⟩ => absurd huses.owned? (hnobody f.caller)
      · exact absurd hbrought (h.unbrought i)
  · rw [hasRead_stepPool_iff]
    rcases h.used (heffect.isOpen_of_lt h.lt hopen) with hread | ⟨huses, hne⟩
    · exact .inl hread
    · by_cases hback : s = .handBack f.caller
      · exact .inl ((hs hback).resolve_left hne)
      · refine .inr ⟨huses.step hback hopen, fun hfailed => ?_⟩
        rcases exchanges_of_stepPool hfailed with hold | hold
        · exact hne hold
        · cases hold

namespace Paired

theorem start (name : String) (settings : PoolSettings) :
    (SyncRun.start (.new name settings)).Paired [] where
  exclusive := .start name settings
  own h := nomatch h
  tracked _ h := nomatch h
  sent _ h := nomatch h
  nodup := List.nodup_nil
  unread _ h := nomatch h

theorem closeConnection (h : r.Paired log) (c : Nat) :
    { r with pool := r.pool.closeConnection c }.Paired log :=
  { h with
    exclusive := h.exclusive.closeConnection c
    tracked := fun f hf => (h.tracked f hf).closeConnection c }

theorem stepPool (h : r.Paired log) {s : PoolStep}
    (hs : ∀ j, s = .handBack j → ∃ e, r.exchanges[j]? = some e ∧ e.isDone = true) :
    (r.stepPool s).Paired log where
  exclusive := h.exclusive.effect (r.pool.effect_step s)
  own hi hj := by
    rcases exchanges_of_stepPool hi with hi | rfl
    · exact h.own hi hj
    · cases hj
  tracked f hf := by
    refine (h.tracked f hf).stepPool h.exclusive fun hback => ?_
    obtain ⟨e, he, hdone⟩ := hs f.caller hback
    cases e with
    | answered j | unreadable j =>
      obtain rfl := h.own he rfl
      exact .inr ⟨_, he, rfl⟩
    | failed => exact .inl he
    | notSent | sent | awaiting => cases hdone
  sent := h.sent
  nodup := h.nodup
  unread f hf := by
    rw [hasRead_stepPool_iff]
    exact h.unread f hf

theorem setExchange (h : r.Paired log) (hi : r.exchanges[i]? = some old) (hold : old.read? = none)
    (he : e ≠ .notSent)
    (hread : ∀ j, e.read? = some j → j = i ∧ ∀ f ∈ r.calls ++ r.replies, f.caller ≠ i)
    (hfailed : e = .failed → ∀ f ∈ log, f.caller = i → r.pool.isOpen f.connection = false) :
    (r.setExchange i e).Paired log where
  exclusive := h.exclusive
  own {k j e'} hk hj := by
    rw [exchanges_setExchange hi] at hk
    split_ifs at hk with hki
    · cases hk
      exact (hread j hj).1.trans hki.symm
    · exact h.own hk hj
  tracked f hf := (h.tracked f hf).setExchange hi hold he fun hf' => hfailed hf' f hf
  sent := h.sent
  nodup := h.nodup
  unread f hf := by
    rintro ⟨e', he', hread'⟩
    rw [exchanges_setExchange hi] at he'
    split_ifs at he' with hfi
    · cases he'
      exact (hread _ hread').2 f hf hfi
    · exact h.unread f hf ⟨e', he', hread'⟩

/-- Frames that are answered, read or left without an answer stay those of their callers. -/
theorem withFrames (h : r.Paired log) {calls replies : List InFlight} (gone : List InFlight)
    (hperm : (gone ++ (calls ++ replies)).Perm (r.calls ++ r.replies)) :
    { r with calls := calls, replies := replies }.Paired log := by
  have hsub : ∀ f ∈ calls ++ replies, f ∈ r.calls ++ r.replies := fun f hf =>
    hperm.mem_iff.mp (List.mem_append_right gone hf)
  have hnodup := (hperm.map InFlight.caller).nodup_iff.mpr h.nodup
  rw [List.map_append] at hnodup
  exact { h with
    tracked := fun f hf => { h.tracked f hf with }
    sent := fun f hf => h.sent f (hsub f hf)
    nodup := (List.nodup_append.mp hnodup).2.1
    unread := fun f hf => h.unread f (hsub f hf) }

theorem addCall (h : r.Paired log) (hf : r.Tracked f)
    (hfresh : ∀ g ∈ r.calls ++ r.replies, g.caller ≠ f.caller) (hunread : ¬ r.HasRead f.caller) :
    { r with calls := r.calls ++ [f] }.Paired (log ++ [f]) := by
  have hmem : ∀ g, g ∈ (r.calls ++ [f]) ++ r.replies ↔ g ∈ r.calls ++ r.replies ∨ g = f := by
    intro g
    simp only [List.mem_append, List.mem_singleton]
    tauto
  have hperm : ((r.calls ++ [f]) ++ r.replies).Perm (f :: (r.calls ++ r.replies)) := by
    rw [List.append_assoc]
    exact List.perm_middle
  exact
    { exclusive := h.exclusive
      own := h.own
      tracked := fun g hg => by
        rcases List.mem_append.mp hg with hg | hg
        · exact { h.tracked g hg with }
        · rw [List.mem_singleton.mp hg]
          exact { hf with }
      sent := fun g hg => by
        rcases (hmem g).mp hg with hg | rfl
        · exact List.mem_append_left _ (h.sent g hg)
        · exact List.mem_append_right _ (List.mem_singleton.mpr rfl)
      nodup := by
        refine (hperm.map InFlight.caller).nodup_iff.mpr (List.nodup_cons.mpr ⟨?_, h.nodup⟩)
        intro hmem
        obtain ⟨g, hg, heq⟩ := List.mem_map.mp hmem
        exact hfresh g hg heq
      unread := fun g hg => by
        rcases (hmem g).mp hg with hg | rfl
        · exact h.unread g hg
        · exact hunread }

/-- The first reply on a connection that is held is the one that its holder waits for. -/
theorem readReply (h : r.Paired log) (i : Nat) {e : Nat → Exchange}
    (he : ∀ j, (e j).read? = some j) : (r.readReply i e).Paired log := by
  unfold SyncRun.readReply
  split
  · rename_i c hheld hi
    split
    · rename_i f rest hfirst
      obtain ⟨rfl, hrest⟩ := takeFirst?_perm hfirst
      have hmove : (f :: (r.calls ++ rest)).Perm (r.calls ++ f :: rest) := List.perm_middle.symm
      have hperm : ([f] ++ (r.calls ++ rest)).Perm (r.calls ++ r.replies) :=
        hmove.trans (hrest.append_left r.calls)
      have hf : f ∈ r.calls ++ r.replies := hperm.mem_iff.mp (List.mem_cons_self ..)
      -- its caller has not read it, so whoever holds the connection is its caller
      have hcaller : i = f.caller :=
        ((h.tracked f (h.sent f hf)).held i (held?_eq_some_iff.mp hheld)).resolve_left (h.unread f hf)
      have hnodup := (hperm.map InFlight.caller).nodup_iff.mpr h.nodup
      refine (h.withFrames [f] hperm).setExchange hi rfl ?_ (fun j hj => ⟨?_, fun g hg hgi => ?_⟩) ?_
      · intro hnot
        have hread := he f.caller
        rw [hnot] at hread
        cases hread
      · exact (Option.some.inj ((he f.caller).symm.trans hj)).symm.trans hcaller.symm
      · refine (List.nodup_cons.mp hnodup).1 ?_
        rw [← hcaller, ← hgi]
        exact List.mem_map_of_mem hg
      · intro hfailed
        have hread := he f.caller
        rw [hfailed] at hread
        cases hread
    · exact h
  · exact h

theorem send (h : r.Paired log) (hheld : r.held? i = some c)
    (hi : r.exchanges[i]? = some .notSent) :
    ({ r with calls := r.calls ++ [InFlight.mk c i] }.setExchange i .sent).Paired
      (log ++ [InFlight.mk c i]) := by
  have task := held?_eq_some_iff.mp hheld
  have hset : (r.setExchange i .sent).Paired log :=
    h.setExchange hi rfl nofun (fun _ hj => nomatch hj) nofun
  have hsent : (r.setExchange i .sent).exchanges[i]? = some .sent := by
    rw [exchanges_setExchange hi, if_pos rfl]
  have hunread : ¬ (r.setExchange i .sent).HasRead i := by
    rintro ⟨e, he, hread⟩
    rw [hsent] at he
    cases he
    cases hread
  have howned : r.pool.owned? i = some c := PoolRun.owned?_of_task task
  refine hset.addCall ?_ (fun g hg hgi => ?_) hunread
  · refine ⟨h.exclusive.owned_lt howned, fun j hj => ?_, ⟨_, hsent, nofun⟩, fun j hj => .inr ?_,
      fun _ => .inr ⟨.inl task, ?_⟩⟩
    · -- its holder has not just made it
      obtain rfl := h.exclusive.owner_eq (PoolRun.owned?_of_brought? hj) howned
      have hbrought : r.pool.brought? j = none := PoolRun.brought?_of_task task
      cases hbrought.symm.trans hj
    · exact h.exclusive.owner_eq (PoolRun.owned?_of_task hj) howned
    · rw [hsent]
      nofun
  · obtain ⟨e, he, hne⟩ := (h.tracked g (h.sent g hg)).begun
    rw [show g.caller = i from hgi, hi] at he
    exact hne (Option.some.inj he).symm

/-- A caller that gives up closes the connection on which its call may be on its way. -/
theorem giveUp (h : r.Paired log) (hheld : r.held? i = some c) (hi : r.exchanges[i]? = some e)
    (hdone : e.isDone = false) :
    ({ r with pool := r.pool.closeConnection c }.setExchange i .failed).Paired log := by
  have task := held?_eq_some_iff.mp hheld
  have hunread : e.read? = none := by
    cases e <;> first | rfl | cases hdone
  refine (h.closeConnection c).setExchange hi hunread nofun (fun _ hj => nomatch hj) ?_
  rintro - f hf rfl
  by_contra hopen
  rw [Bool.not_eq_false] at hopen
  have hbefore : r.pool.isOpen f.connection = true :=
    PoolRun.isOpen_iff.mpr (r.pool.closeConnection_subset c (PoolRun.isOpen_iff.mp hopen))
  rcases (h.tracked f hf).used hbefore with ⟨e', he', hread⟩ | ⟨huses, -⟩
  · rw [hi] at he'
    cases he'
    rw [hunread] at hread
    cases hread
  · have hc := huses.owned?.symm.trans (PoolRun.owned?_of_task task)
    rw [Option.some.inj hc] at hopen
    exact Bool.noConfusion ((r.pool.isOpen_closeConnection_self c).symm.trans hopen)

theorem answer (h : r.Paired log) (c : Nat) : (r.step (.answer c)).Paired log := by
  simp only [SyncRun.step]
  split
  · rename_i f rest hfirst
    have hmove : (rest ++ (r.replies ++ [f])).Perm (f :: (rest ++ r.replies)) := by
      rw [← List.append_assoc]
      exact List.perm_append_singleton ..
    exact h.withFrames [] (hmove.trans ((takeFirst?_perm hfirst).2.append_right r.replies))
  · exact h

theorem ignore (h : r.Paired log) (c : Nat) : (r.step (.ignore c)).Paired log := by
  simp only [SyncRun.step]
  split
  · rename_i f rest hfirst
    exact h.withFrames [f] ((takeFirst?_perm hfirst).2.append_right r.replies)
  · exact h

theorem pool (h : r.Paired log) (s : PoolStep) : (r.step (.pool s)).Paired log := by
  cases s with
  | handBack j => exact h
  | _ => exact h.stepPool nofun

theorem write (h : r.Paired log) (i : Nat) :
    (r.step (.write i)).Paired (log ++ r.newCalls (.write i)) := by
  simp only [newCalls, SyncRun.step]
  split
  · rename_i c hheld hi
    split_ifs
    · have hdrop : (r.calls ++ [InFlight.mk c i]).drop r.calls.length = [InFlight.mk c i] :=
        List.drop_left ..
      change Paired _ (log ++ (r.calls ++ [InFlight.mk c i]).drop r.calls.length)
      rw [hdrop]
      exact h.send hheld hi
    · rwa [List.drop_length, List.append_nil]
  · rwa [List.drop_length, List.append_nil]

theorem failsToEncode (h : r.Paired log) (i : Nat) :
    (r.step (.failsToEncode i)).Paired log := by
  simp only [SyncRun.step]
  split
  · rename_i hi
    refine h.setExchange hi rfl nofun (fun _ hj => nomatch hj) fun _ f hf hfi => ?_
    obtain ⟨e, he, hne⟩ := (h.tracked f hf).begun
    rw [hfi, hi] at he
    exact absurd (Option.some.inj he).symm hne
  · exact h

theorem await (h : r.Paired log) (i : Nat) : (r.step (.await i)).Paired log := by
  simp only [SyncRun.step]
  split
  · rename_i hi
    split_ifs
    · exact h.setExchange hi rfl nofun (fun _ hj => nomatch hj) nofun
    · exact h
  · exact h

theorem breakDown (h : r.Paired log) (i : Nat) : (r.step (.breakDown i)).Paired log := by
  simp only [SyncRun.step]
  split
  · rename_i hheld hi
    split_ifs with hdone
    · exact h
    · exact h.giveUp hheld hi (Bool.not_eq_true _ ▸ hdone)
  · exact h

theorem handBack (h : r.Paired log) (i : Nat) : (r.step (.handBack i)).Paired log := by
  simp only [SyncRun.step]
  split
  · rename_i e hi
    split_ifs with hdone
    · refine h.stepPool fun j hj => ?_
      cases hj
      exact ⟨e, hi, hdone⟩
    · exact h
  · exact h

theorem step (h : r.Paired log) (s : SyncStep) : (r.step s).Paired (log ++ r.newCalls s) := by
  by_cases hwrite : ∃ i, s = .write i
  · obtain ⟨i, rfl⟩ := hwrite
    exact h.write i
  · have hsilent : ∀ i, s ≠ .write i := not_exists.mp hwrite
    rw [newCalls_of_silent hsilent, List.append_nil]
    cases s with
    | pool s => exact h.pool s
    | write i => exact absurd rfl (hsilent i)
    | failsToEncode i => exact h.failsToEncode i
    | answer c => exact h.answer c
    | ignore c => exact h.ignore c
    | await i => exact h.await i
    | read i => exact h.readReply i fun _ => rfl
    | failsToDecode i => exact h.readReply i fun _ => rfl
    | breakDown i => exact h.breakDown i
    | handBack i => exact h.handBack i

theorem run (h : r.Paired log) (steps : List SyncStep) :
    (r.run steps).Paired (log ++ r.sent steps) := by
  induction steps generalizing r log with
  | nil => rwa [SyncRun.sent, List.append_nil]
  | cons s steps ih =>
    rw [SyncRun.sent, ← List.append_assoc]
    exact ih (h.step s)

/-- Of a connection that a step hands out, the replies to all calls were read. -/
theorem hasRead_of_handedOut (h : r.Paired log) {s : SyncStep} (hnot : r.held? i ≠ some c)
    (hheld : (r.step s).held? i = some c) (hj : InFlight.mk c j ∈ log) : r.HasRead j := by
  have htracked := h.tracked _ hj
  have hnot' : r.pool.tasks[i]? ≠ some (.holding c) := fun task => hnot (held?_eq_some_iff.mpr task)
  rcases h.exclusive.handedOut (r.effect_step s) hnot' (held?_eq_some_iff.mp hheld) with
    ⟨hopen, hnobody⟩ | hbrought
  · exact (htracked.used hopen).resolve_right fun ⟨huses, _⟩ => hnobody j huses.owned?
  · exact absurd hbrought (htracked.unbrought i)

end Paired

/-- In every run of synchronous calls a reply that is read answers the call of its reader, and a
connection is handed out only when the replies to all calls that were sent on it have been read. -/
theorem replies_are_own (name : String) (settings : PoolSettings) (steps : List SyncStep) :
    (∀ (i j : Nat) (e : Exchange),
      ((SyncRun.start (.new name settings)).run steps).exchanges[i]? = some e →
      e.read? = some j → j = i) ∧
    ∀ (s : SyncStep) (i j c : Nat),
      ((SyncRun.start (.new name settings)).run steps).held? i ≠ some c →
      (((SyncRun.start (.new name settings)).run steps).step s).held? i = some c →
      InFlight.mk c j ∈ (SyncRun.start (.new name settings)).sent steps →
      ((SyncRun.start (.new name settings)).run steps).HasRead j := by
  have h := (Paired.start name settings).run steps
  rw [List.nil_append] at h
  exact ⟨fun i j e => h.own, fun s i j c => h.hasRead_of_handedOut⟩

def leasing (i : Nat) (isNew : Bool) : List SyncStep :=
  .pool (.acquire syncKey) :: if isNew then
    [.pool (.advance i), .pool (.advance i), .pool (.opens i), .pool (.advance i),
      .pool (.advance i)]
  else [.pool (.advance i), .pool (.advance i)]

/-- The first caller is interrupted before it reads its reply; the second is answered on a new
connection, which is handed out to the third. -/
theorem replies_are_own_interrupted :
    let steps := leasing 0 true ++ [.write 0, .answer 0, .pool (.interrupt 0), .pool (.advance 0),
      .pool (.advance 0), .pool (.advance 0)] ++ leasing 1 true ++ [.write 1, .await 1, .answer 1,
      .read 1, .handBack 1, .pool (.advance 1), .pool (.advance 1), .pool (.acquire syncKey),
      .pool (.advance 2)]
    let r := (SyncRun.start (.new "pool" ⟨1, 30000⟩)).run steps
    r.exchanges[1]? = some (.answered 1) ∧ r.held? 2 ≠ some 1 ∧
      (r.step (.pool (.advance 2))).held? 2 = some 1 ∧ r.HasRead 1 := by
  intro steps r
  have hnot : r.held? 2 ≠ some 1 := by decide
  have hheld : (r.step (.pool (.advance 2))).held? 2 = some 1 := by decide
  have hread := (replies_are_own "pool" ⟨1, 30000⟩ steps).2 (.pool (.advance 2)) 2 1 1 hnot hheld
    (by decide)
  exact ⟨by decide, hnot, hheld, hread⟩

end SyncRun

end RemoteCall
