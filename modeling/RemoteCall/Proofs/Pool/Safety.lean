import RemoteCall.Proofs.Pool.Places

/-!
# Runs of a pool

However the steps of its users fall between one another, a pool stays within its limit, counts the
places that are reserved, knows no connection twice and gives none to two users. A connection whose
exchange was interrupted is not handed out again: whoever has it is giving it back, and it is closed
before that goes on.
-/

namespace RemoteCall

def PoolTask.IsEnding : PoolTask → Prop
  | .interrupted _ | .returning _ | .restoring _ _ => True
  | _ => False

namespace PoolTask

variable {p : Pool} {t t' : PoolTask} {c d : Nat}

theorem Passes.isEnding (h : t.Passes p t') (ht : t.IsEnding) (howned : t'.owned? = some c) :
    t'.IsEnding := by
  cases h <;> trivial

theorem Shuts.isEnding (h : t.Shuts d t') (howned : t'.owned? = some c) : t'.IsEnding := by
  cases h <;> trivial

end PoolTask

namespace PoolRun

variable {r r' : PoolRun} {i : Nat} {t t' : PoolTask} {c : Nat} {key : String} {s : Slot}

structure Spent (r : PoolRun) (c : Nat) : Prop where
  lt : c < r.made
  ending : ∀ {i : Nat} {t : PoolTask}, r.tasks[i]? = some t → t.owned? = some c → t.IsEnding
  closing : r.isOpen c = true → ∃ i : Nat, r.tasks[i]? = some (.interrupted c)

namespace Spent

/-- Whoever is interrupted was the only one who had the connection. -/
theorem interrupt (hr : r.Exclusive) (task : r.tasks[i]? = some (.holding c)) :
    (r.setTask i (.interrupted c)).Spent c where
  lt := hr.owned_lt (owned?_of_task task)
  ending {j t} hj ht := by
    rw [tasks_setTask task] at hj
    split_ifs at hj with hji
    · cases hj
      trivial
    · exact absurd (hr.owner_eq ((owned?_of_task hj).trans ht) (owned?_of_task task)) hji
  closing _ := ⟨i, by rw [tasks_setTask task, if_pos rfl]⟩

theorem withPool (h : r.Spent c) (pool : Pool) : { r with pool := pool }.Spent c := { h with }

theorem closeConnection (h : r.Spent c) (d : Nat) : (r.closeConnection d).Spent c where
  lt := h.lt
  ending := h.ending
  closing hopen := by
    refine h.closing ?_
    by_contra hc
    rw [Bool.not_eq_true] at hc
    rw [isOpen_of_subset (r.closeConnection_subset d) hc] at hopen
    cases hopen

theorem addTask (h : r.Spent c) (ht : t.owned? = none) : (r.addTask t).Spent c where
  lt := h.lt
  ending {j u} hj hu := by
    rw [tasks_addTask] at hj
    split_ifs at hj
    · cases hj
      rw [ht] at hu
      cases hu
    · exact h.ending hj hu
  closing hopen := by
    obtain ⟨j, hj⟩ := h.closing hopen
    have hlt := (List.getElem?_eq_some_iff.mp hj).1
    exact ⟨j, by rw [tasks_addTask, if_neg (Nat.ne_of_lt hlt), hj]⟩

/-- Only the closing of the connection ends the interruption. -/
theorem setTask (h : r.Spent c) (task : r.tasks[i]? = some t)
    (hending : t'.owned? = some c → t'.IsEnding)
    (hclosing : t = .interrupted c → r.isOpen c = false) : (r.setTask i t').Spent c where
  lt := h.lt
  ending {j u} hj hu := by
    rw [tasks_setTask task] at hj
    split_ifs at hj
    · cases hj
      exact hending hu
    · exact h.ending hj hu
  closing hopen := by
    obtain ⟨j, hj⟩ := h.closing hopen
    refine ⟨j, ?_⟩
    rw [tasks_setTask task, if_neg, hj]
    rintro rfl
    have hshut := hclosing (Option.some.inj (task.symm.trans hj))
    rw [show r.isOpen c = true from hopen] at hshut
    cases hshut

/-- An open connection that is free belongs to nobody, so that it was not interrupted. -/
theorem look (h : r.Spent c) (hr : r.Exclusive) {hasLooked : Bool} {max : Nat}
    {granted : SlotGrant} (task : r.tasks[i]? = some (.looking key hasLooked))
    (hg : (r.pool.slot key).Grants r.isOpen max (granted, s)) :
    ({ r with pool := r.pool.setSlot key s }.setTask i (afterLook key hasLooked granted)).Spent c := by
  refine (h.withPool _).setTask task (fun hc => ?_) (fun hi => nomatch hi)
  cases hg with
  | connection free_eq isOpen_eq =>
    cases hc
    obtain ⟨j, hj⟩ := h.closing isOpen_eq
    exact absurd (owned?_of_task hj) (hr.free_unowned (by rw [free_eq]; simp) j)
  | lookAgain | full => cases hc
  | reservation => cases hc

theorem opens (h : r.Spent c) (task : r.tasks[i]? = some (.opening key)) :
    (r.openConnection i key).Spent c := by
  have hne : c ≠ r.made := Nat.ne_of_lt h.lt
  have hmade : { r with
      openConnections := r.made :: r.openConnections, made := r.made + 1 }.Spent c :=
    { lt := Nat.lt_succ_of_lt h.lt
      ending := h.ending
      closing := fun hopen => by
        rcases List.mem_cons.mp (isOpen_iff.mp hopen) with hc | hc
        · exact absurd hc hne
        · exact h.closing (isOpen_iff.mpr hc) }
  exact hmade.setTask task (fun hc => absurd (Option.some.inj hc).symm hne) (fun hi => nomatch hi)

theorem effect (h : r.Spent c) (hr : r.Exclusive) (he : r.Effect r') : r'.Spent c := by
  cases he with
  | idle => exact h
  | hangUp d => exact h.closeConnection d
  | arrive key => exact (h.withPool _).addTask rfl
  | close => exact (h.withPool _).addTask rfl
  | closeAgain => exact h.addTask rfl
  | pass task hp =>
    refine h.setTask task (fun hc => hp.isEnding (h.ending task (hp.owned? c hc)) hc) ?_
    rintro rfl
    cases hp
  | shut task hs =>
    refine (h.closeConnection _).setTask task (fun hc => hs.isEnding hc) ?_
    rintro rfl
    cases hs
    exact r.isOpen_closeConnection_self c
  | look task hg => exact h.look hr task hg
  | opens task => exact h.opens task
  | fill task =>
    refine (h.withPool _).setTask task (fun hc => ?_) (fun hi => nomatch hi)
    exact (h.ending task hc).elim
  | release task => exact (h.withPool _).setTask task (fun hc => nomatch hc) (fun hi => nomatch hi)
  | restore task =>
    refine (h.withPool _).setTask task (fun hc => ?_) (fun hi => nomatch hi)
    split_ifs at hc
    · cases hc
    · cases hc
  | drain task => exact (h.withPool _).setTask task (fun hc => nomatch hc) (fun hi => nomatch hi)

theorem run (h : r.Spent c) (hr : r.Exclusive) (steps : List PoolStep) :
    (r.run steps).Spent c :=
  hr.run_of_effect (P := fun r => r.Spent c) (fun hr h he => h.effect hr he) h steps

theorem not_held (h : r.Spent c) : .holding c ∉ r.tasks := by
  intro hmem
  obtain ⟨i, hi⟩ := List.mem_iff_getElem?.mp hmem
  exact h.ending hi rfl

end Spent

theorem Effect.settings_eq (h : r.Effect r') : r'.pool.settings = r.pool.settings := by
  cases h with
  | restore => exact Pool.settings_setSlot ..
  | arrive | look | fill | release | drain => exact Pool.settings_setSlot ..
  | _ => rfl

theorem settings_run (r : PoolRun) (steps : List PoolStep) :
    (r.run steps).pool.settings = r.pool.settings := by
  induction steps generalizing r with
  | nil => rfl
  | cons s steps ih => exact (ih _).trans (r.effect_step s).settings_eq

/-- No slot has more connections than this, free, in use and being opened; each counts the places
reserved in it, so that a count goes down only from above zero; and no connection is known twice or
belongs to two tasks. -/
structure Safe (r : PoolRun) (max : Nat) : Prop where
  live_le : ∀ key, (r.pool.slot key).live ≤ max
  connecting_eq : ∀ key, (r.pool.slot key).connecting = r.places key
  connecting_pos : ∀ (i : Nat) (t : PoolTask) (key : String), r.tasks[i]? = some t →
    t.reserved? = some key → 0 < (r.pool.slot key).connecting
  nodup : ∀ key, (r.pool.slot key).members.Nodup
  key_eq : ∀ (key key' : String) (c : Nat), c ∈ (r.pool.slot key).members →
    c ∈ (r.pool.slot key').members → key = key'
  owner_eq : ∀ i j c, r.owned? i = some c → r.owned? j = some c → i = j

/-- Every run of a pool is safe, and a connection whose holder is interrupted is never held by
anyone after that. -/
theorem safe_run (name : String) (settings : PoolSettings) (steps : List PoolStep) :
    ((start (.new name settings)).run steps).Safe settings.maxConnections ∧
    ∀ (i c : Nat) (later : List PoolStep),
      ((start (.new name settings)).run steps).tasks[i]? = some (.holding c) →
      .holding c ∉
        ((((start (.new name settings)).run steps).step (.interrupt i)).run later).tasks := by
  have hexclusive := (Exclusive.start name settings).run steps
  have haccounted := (Accounted.start name settings).run (.start name settings) steps
  have hsettings := settings_run (start (.new name settings)) steps
  generalize (start (.new name settings)).run steps = r at *
  refine ⟨⟨fun key => ?_, haccounted.connecting_eq, fun i t key => haccounted.connecting_pos,
    hexclusive.nodup, fun _ _ _ => hexclusive.key_eq, fun _ _ _ => hexclusive.owner_eq⟩, ?_⟩
  · have hlive := haccounted.live_le key
    rwa [hsettings] at hlive
  · intro i c later task
    have hstep : r.step (.interrupt i) = r.setTask i (.interrupted c) := by simp only [step, task]
    have hspent := Spent.interrupt hexclusive task
    have hafter := hexclusive.effect (r.effect_step (.interrupt i))
    rw [hstep] at hafter ⊢
    exact (hspent.run hafter later).not_held

def acquiring (key : String) (i : Nat) : List PoolStep :=
  [.acquire key, .advance i, .advance i, .opens i, .advance i, .advance i]

/-- With room for one connection, the next task gets a new one in place of the interrupted. -/
theorem safe_run_interrupted :
    let r := (start (.new "pool" ⟨1, 30000⟩)).run (acquiring "key" 0)
    r.Safe 1 ∧ r.tasks = [.holding 0] ∧
    ((r.step (.interrupt 0)).run (List.replicate 3 (.advance 0) ++ acquiring "key" 1)).tasks =
      [.discarding 0, .holding 1] := by
  exact ⟨(safe_run "pool" ⟨1, 30000⟩ (acquiring "key" 0)).1, by decide, by decide⟩

end PoolRun

end RemoteCall
