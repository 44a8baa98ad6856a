import RemoteCall.Proofs.Pool.Exclusive

/-!
# Holders

A task that holds a connection keeps it until it hands it back or is interrupted, and once it is
interrupted it closes the connection before it does anything else. A connection comes to be held by
being handed out, when it is open and belongs to nobody, or by having just been made.
-/

namespace RemoteCall

namespace PoolStep

def task? : PoolStep → Option Nat
  | .advance i | .opens i | .failsToOpen i | .giveUp i | .handBack i | .interrupt i => some i
  | .acquire _ | .close | .hangUp _ => none

end PoolStep

namespace PoolRun

variable {r r' : PoolRun} {i j : Nat} {t t' : PoolTask} {c : Nat} {s : PoolStep}

theorem tasks_setTask_of_ne (h : j ≠ i) (r : PoolRun) (t' : PoolTask) :
    (r.setTask i t').tasks[j]? = r.tasks[j]? := List.getElem?_set_ne (Ne.symm h)

theorem tasks_addTask_of_task (task : r.tasks[j]? = some t) (t' : PoolTask) :
    (r.addTask t').tasks[j]? = some t := by
  have hlt := (List.getElem?_eq_some_iff.mp task).1
  rw [tasks_addTask, if_neg (Nat.ne_of_lt hlt), task]

theorem tasks_advanceTask_of_ne (h : j ≠ i) (r : PoolRun) (t : PoolTask) :
    (r.advanceTask i t).tasks[j]? = r.tasks[j]? := by
  cases t with
  | opening | holding | finished => rfl
  | draining keys => cases keys <;> exact tasks_setTask_of_ne h ..
  | dropping connections keys => cases connections <;> exact tasks_setTask_of_ne h ..
  | _ => exact tasks_setTask_of_ne h ..

/-- The steps of others leave a task as it is. -/
theorem tasks_step_of_ne (h : s.task? ≠ some j) (task : r.tasks[j]? = some t) :
    (r.step s).tasks[j]? = some t := by
  have hne : ∀ i, s.task? = some i → j ≠ i := by
    rintro i hi rfl
    exact h hi
  cases s with
  | acquire key => exact tasks_addTask_of_task task _
  | hangUp c => exact task
  | close =>
    simp only [step]
    split_ifs
    · exact tasks_addTask_of_task task _
    · exact tasks_addTask_of_task task _
  | advance i =>
    simp only [step]
    cases r.tasks[i]? with
    | none => exact task
    | some u => exact (tasks_advanceTask_of_ne (hne i rfl) r u).trans task
  | opens i | failsToOpen i | giveUp i | handBack i | interrupt i =>
    simp only [step]
    split
    all_goals first | exact task | exact (tasks_setTask_of_ne (hne i rfl) ..).trans task

/-- The task has the connection in an exchange, or has yet to close it after an interrupted one. -/
def Uses (r : PoolRun) (j c : Nat) : Prop :=
  r.tasks[j]? = some (.holding c) ∨ r.tasks[j]? = some (.interrupted c)

theorem Uses.owned? (h : r.Uses j c) : r.owned? j = some c := by
  rcases h with h | h
  · exact owned?_of_task h
  · exact owned?_of_task h

theorem uses_of_holding (task : r.tasks[j]? = some (.holding c)) (hs : s ≠ .handBack j) :
    (r.step s).Uses j c := by
  by_cases hj : s.task? = some j
  · cases s with
    | acquire | close | hangUp => cases hj
    | handBack i => exact absurd (congrArg PoolStep.handBack (Option.some.inj hj)) hs
    | interrupt i =>
      cases hj
      right
      simp only [step, task, tasks_setTask task, if_pos]
    | advance i | opens i | failsToOpen i | giveUp i =>
      cases hj
      left
      simp [step, advanceTask, task]
  · exact .inl (tasks_step_of_ne hj task)

theorem uses_of_interrupted (task : r.tasks[j]? = some (.interrupted c))
    (hopen : (r.step s).isOpen c = true) : (r.step s).Uses j c := by
  right
  by_cases hj : s.task? = some j
  · cases s with
    | acquire | close | hangUp => cases hj
    | advance i =>
      cases hj
      simp only [step, task, Option.elim_some] at hopen
      exact absurd ((r.isOpen_closeConnection_self c).symm.trans hopen) Bool.false_ne_true
    | handBack i | interrupt i | opens i | failsToOpen i | giveUp i =>
      cases hj
      simp [step, task]
  · exact tasks_step_of_ne hj task

/-- While it is open, a connection is used until it is handed back. -/
theorem Uses.step (h : r.Uses j c) (hs : s ≠ .handBack j) (hopen : (r.step s).isOpen c = true) :
    (r.step s).Uses j c :=
  h.elim (fun task => uses_of_holding task hs) (fun task => uses_of_interrupted task hopen)

theorem Effect.made_le (h : r.Effect r') : r.made ≤ r'.made := by
  cases h with
  | opens => exact Nat.le_succ _
  | _ => exact Nat.le_refl _

/-- No connection that was made before opens again. -/
theorem Effect.isOpen_of_lt (h : r.Effect r') (hlt : c < r.made) (hopen : r'.isOpen c = true) :
    r.isOpen c = true := by
  cases h with
  | opens =>
    rcases List.mem_cons.mp (isOpen_iff.mp hopen) with hc | hc
    · exact absurd hc (Nat.ne_of_lt hlt)
    · exact isOpen_iff.mpr hc
  | hangUp | shut => exact isOpen_iff.mpr (closeConnection_subset _ _ (isOpen_iff.mp hopen))
  | _ => exact hopen

theorem brought?_of_setTask (task : r.tasks[i]? = some t)
    (ht : t'.brought? = some c → t.brought? = some c)
    (hj : (r.setTask i t').brought? j = some c) : r.brought? j = some c := by
  rw [brought?_setTask task, Function.update_apply] at hj
  split_ifs at hj with hji
  · rw [hji, brought?_of_task task]
    exact ht hj
  · exact hj

/-- Only a connection that is made in a step is brought by a task that did not bring it before. -/
theorem Effect.brought?_of_lt (h : r.Effect r') (hlt : c < r.made) (hj : r'.brought? j = some c) :
    r.brought? j = some c := by
  cases h with
  | idle => exact hj
  | hangUp d => exact hj
  | arrive key => rwa [brought?_addTask rfl] at hj
  | close => rwa [brought?_addTask rfl] at hj
  | closeAgain => rwa [brought?_addTask rfl] at hj
  | pass task hp => exact brought?_of_setTask task (hp.brought? c) hj
  | shut task hs =>
    exact brought?_of_setTask (r := r.closeConnection _) task (hs.brought? c) hj
  | opens task =>
    refine brought?_of_setTask (r := { r with openConnections := _, made := _ }) task ?_ hj
    intro hc
    exact absurd (Option.some.inj hc).symm (Nat.ne_of_lt hlt)
  | look task hg =>
    refine brought?_of_setTask (r := { r with pool := _ }) task (fun hc => ?_) hj
    cases hg <;> cases hc
  | restore task =>
    refine brought?_of_setTask (r := { r with pool := _ }) task (fun hc => ?_) hj
    split_ifs at hc <;> cases hc
  | fill task | release task | drain task =>
    refine brought?_of_setTask (r := { r with pool := _ }) task (fun hc => ?_) hj
    cases hc

/-- A task comes to hold a connection when the connection is open and belongs to nobody, or when the
task itself has made it. -/
theorem Exclusive.handedOut (hr : r.Exclusive) (h : r.Effect r')
    (hnot : r.tasks[i]? ≠ some (.holding c)) (hheld : r'.tasks[i]? = some (.holding c)) :
    (r.isOpen c = true ∧ ∀ j, r.owned? j ≠ some c) ∨ r.brought? i = some c := by
  have hset : ∀ {k : Nat} {t t' : PoolTask}, r.tasks[k]? = some t →
      (r.setTask k t').tasks[i]? = some (.holding c) → i = k ∧ t' = .holding c := by
    intro k t t' task hi
    rw [tasks_setTask task] at hi
    split_ifs at hi with hik
    · exact ⟨hik, Option.some.inj hi⟩
    · exact absurd hi hnot
  have hadd : ∀ {t : PoolTask}, (r.addTask t).tasks[i]? = some (.holding c) → t = .holding c := by
    intro t hi
    rw [tasks_addTask] at hi
    split_ifs at hi
    · exact Option.some.inj hi
    · exact absurd hi hnot
  cases h with
  | idle => exact absurd hheld hnot
  | hangUp d => exact absurd hheld hnot
  | arrive key => cases hadd hheld
  | close => cases hadd hheld
  | closeAgain => cases hadd hheld
  | pass task hp =>
    obtain ⟨-, rfl⟩ := hset task hheld
    cases hp
  | shut task hs =>
    obtain ⟨-, rfl⟩ := hset task hheld
    cases hs
  | opens task => cases (hset task hheld).2
  | release task => cases (hset task hheld).2
  | drain task => cases (hset task hheld).2
  | restore task =>
    have ht := (hset task hheld).2
    split_ifs at ht
  | look task hg =>
    have ht := (hset task hheld).2
    cases hg with
    | connection free_eq isOpen_eq =>
      cases ht
      exact .inl ⟨isOpen_eq, hr.free_unowned (by rw [free_eq]; simp)⟩
    | lookAgain | full => cases ht
    | reservation => cases ht
  | fill task =>
    obtain ⟨rfl, ht⟩ := hset task hheld
    cases ht
    exact .inr (brought?_of_task task)

end PoolRun

end RemoteCall
