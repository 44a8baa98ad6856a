import RemoteCall.Proofs.Pool.Run
import RemoteCall.Proofs.Pool.Slot
import RemoteCall.Proofs.Positions

/-!
# What a step of a run can be

A task has a connection to itself from the moment it opens it or is handed it until it gives it
back, and a place from reserving it until it fills it or gives it up. The steps of a run are listed
here once, with what each does to the pool, to the connections and to its task.
-/

namespace RemoteCall

namespace PoolTask

def reserved? : PoolTask → Option String
  | .opening key | .opened key _ | .filling key _ | .refusing key _ | .releasing key => some key
  | _ => none

def brought? : PoolTask → Option Nat
  | .opened _ c | .filling _ c | .refusing _ c => some c
  | _ => none

def owned? : PoolTask → Option Nat
  | .opened _ c | .filling _ c | .refusing _ c | .holding c | .interrupted c | .returning c
  | .restoring _ c => some c
  | _ => none

def IsClosing : PoolTask → Prop
  | .closing | .draining _ | .dropping _ _ => True
  | _ => False

theorem owned?_of_brought? {t : PoolTask} {c : Nat} (h : t.brought? = some c) :
    t.owned? = some c := by
  cases t <;> first | exact h | cases h

theorem brought?_eq_none {t : PoolTask} (h : t.owned? = none) : t.brought? = none := by
  cases t <;> first | rfl | cases h

inductive Passes (p : Pool) : PoolTask → PoolTask → Prop
  | looks (key : String) (hasLooked : Bool) (h : p.isClosed = false) :
    Passes p (.arriving key hasLooked) (.looking key hasLooked)
  | leaves (key : String) (hasLooked : Bool) : Passes p (.arriving key hasLooked) .finished
  | failsToOpen (key : String) : Passes p (.opening key) (.releasing key)
  | confirms (key : String) (c : Nat) (h : p.isClosed = false) :
    Passes p (.opened key c) (.filling key c)
  | refuses (key : String) (c : Nat) (h : p.isClosed = true) :
    Passes p (.opened key c) (.refusing key c)
  | handsBack (c : Nat) : Passes p (.holding c) (.returning c)
  | isInterrupted (c : Nat) : Passes p (.holding c) (.interrupted c)
  | finds {key : String} {c : Nat} (h : p.owner? c = some key) :
    Passes p (.returning c) (.restoring key c)
  | disowns (c : Nat) : Passes p (.returning c) (.discarding c)
  | lists : Passes p .closing (.draining (p.slots.map Prod.fst))
  | closed : Passes p (.draining []) .finished
  | dropped (keys : List String) : Passes p (.dropping [] keys) (.draining keys)

inductive Shuts (c : Nat) : PoolTask → PoolTask → Prop
  | refused (key : String) : Shuts c (.refusing key c) (.releasing key)
  | interrupted : Shuts c (.interrupted c) (.returning c)
  | discarded : Shuts c (.discarding c) .finished
  | dropped (cs : List Nat) (keys : List String) :
    Shuts c (.dropping (c :: cs) keys) (.dropping cs keys)

theorem Passes.owned? {p : Pool} {t t' : PoolTask} (h : t.Passes p t') (c : Nat)
    (hc : t'.owned? = some c) : t.owned? = some c := by
  cases h <;> first | exact hc | cases hc

theorem Passes.brought? {p : Pool} {t t' : PoolTask} (h : t.Passes p t') (c : Nat)
    (hc : t'.brought? = some c) : t.brought? = some c := by
  cases h <;> exact hc

theorem Shuts.owned? {t t' : PoolTask} {d : Nat} (h : t.Shuts d t') (c : Nat)
    (hc : t'.owned? = some c) : t.owned? = some c := by
  cases h <;> first | exact hc | cases hc

theorem Shuts.brought? {t t' : PoolTask} {d : Nat} (h : t.Shuts d t') (c : Nat)
    (hc : t'.brought? = some c) : t.brought? = some c := by
  cases h <;> first | exact hc | cases hc

end PoolTask

namespace PoolRun

variable {r r' : PoolRun} {i : Nat} {t t' : PoolTask} {c : Nat} {key : String}

def owned? (r : PoolRun) (i : Nat) : Option Nat := (r.tasks[i]?).bind PoolTask.owned?

def brought? (r : PoolRun) (i : Nat) : Option Nat := (r.tasks[i]?).bind PoolTask.brought?

theorem owned?_of_task (h : r.tasks[i]? = some t) : r.owned? i = t.owned? := by rw [owned?, h]; rfl

theorem brought?_of_task (h : r.tasks[i]? = some t) : r.brought? i = t.brought? := by
  rw [brought?, h]; rfl

theorem owned?_of_brought? (h : r.brought? i = some c) : r.owned? i = some c := by
  obtain ⟨t, ht, hc⟩ := Option.bind_eq_some_iff.mp h
  rw [owned?_of_task ht, PoolTask.owned?_of_brought? hc]

theorem tasks_setTask (h : r.tasks[i]? = some t) (t' : PoolTask) (j : Nat) :
    (r.setTask i t').tasks[j]? = if j = i then some t' else r.tasks[j]? :=
  getElem?_set_of_some h t' j

theorem owned?_setTask (h : r.tasks[i]? = some t) (t' : PoolTask) :
    (r.setTask i t').owned? = Function.update r.owned? i t'.owned? := by
  funext j
  rw [owned?, tasks_setTask h, Function.update_apply]
  split_ifs <;> rfl

theorem brought?_setTask (h : r.tasks[i]? = some t) (t' : PoolTask) :
    (r.setTask i t').brought? = Function.update r.brought? i t'.brought? := by
  funext j
  rw [brought?, tasks_setTask h, Function.update_apply]
  split_ifs <;> rfl

theorem tasks_addTask (r : PoolRun) (t : PoolTask) (j : Nat) :
    (r.addTask t).tasks[j]? = if j = r.tasks.length then some t else r.tasks[j]? :=
  getElem?_concat ..

/-- A task that has nothing to itself changes nobody's connections by coming. -/
theorem owned?_addTask (ht : t.owned? = none) (r : PoolRun) : (r.addTask t).owned? = r.owned? := by
  funext j
  rw [owned?, tasks_addTask]
  split_ifs with hj
  · rw [owned?, hj, List.getElem?_eq_none (Nat.le_refl _)]
    exact ht
  · rfl

theorem brought?_addTask (ht : t.brought? = none) (r : PoolRun) :
    (r.addTask t).brought? = r.brought? := by
  funext j
  rw [brought?, tasks_addTask]
  split_ifs with hj
  · rw [brought?, hj, List.getElem?_eq_none (Nat.le_refl _)]
    exact ht
  · rfl

inductive Effect (r : PoolRun) : PoolRun → Prop
  | idle : Effect r r
  | hangUp (c : Nat) : Effect r (r.closeConnection c)
  | arrive (key : String) :
    Effect r ({ r with pool := r.pool.withSlot key }.addTask (.arriving key false))
  | close (h : r.pool.isClosed = false) :
    Effect r ({ r with pool := r.pool.markClosed }.addTask .closing)
  | closeAgain : Effect r (r.addTask .finished)
  | pass {i : Nat} {t t' : PoolTask} (task : r.tasks[i]? = some t) (h : t.Passes r.pool t') :
    Effect r (r.setTask i t')
  | shut {i c : Nat} {t t' : PoolTask} (task : r.tasks[i]? = some t) (h : t.Shuts c t') :
    Effect r ((r.closeConnection c).setTask i t')
  | look {i : Nat} {key : String} {hasLooked : Bool} {granted : SlotGrant} {s : Slot}
    (task : r.tasks[i]? = some (.looking key hasLooked))
    (h : (r.pool.slot key).Grants r.isOpen r.pool.settings.maxConnections (granted, s)) :
    Effect r ({ r with pool := r.pool.setSlot key s }.setTask i (afterLook key hasLooked granted))
  | opens {i : Nat} {key : String} (task : r.tasks[i]? = some (.opening key)) :
    Effect r (r.openConnection i key)
  | fill {i c : Nat} {key : String} (task : r.tasks[i]? = some (.filling key c)) :
    Effect r ({ r with pool := r.pool.fill key c }.setTask i (.holding c))
  | release {i : Nat} {key : String} (task : r.tasks[i]? = some (.releasing key)) :
    Effect r ({ r with pool := r.pool.release key }.setTask i .finished)
  | restore {i c : Nat} {key : String} (task : r.tasks[i]? = some (.restoring key c)) :
    Effect r ({ r with pool := (r.pool.takeBack r.isOpen key c).2 }.setTask i
      (if (r.pool.takeBack r.isOpen key c).1 then .finished else .discarding c))
  | drain {i : Nat} {key : String} {keys : List String}
    (task : r.tasks[i]? = some (.draining (key :: keys))) :
    Effect r ({ r with pool := (r.pool.drainSlot key).2 }.setTask i
      (.dropping (r.pool.drainSlot key).1 keys))

theorem effect_advanceTask (h : r.tasks[i]? = some t) : r.Effect (r.advanceTask i t) := by
  cases t with
  | arriving key hasLooked =>
    simp only [advanceTask]
    split_ifs with hclosed
    · exact .pass h (.leaves ..)
    · exact .pass h (.looks key hasLooked (Bool.eq_false_iff.mpr hclosed))
  | looking key hasLooked => exact .look h (Slot.grants ..)
  | opened key c =>
    simp only [advanceTask]
    split_ifs with hclosed
    · exact .pass h (.refuses key c hclosed)
    · exact .pass h (.confirms key c (Bool.eq_false_iff.mpr hclosed))
  | filling key c => exact .fill h
  | refusing key c => exact .shut h (.refused key)
  | releasing key => exact .release h
  | interrupted c => exact .shut h .interrupted
  | returning c =>
    simp only [advanceTask]
    cases hc : r.pool.owner? c with
    | some key => exact .pass h (.finds hc)
    | none => exact .pass h (.disowns c)
  | restoring key c => exact .restore h
  | discarding c => exact .shut h .discarded
  | closing => exact .pass h .lists
  | draining keys =>
    cases keys with
    | nil => exact .pass h .closed
    | cons key keys => exact .drain h
  | dropping connections keys =>
    cases connections with
    | nil => exact .pass h (.dropped keys)
    | cons c cs => exact .shut h (.dropped cs keys)
  | opening | holding | finished => exact .idle

theorem effect_step (r : PoolRun) (s : PoolStep) : r.Effect (r.step s) := by
  cases s with
  | acquire key => exact .arrive key
  | close =>
    simp only [step]
    split_ifs with hclosed
    · exact .closeAgain
    · exact .close (Bool.eq_false_iff.mpr hclosed)
  | advance i =>
    simp only [step]
    cases h : r.tasks[i]? with
    | none => exact .idle
    | some t => exact effect_advanceTask h
  | opens i =>
    simp only [step]
    split
    · rename_i h
      exact .opens h
    · exact .idle
  | failsToOpen i =>
    simp only [step]
    split
    · rename_i h
      exact .pass h (.failsToOpen _)
    · exact .idle
  | giveUp i =>
    simp only [step]
    split
    · rename_i h
      exact .pass h (.leaves ..)
    · rename_i h
      exact .pass h (.failsToOpen _)
    · exact .idle
  | handBack i =>
    simp only [step]
    split
    · rename_i h
      exact .pass h (.handsBack _)
    · exact .idle
  | interrupt i =>
    simp only [step]
    split
    · rename_i h
      exact .pass h (.isInterrupted _)
    · exact .idle
  | hangUp c => exact .hangUp c

theorem step_advance_of_task (task : r.tasks[i]? = some t) :
    r.step (.advance i) = r.advanceTask i t := by
  simp only [step, task, Option.elim_some]

theorem step_close_of_open (hopen : r.pool.isClosed = false) :
    r.step .close = { r with pool := r.pool.markClosed }.addTask .closing := by
  simp only [step, hopen, Bool.false_eq_true, if_false]

theorem run_of_effect {P : PoolRun → Prop} (heffect : ∀ {r r' : PoolRun}, P r → r.Effect r' → P r')
    (h : P r) (steps : List PoolStep) : P (r.run steps) := by
  induction steps generalizing r with
  | nil => exact h
  | cons s steps ih => exact ih (heffect h (r.effect_step s))

end PoolRun

end RemoteCall
