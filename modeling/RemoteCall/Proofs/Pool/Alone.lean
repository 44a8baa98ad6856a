import RemoteCall.Proofs.Pool.Turn

/-!
# Tasks that are left alone

If nobody comes in between, the steps of a task that hands a connection back or closes the pool come
to what the pool does at once. A closing may empty the slots in any order: it gives up the same
connections and leaves the same pool.
-/

namespace RemoteCall

namespace Pool

variable {p : Pool} {key key' : String} {keys keys' : List String}

/-! ## The order in which slots are emptied -/

def HasSlots (p : Pool) (keys : List String) : Prop :=
  ∀ key ∈ keys, (p.slots.lookup key).isSome = true

theorem hasSlots_keys (p : Pool) : p.HasSlots (p.slots.map Prod.fst) := by
  intro key hkey
  obtain ⟨slot, hslot, rfl⟩ := List.mem_map.mp hkey
  by_contra hnone
  rw [Bool.not_eq_true, Option.isSome_eq_false_iff, Option.isNone_iff_eq_none] at hnone
  have hne := List.lookup_eq_none_iff.mp hnone slot hslot
  simp at hne

theorem setSlot_of_isSome (h : (p.slots.lookup key).isSome = true) (s : Slot) :
    p.setSlot key s =
      { p with slots := p.slots.map fun (k, old) => (k, if k = key then s else old) } :=
  if_pos h

theorem isSome_lookup_setSlot (h : (p.slots.lookup key').isSome = true) (s : Slot) :
    ((p.setSlot key s).slots.lookup key').isSome = true := by
  unfold setSlot
  split_ifs
  · rw [lookup_replace]
    split_ifs
    · rwa [Option.isSome_map]
    · exact h
  · rw [List.lookup_append, Option.isSome_or, h, Bool.true_or]

theorem HasSlots.drainSlot (h : p.HasSlots keys) (key : String) :
    (p.drainSlot key).2.HasSlots keys :=
  fun k hk => isSome_lookup_setSlot (h k hk) _

theorem setSlot_comm (hne : key ≠ key') (h : (p.slots.lookup key).isSome = true)
    (h' : (p.slots.lookup key').isSome = true) (s s' : Slot) :
    (p.setSlot key s).setSlot key' s' = (p.setSlot key' s').setSlot key s := by
  rw [setSlot_of_isSome (isSome_lookup_setSlot h' s), setSlot_of_isSome (isSome_lookup_setSlot h s'),
    setSlot_of_isSome h, setSlot_of_isSome h', Pool.mk.injEq]
  refine ⟨rfl, rfl, ?_, rfl⟩
  rw [List.map_map, List.map_map]
  refine List.map_congr_left fun slot _ => ?_
  by_cases hkey : slot.1 = key
  · simp [hkey, hne]
  · simp [hkey]

theorem drainSlot_eq (p : Pool) (key : String) :
    p.drainSlot key = ((p.slot key).drain.1, p.setSlot key (p.slot key).drain.2) := rfl

theorem drainSlots_cons (key : String) (keys : List String) (p : Pool) :
    drainSlots (key :: keys) p = ((p.drainSlot key).1 ++ (drainSlots keys (p.drainSlot key).2).1,
      (drainSlots keys (p.drainSlot key).2).2) := rfl

theorem drainSlot_comm (hne : key ≠ key') (h : p.HasSlots [key, key']) :
    ((p.drainSlot key).2.drainSlot key').1 = (p.drainSlot key').1 ∧
      ((p.drainSlot key).2.drainSlot key').2 = ((p.drainSlot key').2.drainSlot key).2 := by
  have hkey := h key (List.mem_cons_self ..)
  have hkey' := h key' (List.mem_cons_of_mem _ (List.mem_singleton_self _))
  simp only [drainSlot_eq, slot_setSlot_of_ne hne, slot_setSlot_of_ne hne.symm]
  exact ⟨trivial, setSlot_comm hne hkey hkey' _ _⟩

/-- Whatever the order in which slots are emptied, the same connections are given up and the same
pool is left. -/
theorem drainSlots_perm (hperm : keys.Perm keys') (h : p.HasSlots keys) :
    (drainSlots keys p).1.Perm (drainSlots keys' p).1 ∧
      (drainSlots keys p).2 = (drainSlots keys' p).2 := by
  induction hperm generalizing p with
  | nil => exact ⟨.refl _, rfl⟩
  | cons key _ ih =>
    have hkeys : p.HasSlots _ := fun k hk => h k (List.mem_cons_of_mem key hk)
    obtain ⟨hdropped, hpool⟩ := ih (hkeys.drainSlot key)
    exact ⟨hdropped.append_left _, hpool⟩
  | swap key key' keys =>
    by_cases hne : key' = key
    · subst hne
      exact ⟨.refl _, rfl⟩
    · obtain ⟨hfirst, hpool⟩ := drainSlot_comm hne fun k hk => h k (List.mem_append_left keys hk)
      obtain ⟨hsecond, -⟩ := drainSlot_comm (Ne.symm hne) fun k hk =>
        h k (List.mem_append_left keys ((List.Perm.swap ..).mem_iff.mp hk))
      simp only [drainSlots_cons, hfirst, hsecond, hpool, ← List.append_assoc]
      exact ⟨List.perm_append_comm.append_right _, trivial⟩
  | trans hperm _ ih ih' =>
    obtain ⟨hdropped, hpool⟩ := ih h
    obtain ⟨hdropped', hpool'⟩ := ih' fun key hkey => h key (hperm.mem_iff.mpr hkey)
    exact ⟨hdropped.trans hdropped', hpool.trans hpool'⟩

theorem close_of_perm (hopen : p.isClosed = false) (hperm : keys.Perm (p.slots.map Prod.fst)) :
    (drainSlots keys p.markClosed).1.Perm p.close.1 ∧
      (drainSlots keys p.markClosed).2 = p.close.2 := by
  rw [close, hopen]
  exact drainSlots_perm hperm fun key hkey => p.hasSlots_keys key (hperm.mem_iff.mp hkey)

end Pool

namespace PoolRun

variable {r r' : PoolRun} {i c : Nat} {t : PoolTask} {keys : List String}

/-! ## One task after the other -/

def Reaches (r : PoolRun) (i : Nat) (r' : PoolRun) : Prop := ∃ n, r.advance i n = r'

namespace Reaches

theorem refl (r : PoolRun) (i : Nat) : r.Reaches i r := ⟨0, rfl⟩

theorem step (task : r.tasks[i]? = some t) (h : (r.advanceTask i t).Reaches i r') :
    r.Reaches i r' := by
  obtain ⟨n, hn⟩ := h
  refine ⟨n + 1, ?_⟩
  rw [← hn, ← step_advance_of_task task]
  rfl

theorem trans {r'' : PoolRun} (h : r.Reaches i r') (h' : r'.Reaches i r'') : r.Reaches i r'' := by
  obtain ⟨m, rfl⟩ := h
  obtain ⟨n, rfl⟩ := h'
  refine ⟨m + n, ?_⟩
  rw [advance, advance, advance, List.replicate_add, run, run, run, List.foldl_append]

end Reaches

theorem closeConnections_append (r : PoolRun) (cs ds : List Nat) :
    r.closeConnections (cs ++ ds) = (r.closeConnections cs).closeConnections ds := List.foldl_append

theorem closeConnections_setTask (r : PoolRun) (i : Nat) (t : PoolTask) (cs : List Nat) :
    (r.setTask i t).closeConnections cs = (r.closeConnections cs).setTask i t := by
  rw [closeConnections_eq, closeConnections_eq]
  rfl

theorem closeConnections_withPool (r : PoolRun) (p : Pool) (cs : List Nat) :
    { r with pool := p }.closeConnections cs = { r.closeConnections cs with pool := p } := by
  rw [closeConnections_eq, closeConnections_eq]

theorem setTask_setTask (r : PoolRun) (i : Nat) (t t' : PoolTask) :
    (r.setTask i t).setTask i t' = r.setTask i t' := by
  rw [setTask, setTask, setTask, List.set_set]

theorem getElem?_setTask (task : r.tasks[i]? = some t) (t' : PoolTask) :
    (r.setTask i t').tasks[i]? = some t' := by
  rw [tasks_setTask task, if_pos rfl]

theorem reaches_dropped (cs : List Nat) (task : r.tasks[i]? = some (.dropping cs keys)) :
    r.Reaches i ((r.closeConnections cs).setTask i (.draining keys)) := by
  induction cs generalizing r with
  | nil => exact .step task (.refl ..)
  | cons c cs ih =>
    have hnext := ih (getElem?_setTask (r := r.closeConnection c) task (.dropping cs keys))
    rw [closeConnections_setTask, setTask_setTask] at hnext
    exact .step task hnext

theorem reaches_drained (task : r.tasks[i]? = some (.draining keys)) :
    r.Reaches i (({ r with pool := (Pool.drainSlots keys r.pool).2 }.closeConnections
      (Pool.drainSlots keys r.pool).1).setTask i .finished) := by
  induction keys generalizing r with
  | nil => exact .step task (.refl ..)
  | cons key keys ih =>
    let r' : PoolRun := { r with pool := (r.pool.drainSlot key).2 }
    let dropped := (r.pool.drainSlot key).1
    have hdropped := reaches_dropped dropped
      (getElem?_setTask (r := r') task (.dropping dropped keys))
    rw [closeConnections_setTask, setTask_setTask] at hdropped
    have htask : (r'.closeConnections dropped).tasks[i]? = some (.draining (key :: keys)) := by
      rw [closeConnections_eq]
      exact task
    have hrest := ih (getElem?_setTask htask (.draining keys))
    refine .step task (hdropped.trans ?_)
    simp only [Pool.drainSlots_cons, closeConnections_append]
    simpa only [closeConnections_eq, setTask, List.set_set] using hrest

theorem reaches_discarded (task : r.tasks[i]? = some (.discarding c)) :
    r.Reaches i ((r.closeConnections [c]).setTask i .finished) := .step task (.refl ..)

theorem reaches_restored {key : String} (task : r.tasks[i]? = some (.restoring key c)) :
    r.Reaches i (({ r with pool := (r.pool.takeBack r.isOpen key c).2 }.closeConnections
      (if (r.pool.takeBack r.isOpen key c).1 then [] else [c])).setTask i .finished) := by
  refine .step task ?_
  simp only [advanceTask]
  cases (r.pool.takeBack r.isOpen key c).1 with
  | true => exact .refl ..
  | false =>
    let r' : PoolRun := { r with pool := (r.pool.takeBack r.isOpen key c).2 }
    have hdiscarded := reaches_discarded (getElem?_setTask (r := r') task (.discarding c))
    rwa [closeConnections_setTask, setTask_setTask] at hdiscarded

/-- A task that hands a connection back comes to what the pool does at once. -/
theorem recycle_alone (task : r.tasks[i]? = some (.returning c)) :
    r.Reaches i ((r.recycle c).setTask i .finished) := by
  refine .step task ?_
  cases howner : r.pool.owner? c with
  | none =>
    have hdiscarded := reaches_discarded (getElem?_setTask task (.discarding c))
    rw [closeConnections_setTask, setTask_setTask] at hdiscarded
    simp only [advanceTask, recycle, Pool.recycle, howner, Bool.false_eq_true, if_false]
    exact hdiscarded
  | some key =>
    have hrestored := reaches_restored (getElem?_setTask task (.restoring key c))
    rw [closeConnections_withPool, closeConnections_setTask] at hrestored
    simp only [advanceTask, recycle, Pool.recycle, howner]
    rw [closeConnections_withPool]
    simp only [setTask, List.set_set] at hrestored ⊢
    exact hrestored

/-- A task that closes the pool comes to what the pool does at once. -/
theorem close_alone (hopen : r.pool.isClosed = false) :
    (r.step .close).Reaches r.tasks.length (r.close.addTask .finished) := by
  rw [step_close_of_open hopen]
  let r' : PoolRun := { r with pool := r.pool.markClosed }
  have htask : (r'.addTask .closing).tasks[r.tasks.length]? = some .closing :=
    List.getElem?_concat_length
  have hdrained := reaches_drained (getElem?_setTask htask (.draining (r'.pool.slots.map Prod.fst)))
  have hclose : r.pool.close = Pool.drainSlots (r'.pool.slots.map Prod.fst) r'.pool := by
    rw [Pool.close, if_neg (by rw [hopen]; decide)]
    rfl
  refine .step htask ?_
  rw [close, hclose]
  simpa [closeConnections_eq, setTask, addTask, advanceTask, r'] using hdrained

end PoolRun

end RemoteCall
