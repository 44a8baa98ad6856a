import RemoteCall.Proofs.Pool.Holders

/-!
# Closing a pool

Closing marks the pool, and then empties one slot after another and closes what was in it. Whatever
a slot knows at that time is found there, and so is a connection that a task holds, which is in use
in a slot. A task that opens a connection looks at the mark before it fills its place; but once it
has looked it fills the place in any case, even after the slot was emptied. That is the one way in
which a connection outlives its pool.
-/

namespace RemoteCall

namespace PoolTask

variable {p : Pool} {t t' : PoolTask} {c : Nat} {key : String}

def Awaits (key : String) : PoolTask → Prop
  | .closing => True
  | .draining keys | .dropping _ keys => key ∈ keys
  | _ => False

theorem Awaits.isClosing (h : t.Awaits key) : t.IsClosing := by
  cases t with
  | closing | draining | dropping => trivial
  | _ => exact h

def drops : PoolTask → List Nat
  | .dropping cs _ => cs
  | _ => []

theorem isClosing_of_mem_drops (h : c ∈ t.drops) : t.IsClosing := by
  cases t with
  | dropping => trivial
  | _ => cases h

theorem Passes.brought?_eq (h : t.Passes p t') : t'.brought? = t.brought? := by
  cases h <;> rfl

theorem Passes.drops_eq (h : t.Passes p t') : t.drops = [] := by
  cases h <;> rfl

theorem Passes.isClosing (h : t.Passes p t') (ht : t'.IsClosing) : t.IsClosing := by
  cases h with
  | lists | dropped => trivial
  | _ => cases ht

theorem Passes.ne_filling (h : t.Passes p t') (hclosed : p.isClosed = true) :
    t' ≠ .filling key c := by
  rintro rfl
  cases h with
  | confirms _ _ hopen => exact Bool.false_ne_true (hopen.symm.trans hclosed)

theorem Shuts.brought?_eq_none {d : Nat} (h : t.Shuts d t') (hc : t'.owned? = some c) :
    t.brought? = none := by
  cases h with
  | interrupted => rfl
  | _ => cases hc

theorem Shuts.drops {d : Nat} (h : t.Shuts d t') (hc : c ∈ t.drops) (hne : c ≠ d) :
    c ∈ t'.drops := by
  cases h with
  | dropped cs keys => exact (List.mem_cons.mp hc).resolve_left hne
  | _ => cases hc

theorem Shuts.isClosing {d : Nat} (h : t.Shuts d t') (ht : t'.IsClosing) : t.IsClosing := by
  cases h with
  | dropped => trivial
  | _ => cases ht

theorem Shuts.ne_filling {d : Nat} (h : t.Shuts d t') : t' ≠ .filling key c := by
  rintro rfl
  cases h

theorem Shuts.awaits {d : Nat} (h : t.Shuts d t') (hkey : t.Awaits key) : t'.Awaits key := by
  cases h with
  | dropped => exact hkey
  | _ => cases hkey

end PoolTask

namespace Slot

variable {s s' : Slot} {isOpen : Nat → Bool} {max c : Nat} {granted : SlotGrant}

theorem Grants.used_subset (h : s.Grants isOpen max (granted, s')) : s.used ⊆ s'.used := by
  cases h with
  | connection => exact List.subset_append_left ..
  | _ => exact List.Subset.refl _

theorem Grants.members_subset (h : s.Grants isOpen max (granted, s')) : s'.members ⊆ s.members := by
  intro d hd
  rw [mem_members] at hd ⊢
  cases h with
  | connection free_eq =>
    rcases hd with hd | hd
    · exact .inl (by rw [free_eq]; exact List.mem_append_left _ hd)
    · rcases List.mem_append.mp hd with hd | hd
      · exact .inr hd
      · rw [List.mem_singleton.mp hd, free_eq]
        exact .inl (List.mem_append_right _ (List.mem_cons_self ..))
  | lookAgain | reservation | full =>
    rcases hd with hd | hd
    · cases hd
    · exact .inr hd

end Slot

theorem Pool.mem_keys {p : Pool} {key : String} {c : Nat} (h : c ∈ (p.slot key).members) :
    key ∈ p.slots.map Prod.fst := by
  by_contra hkey
  have hnone : p.slots.lookup key = none := by
    rw [List.lookup_eq_none_iff]
    intro slot hslot
    rw [bne_iff_ne]
    rintro rfl
    exact hkey (List.mem_map_of_mem hslot)
  rw [slot, hnone] at h
  cases h

namespace PoolRun

variable {r r' : PoolRun} {i j : Nat} {t t' : PoolTask} {c : Nat} {key : String} {s : Slot}

/-! ## What tasks hold is in use -/

def Tended (r : PoolRun) (c : Nat) : Prop :=
  (∃ key, c ∈ (r.pool.slot key).used) ∨ ∃ (j : Nat) (t : PoolTask), r.tasks[j]? = some t ∧ c ∈ t.drops

/-- No task has an open connection but those it made itself and those that are tended. -/
def Lent (r : PoolRun) : Prop :=
  ∀ j c, r.isOpen c = true → r.owned? j = some c → r.brought? j = none → r.Tended c

namespace Lent

theorem start (p : Pool) : (PoolRun.start p).Lent := fun _ _ _ h _ => by cases h

theorem closeConnection (h : r.Lent) (d : Nat) : (r.closeConnection d).Lent := by
  intro j c hopen howned hbrought
  refine h j c ?_ howned hbrought
  exact isOpen_iff.mpr (closeConnection_subset r d (isOpen_iff.mp hopen))

theorem addTask (h : r.Lent) (ht : t.owned? = none) : (r.addTask t).Lent := by
  intro j c hopen howned hbrought
  rw [owned?_addTask ht] at howned
  rw [brought?_addTask (PoolTask.brought?_eq_none ht)] at hbrought
  rcases h j c hopen howned hbrought with hused | ⟨k, u, task, hc⟩
  · exact .inl hused
  · exact .inr ⟨k, u, tasks_addTask_of_task task t, hc⟩

/-- A task may go on with what it had or with what is in use, and drops what it was to drop. -/
theorem setTask (h : r.Lent) (task : r.tasks[i]? = some t) (t' : PoolTask)
    (howned : ∀ c, t'.owned? = some c → t'.brought? = none →
      (t.owned? = some c ∧ t.brought? = none) ∨ ∃ key, c ∈ (r.pool.slot key).used)
    (hdrops : ∀ c, r.isOpen c = true → c ∈ t.drops → c ∈ t'.drops) : (r.setTask i t').Lent := by
  intro j c hopen hj hbrought
  have htended : r.Tended c → (r.setTask i t').Tended c := by
    rintro (hused | ⟨k, u, hk, hc⟩)
    · exact .inl hused
    · by_cases hki : k = i
      · subst hki
        cases task.symm.trans hk
        exact .inr ⟨k, t', by rw [tasks_setTask task, if_pos rfl], hdrops c hopen hc⟩
      · exact .inr ⟨k, u, by rw [tasks_setTask task, if_neg hki, hk], hc⟩
  apply htended
  rw [owned?_setTask task, Function.update_apply] at hj
  rw [brought?_setTask task, Function.update_apply] at hbrought
  by_cases hji : j = i
  · rw [if_pos hji] at hj hbrought
    rcases howned c hj hbrought with ⟨hold, hnone⟩ | hused
    · exact h i c hopen ((owned?_of_task task).trans hold) ((brought?_of_task task).trans hnone)
    · exact .inl hused
  · rw [if_neg hji] at hj hbrought
    exact h j c hopen hj hbrought

/-- A connection that leaves a slot belongs to nobody or is about to be closed. -/
theorem setSlot (h : r.Lent) (key : String) (s : Slot)
    (hused : ∀ j c, r.owned? j = some c → c ∈ (r.pool.slot key).used → c ∈ s.used ∨
      ∃ (k : Nat) (t : PoolTask), r.tasks[k]? = some t ∧ c ∈ t.drops) :
    { r with pool := r.pool.setSlot key s }.Lent := by
  intro j c hopen howned hbrought
  rcases h j c hopen howned hbrought with ⟨key', hc⟩ | hdrops
  · by_cases hkey : key' = key
    · subst hkey
      refine (hused j c howned hc).imp_left fun hc => ⟨key', ?_⟩
      rw [Pool.slot_setSlot_self]
      exact hc
    · refine .inl ⟨key', ?_⟩
      rw [Pool.slot_setSlot_of_ne hkey]
      exact hc
  · exact .inr hdrops

theorem look (h : r.Lent) {hasLooked : Bool} {isOpen : Nat → Bool} {max : Nat}
    {granted : SlotGrant} (task : r.tasks[i]? = some (.looking key hasLooked))
    (hg : (r.pool.slot key).Grants isOpen max (granted, s)) :
    ({ r with pool := r.pool.setSlot key s }.setTask i (afterLook key hasLooked granted)).Lent := by
  have hslot := h.setSlot key s fun j c _ hc => .inl (hg.used_subset hc)
  apply hslot.setTask task
  · intro c howned _
    cases hg with
    | connection =>
      cases howned
      exact .inr ⟨key, by rw [Pool.slot_setSlot_self]; simp⟩
    | lookAgain | full => cases howned
    | reservation => cases howned
  · intro c _ hc
    cases hc

/-- A connection that was just made is new to everyone else. -/
theorem opens (h : r.Lent) (hr : r.Exclusive) (task : r.tasks[i]? = some (.opening key)) :
    (r.openConnection i key).Lent := by
  have hmade : { r with
      openConnections := r.made :: r.openConnections, made := r.made + 1 }.Lent := by
    intro j c hopen howned hbrought
    rcases List.mem_cons.mp (isOpen_iff.mp hopen) with hc | hc
    · exact absurd (hr.owned_lt howned) (by omega)
    · exact h j c (isOpen_iff.mpr hc) howned hbrought
  apply hmade.setTask task
  · intro c _ hbrought
    cases hbrought
  · intro c _ hc
    cases hc

theorem fill (h : r.Lent) (task : r.tasks[i]? = some (.filling key c)) :
    ({ r with pool := r.pool.fill key c }.setTask i (.holding c)).Lent := by
  have hslot := h.setSlot key ((r.pool.slot key).fill c) fun j d _ hd =>
    .inl (List.mem_append_left _ hd)
  apply hslot.setTask task
  · intro d howned _
    cases howned
    exact .inr ⟨key, by rw [Pool.slot_setSlot_self]; simp [Slot.fill]⟩
  · intro d _ hd
    cases hd

/-- What is taken back belongs to nobody any more. -/
theorem restore (h : r.Lent) (hr : r.Exclusive) {isOpen : Nat → Bool}
    (task : r.tasks[i]? = some (.restoring key c)) (ht : t'.owned? = none) :
    ({ r with pool := (r.pool.takeBack isOpen key c).2 }.setTask i t').Lent := by
  have htask : (r.setTask i t').Lent := by
    apply h.setTask task
    · intro d howned _
      rw [ht] at howned
      cases howned
    · intro d _ hd
      cases hd
  have hkeeps : ∀ j d, (r.setTask i t').owned? j = some d → d ∈ (r.pool.slot key).used →
      d ∈ (r.pool.slot key).used.filter (· != c) := by
    intro j d howned hd
    rw [owned?_setTask task, Function.update_apply] at howned
    refine List.mem_filter.mpr ⟨hd, bne_iff_ne.mpr ?_⟩
    rintro rfl
    by_cases hji : j = i
    · rw [if_pos hji, ht] at howned
      cases howned
    · rw [if_neg hji] at howned
      exact hji (hr.owner_eq howned (owned?_of_task task))
  rw [Pool.takeBack_eq]
  split_ifs
  · exact htask.setSlot key _ fun j d howned hd => .inl (hkeeps j d howned hd)
  · exact htask.setSlot key _ fun j d howned hd => .inl (hkeeps j d howned hd)

/-- What leaves its slot here is about to be closed. -/
theorem drain (h : r.Lent) {keys : List String}
    (task : r.tasks[i]? = some (.draining (key :: keys))) :
    ({ r with pool := (r.pool.drainSlot key).2 }.setTask i
      (.dropping (r.pool.drainSlot key).1 keys)).Lent := by
  have htask : (r.setTask i (.dropping (r.pool.drainSlot key).1 keys)).Lent := by
    apply h.setTask task
    · intro d howned _
      cases howned
    · intro d _ hd
      cases hd
  apply htask.setSlot key
  intro j d _ hd
  exact .inr ⟨i, _, by rw [tasks_setTask task, if_pos rfl], List.mem_append_right _ hd⟩

theorem effect (h : r.Lent) (hr : r.Exclusive) (he : r.Effect r') : r'.Lent := by
  cases he with
  | idle => exact h
  | hangUp d => exact h.closeConnection d
  | arrive key =>
    exact (h.setSlot key _ fun _ _ _ hc => .inl hc).addTask rfl
  | close => exact addTask (r := { r with pool := r.pool.markClosed }) h rfl
  | closeAgain => exact h.addTask rfl
  | pass task hp =>
    apply h.setTask task
    · intro c howned hbrought
      exact .inl ⟨hp.owned? c howned, hp.brought?_eq.symm.trans hbrought⟩
    · intro c _ hc
      rw [hp.drops_eq] at hc
      cases hc
  | @shut i d t t' task hs =>
    apply (h.closeConnection d).setTask task
    · intro c howned _
      exact .inl ⟨hs.owned? c howned, hs.brought?_eq_none howned⟩
    · intro c hopen hc
      apply hs.drops hc
      rintro rfl
      rw [isOpen_closeConnection_self] at hopen
      cases hopen
  | look task hg => exact h.look task hg
  | opens task => exact h.opens hr task
  | fill task => exact h.fill task
  | @release i key task =>
    have hslot := h.setSlot key (r.pool.slot key).release fun _ _ _ hc => .inl hc
    apply hslot.setTask task
    · intro c howned _
      cases howned
    · intro c _ hc
      cases hc
  | restore task =>
    apply h.restore hr task
    split_ifs
    · rfl
    · rfl
  | drain task => exact h.drain task

theorem run (h : r.Lent) (hr : r.Exclusive) (steps : List PoolStep) : (r.run steps).Lent :=
  hr.run_of_effect (fun hr h he => h.effect hr he) h steps

end Lent

/-! ## What the closing of a pool finds -/

/-- The pool is closed by this task alone, nobody is about to fill a place with the connection, and
every slot that knows it is yet to be emptied. -/
structure Sealed (r : PoolRun) (i c : Nat) : Prop where
  isClosed : r.pool.isClosed = true
  alone : ∀ {j : Nat} {t : PoolTask}, r.tasks[j]? = some t → t.IsClosing → j = i
  not_filling : ∀ {j : Nat} {key : String}, r.tasks[j]? ≠ some (.filling key c)
  awaited : ∀ {key : String}, c ∈ (r.pool.slot key).members →
    ∃ t : PoolTask, r.tasks[i]? = some t ∧ t.Awaits key

namespace Sealed

/-- Which connections are open plays no part. -/
theorem closeConnection (h : r.Sealed i c) (d : Nat) : (r.closeConnection d).Sealed i c := { h with }

theorem addTask (h : r.Sealed i c) (hclosing : ¬ t.IsClosing) (hfilling : ∀ key, t ≠ .filling key c) :
    (r.addTask t).Sealed i c where
  isClosed := h.isClosed
  alone {j u} hj hu := by
    rw [tasks_addTask] at hj
    split_ifs at hj
    · cases hj
      exact absurd hu hclosing
    · exact h.alone hj hu
  not_filling {j key} hj := by
    rw [tasks_addTask] at hj
    split_ifs at hj
    · exact hfilling key (Option.some.inj hj)
    · exact h.not_filling hj
  awaited hc := by
    obtain ⟨u, task, hu⟩ := h.awaited hc
    exact ⟨u, tasks_addTask_of_task task t, hu⟩

theorem setTask (h : r.Sealed i c) (task : r.tasks[j]? = some t) (t' : PoolTask)
    (hclosing : t'.IsClosing → t.IsClosing) (hfilling : ∀ key, t' ≠ .filling key c)
    (hawaits : ∀ key, c ∈ (r.pool.slot key).members → t.Awaits key → t'.Awaits key) :
    (r.setTask j t').Sealed i c where
  isClosed := h.isClosed
  alone {k u} hk hu := by
    rw [tasks_setTask task] at hk
    split_ifs at hk with hkj
    · cases hk
      rw [hkj]
      exact h.alone task (hclosing hu)
    · exact h.alone hk hu
  not_filling {k key} hk := by
    rw [tasks_setTask task] at hk
    split_ifs at hk
    · exact hfilling key (Option.some.inj hk)
    · exact h.not_filling hk
  awaited {key} hc := by
    obtain ⟨u, hi, hu⟩ := h.awaited hc
    by_cases hij : i = j
    · subst hij
      cases task.symm.trans hi
      exact ⟨t', by rw [tasks_setTask task, if_pos rfl], hawaits key hc hu⟩
    · exact ⟨u, by rw [tasks_setTask task, if_neg hij, hi], hu⟩

/-- Tasks that do not close the pool may do anything but prepare to fill a place. -/
theorem setOther (h : r.Sealed i c) (task : r.tasks[j]? = some t) (ht : ¬ t.IsClosing)
    (ht' : ¬ t'.IsClosing) (hfilling : ∀ key, t' ≠ .filling key c) :
    (r.setTask j t').Sealed i c :=
  h.setTask task t' (fun hclosing => absurd hclosing ht') hfilling
    fun _ _ hawaits => absurd hawaits.isClosing ht

theorem setSlot (h : r.Sealed i c) (key : String) (s : Slot)
    (hmembers : c ∈ s.members → c ∈ (r.pool.slot key).members) :
    { r with pool := r.pool.setSlot key s }.Sealed i c where
  isClosed := (Pool.isClosed_setSlot ..).trans h.isClosed
  alone := h.alone
  not_filling := h.not_filling
  awaited {key'} := Pool.forall_slot_setSlot (P := fun key s => c ∈ s.members →
    ∃ t, r.tasks[i]? = some t ∧ t.Awaits key) (fun hc => h.awaited (hmembers hc))
    (fun _ _ => h.awaited) key'

theorem awaits_of_passes (hp : t.Passes r.pool t') (hc : c ∈ (r.pool.slot key).members)
    (hkey : t.Awaits key) : t'.Awaits key := by
  cases hp with
  | lists => exact Pool.mem_keys hc
  | dropped => exact hkey
  | closed => cases hkey
  | _ => exact hkey.elim

/-- The slot that was emptied does not know the connection any more. -/
theorem drain (h : r.Sealed i c) {keys : List String} {dropped : List Nat}
    (task : r.tasks[j]? = some (.draining (key :: keys))) :
    ({ r with pool := (r.pool.drainSlot key).2 }.setTask j (.dropping dropped keys)).Sealed i c := by
  have hslot := h.setSlot key (r.pool.slot key).drain.2 fun hc => absurd hc List.not_mem_nil
  apply hslot.setTask task
  · exact fun _ => trivial
  · simp
  · intro key' hc hkey'
    rcases List.mem_cons.mp hkey' with rfl | hkey'
    · rw [Pool.slot_setSlot_self] at hc
      cases hc
    · exact hkey'

theorem effect (h : r.Sealed i c) (he : r.Effect r') : r'.Sealed i c := by
  cases he with
  | idle => exact h
  | hangUp d => exact h.closeConnection d
  | arrive key => exact (h.setSlot key _ id).addTask id (by simp)
  | close hopen => exact absurd (hopen.symm.trans h.isClosed) Bool.false_ne_true
  | closeAgain => exact h.addTask id (by simp)
  | pass task hp =>
    exact h.setTask task _ hp.isClosing (fun _ => hp.ne_filling h.isClosed)
      fun _ hc => awaits_of_passes hp hc
  | shut task hs =>
    exact (h.closeConnection _).setTask task _ hs.isClosing (fun _ => hs.ne_filling)
      fun _ _ => hs.awaits
  | @look j key hasLooked granted s task hg =>
    have hslot := h.setSlot key s fun hc => hg.members_subset hc
    apply hslot.setOther task id
    · cases granted <;> exact id
    · cases granted <;> simp [afterLook]
  | @opens j key task =>
    have hmade : { r with
        openConnections := r.made :: r.openConnections, made := r.made + 1 }.Sealed i c := { h with }
    exact hmade.setOther task id id (by simp)
  | @fill j d key task =>
    have hne : c ≠ d := by
      rintro rfl
      exact h.not_filling task
    have hslot := h.setSlot key ((r.pool.slot key).fill d) fun hc => by
      rw [Slot.members, Slot.fill, ← List.append_assoc] at hc
      rcases List.mem_append.mp hc with hc | hc
      · exact hc
      · exact absurd (List.mem_singleton.mp hc) hne
    exact hslot.setOther task id id (by simp)
  | @release j key task =>
    have hslot := h.setSlot key (r.pool.slot key).release id
    exact hslot.setOther task id id (by simp)
  | @restore j d key task =>
    have hclosed := h.isClosed
    have hslot := h.setSlot key
      { r.pool.slot key with used := (r.pool.slot key).used.filter (· != d) } fun hc => by
        rw [Slot.mem_members] at hc ⊢
        exact hc.imp_right List.mem_of_mem_filter
    rw [Pool.takeBack_eq, if_neg (by simp [hclosed])]
    exact hslot.setOther task id id (by simp)
  | drain task => exact h.drain task

theorem run (h : r.Sealed i c) (steps : List PoolStep) : (r.run steps).Sealed i c :=
  run_of_effect Sealed.effect h steps

end Sealed

/-- A slot knows the connection or a task holds it. -/
def Has (r : PoolRun) (c : Nat) : Prop :=
  (∃ key, c ∈ (r.pool.slot key).members) ∨ .holding c ∈ r.tasks

theorem Sealed.of_close (hr : r.Exclusive) (hopen : r.pool.isClosed = false)
    (hfilling : ∀ (j : Nat) (key : String), r.tasks[j]? ≠ some (.filling key c)) :
    (r.step .close).Sealed r.tasks.length c := by
  have hstep := step_close_of_open hopen
  have htasks : ∀ j, (r.step .close).tasks[j]? =
      if j = r.tasks.length then some .closing else r.tasks[j]? := by
    intro j
    rw [hstep]
    exact tasks_addTask { r with pool := r.pool.markClosed } .closing j
  refine ⟨by rw [hstep]; rfl, fun {j t} hj ht => ?_, fun {j key} hj => ?_, fun {key} _ => ?_⟩
  · rw [htasks] at hj
    by_cases hlast : j = r.tasks.length
    · exact hlast
    · -- nobody was closing a pool that was open
      rw [if_neg hlast] at hj
      have hclosed : r.pool.isClosed = true := by
        have hg := hr.grounded hj
        cases t with
        | closing | draining | dropping => exact hg trivial
        | _ => cases ht
      exact absurd (hopen.symm.trans hclosed) Bool.false_ne_true
  · rw [htasks] at hj
    by_cases hlast : j = r.tasks.length
    · rw [if_pos hlast] at hj
      cases hj
    · rw [if_neg hlast] at hj
      exact hfilling j key hj
  · exact ⟨.closing, by rw [htasks, if_pos rfl], trivial⟩

/-- Once the closing is over, no slot knows the connection, and whoever holds it finds it closed. -/
theorem Sealed.not_has (h : r.Sealed i c) (hlent : r.Lent)
    (hdone : r.tasks[i]? = some .finished) (hopen : r.isOpen c = true) : ¬ r.Has c := by
  have hunknown : ∀ key, c ∉ (r.pool.slot key).members := by
    intro key hc
    obtain ⟨t, task, ht⟩ := h.awaited hc
    cases hdone.symm.trans task
    exact ht
  rintro (⟨key, hc⟩ | hheld)
  · exact hunknown key hc
  · obtain ⟨j, task⟩ := List.mem_iff_getElem?.mp hheld
    rcases hlent j c hopen (owned?_of_task task) (brought?_of_task task) with
      ⟨key, hused⟩ | ⟨k, t, htask, hc⟩
    · exact hunknown key (Slot.mem_members.mpr (.inr hused))
    · -- only the task that closed the pool could drop it
      have hclosing := PoolTask.isClosing_of_mem_drops hc
      obtain rfl := h.alone htask hclosing
      cases hdone.symm.trans htask
      exact hclosing

theorem isOpen_of_lt_run (steps : List PoolStep) (hlt : c < r.made)
    (hopen : (r.run steps).isOpen c = true) : r.isOpen c = true := by
  induction steps generalizing r with
  | nil => exact hopen
  | cons s steps ih =>
    have heffect := r.effect_step s
    exact heffect.isOpen_of_lt hlt (ih (Nat.lt_of_lt_of_le hlt heffect.made_le) hopen)

theorem run_append (r : PoolRun) (steps later : List PoolStep) :
    r.run (steps ++ later) = (r.run steps).run later := List.foldl_append

/-- A task is about to fill a place with an open connection. -/
structure Filling (r : PoolRun) (j : Nat) (key : String) (c : Nat) : Prop where
  exclusive : r.Exclusive
  task : r.tasks[j]? = some (.filling key c)
  isOpen : r.isOpen c = true

namespace Filling

variable {keys : List String}

theorem unkept (h : r.Filling j key c) (key' : String) : c ∉ (r.pool.slot key').members :=
  h.exclusive.brought_unkept (brought?_of_task h.task) key'

theorem advance (h : r.Filling j key c) (hij : i ≠ j)
    (hopen : (r.step (.advance i)).isOpen c = true) : (r.step (.advance i)).Filling j key c where
  exclusive := h.exclusive.effect (r.effect_step _)
  task := tasks_step_of_ne (fun hi => hij (Option.some.inj hi)) h.task
  isOpen := hopen

theorem passed (h : r.Filling j key c) (hij : i ≠ j) (task : r.tasks[i]? = some t)
    (hstep : r.step (.advance i) = r.setTask i t') :
    (r.step (.advance i)).Filling j key c ∧ (r.step (.advance i)).tasks[i]? = some t' := by
  refine ⟨h.advance hij (by rw [hstep]; exact h.isOpen), ?_⟩
  rw [hstep, tasks_setTask task, if_pos rfl]

theorem dropped {cs : List Nat} (h : r.Filling j key c) (hij : i ≠ j) (hc : c ∉ cs)
    (task : r.tasks[i]? = some (.dropping cs keys)) :
    ∃ later, (r.run later).Filling j key c ∧ (r.run later).tasks[i]? = some (.draining keys) := by
  induction cs generalizing r with
  | nil =>
    have hstep : r.step (.advance i) = r.setTask i (.draining keys) :=
      step_advance_of_task task
    exact ⟨[.advance i], h.passed hij task hstep⟩
  | cons d cs ih =>
    rw [List.mem_cons, not_or] at hc
    have hstep : r.step (.advance i) = (r.closeConnection d).setTask i (.dropping cs keys) :=
      step_advance_of_task task
    have hopen : (r.step (.advance i)).isOpen c = true := by
      rw [hstep]
      exact isOpen_iff.mpr (List.mem_filter.mpr ⟨isOpen_iff.mp h.isOpen, bne_iff_ne.mpr hc.1⟩)
    have htask : (r.step (.advance i)).tasks[i]? = some (.dropping cs keys) := by
      rw [hstep, tasks_setTask (r := r.closeConnection d) task, if_pos rfl]
    obtain ⟨later, hdone⟩ := ih (h.advance hij hopen) hc.2 htask
    exact ⟨.advance i :: later, hdone⟩

theorem drained (h : r.Filling j key c) (hij : i ≠ j)
    (task : r.tasks[i]? = some (.draining keys)) :
    ∃ later, (r.run later).Filling j key c ∧ (r.run later).tasks[i]? = some .finished := by
  induction keys generalizing r with
  | nil =>
    have hstep : r.step (.advance i) = r.setTask i .finished :=
      step_advance_of_task task
    exact ⟨[.advance i], h.passed hij task hstep⟩
  | cons key' keys ih =>
    have hstep : r.step (.advance i) = { r with pool := (r.pool.drainSlot key').2 }.setTask i
        (.dropping (r.pool.drainSlot key').1 keys) :=
      step_advance_of_task task
    have hopen : (r.step (.advance i)).isOpen c = true := by
      rw [hstep]
      exact h.isOpen
    have htask : (r.step (.advance i)).tasks[i]? =
        some (.dropping (r.pool.drainSlot key').1 keys) := by
      rw [hstep, tasks_setTask (r := { r with pool := (r.pool.drainSlot key').2 }) task, if_pos rfl]
    obtain ⟨first, hfilling, hnext⟩ := (h.advance hij hopen).dropped hij (h.unkept key') htask
    obtain ⟨later, hdone⟩ := ih hfilling hnext
    rw [← run_append] at hdone
    exact ⟨.advance i :: (first ++ later), hdone⟩

/-- The closing of the pool can be over before the place is filled. -/
theorem closed (h : r.Filling j key c) (hij : i ≠ j) (task : r.tasks[i]? = some .closing) :
    ∃ later, (r.run later).Filling j key c ∧ (r.run later).tasks[i]? = some .finished := by
  have hstep : r.step (.advance i) = r.setTask i (.draining (r.pool.slots.map Prod.fst)) :=
    step_advance_of_task task
  obtain ⟨hfilling, htask⟩ := h.passed hij task hstep
  obtain ⟨later, hdone⟩ := hfilling.drained hij htask
  exact ⟨.advance i :: later, hdone⟩

theorem fill (h : r.Filling j key c) :
    (r.step (.advance j)).tasks[j]? = some (.holding c) ∧ (r.step (.advance j)).isOpen c = true := by
  have hstep : r.step (.advance j) =
      { r with pool := r.pool.fill key c }.setTask j (.holding c) :=
    step_advance_of_task h.task
  rw [hstep]
  refine ⟨?_, h.isOpen⟩
  rw [tasks_setTask (r := { r with pool := r.pool.fill key c }) h.task, if_pos rfl]

end Filling

/-- Of a pool that was open, what outlives its closing are exactly the connections that a task was
about to fill its place with when the pool was marked: if the slot is emptied first, the task
holds an open connection of a closed pool. -/
theorem outlives_close_iff (name : String) (settings : PoolSettings) (steps : List PoolStep)
    (c : Nat) :
    let r := (start (.new name settings)).run steps
    r.pool.isClosed = false →
    ((∃ later, let r' := (r.step .close).run later
        r'.tasks[r.tasks.length]? = some .finished ∧ r'.isOpen c = true ∧ r'.Has c) ↔
      ∃ (j : Nat) (key : String), r.tasks[j]? = some (.filling key c) ∧ r.isOpen c = true) := by
  intro r hopen
  have hr : r.Exclusive := (Exclusive.start name settings).run steps
  have hlent : r.Lent := (Lent.start _).run (.start name settings) steps
  have hclosing := hr.effect (r.effect_step .close)
  constructor
  · rintro ⟨later, hdone, hcopen, hhas⟩
    by_cases hfilling : ∃ (j : Nat) (key : String), r.tasks[j]? = some (.filling key c)
    · obtain ⟨j, key, task⟩ := hfilling
      have hlt : c < r.made := hr.owned_lt (owned?_of_task task)
      exact ⟨j, key, task, isOpen_of_lt_run (.close :: later) hlt hcopen⟩
    · have hsealed := (Sealed.of_close hr hopen fun j key task => hfilling ⟨j, key, task⟩).run later
      have hlent' := (hlent.effect hr (r.effect_step .close)).run hclosing later
      exact absurd hhas (hsealed.not_has hlent' hdone hcopen)
  · rintro ⟨j, key, task, hcopen⟩
    have hlt : j < r.tasks.length := (List.getElem?_eq_some_iff.mp task).1
    have hstep := step_close_of_open hopen
    have hfilling : (r.step .close).Filling j key c :=
      ⟨hclosing, tasks_step_of_ne (by simp [PoolStep.task?]) task, by rw [hstep]; exact hcopen⟩
    have hcloser : (r.step .close).tasks[r.tasks.length]? = some .closing := by
      rw [hstep]
      exact List.getElem?_concat_length
    obtain ⟨later, hfilling, hdone⟩ := hfilling.closed (Nat.ne_of_gt hlt) hcloser
    obtain ⟨hheld, hopen'⟩ := hfilling.fill
    refine ⟨later ++ [.advance j], ?_⟩
    rw [run_append]
    refine ⟨?_, hopen', .inr (List.mem_of_getElem? hheld)⟩
    have hother : (PoolStep.advance j).task? ≠ some r.tasks.length :=
      fun hi => Nat.ne_of_lt hlt (Option.some.inj hi)
    exact tasks_step_of_ne hother hdone

/-- A task that has just looked at the mark, before the pool is closed. -/
theorem outlives_close_filling :
    let r := (start (.new "pool" ⟨1, 30000⟩)).run
      [.acquire "key", .advance 0, .advance 0, .opens 0, .advance 0]
    r.pool.isClosed = false ∧ r.tasks = [.filling "key" 0] ∧
      ∃ later, let r' := (r.step .close).run later
        r'.tasks[1]? = some .finished ∧ r'.isOpen 0 = true ∧ r'.Has 0 := by
  refine ⟨by decide, by decide, ?_⟩
  exact (outlives_close_iff "pool" ⟨1, 30000⟩
    [.acquire "key", .advance 0, .advance 0, .opens 0, .advance 0] 0 (by decide)).mpr
    ⟨0, "key", by decide, by decide⟩

/-- The task fills its place after the pool was closed, and holds a connection that is open and in
use there. -/
theorem closed_pool_yields_open_connection :
    let r := (start (.new "pool" ⟨1, 30000⟩)).run
      [.acquire "key", .advance 0, .advance 0, .opens 0, .advance 0, .close, .advance 1, .advance 1,
        .advance 1, .advance 1, .advance 0]
    r.tasks = [.holding 0, .finished] ∧ r.pool.isClosed = true ∧
      (r.pool.slot "key").used = [0] ∧ r.isOpen 0 = true := by
  decide

end PoolRun

end RemoteCall
