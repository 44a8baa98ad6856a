import RemoteCall.Proofs.Pool.Turn

/-!
# Connections in one place

Every connection of a run is in one place: new with the task that opened it, or in one slot, where
it is free or in use, and one that is in use belongs to at most one task. So two tasks never have
the same connection to themselves.
-/

namespace RemoteCall

namespace PoolRun

variable {r r' : PoolRun} {i : Nat} {t t' : PoolTask} {c : Nat} {key : String} {s : Slot}

/-- A task returns a connection to the slot in which it is in use, and closes a pool that is marked
as closed. Only the closing of the pool takes a connection in use out of its slot. -/
def Grounded (r : PoolRun) : PoolTask → Prop
  | .restoring key c => c ∈ (r.pool.slot key).used ∨ r.pool.isClosed = true
  | t => t.IsClosing → r.pool.isClosed = true

/-- No connection is in two places, and none of them is yet to be made. -/
structure Exclusive (r : PoolRun) : Prop where
  distinctKeys : r.pool.HasDistinctKeys
  nodup : ∀ key, (r.pool.slot key).members.Nodup
  key_eq : ∀ {key key' : String} {c : Nat}, c ∈ (r.pool.slot key).members →
    c ∈ (r.pool.slot key').members → key = key'
  owner_eq : ∀ {i j c : Nat}, r.owned? i = some c → r.owned? j = some c → i = j
  free_unowned : ∀ {key : String} {c : Nat}, c ∈ (r.pool.slot key).free → ∀ i, r.owned? i ≠ some c
  brought_unkept : ∀ {i c : Nat}, r.brought? i = some c → ∀ key, c ∉ (r.pool.slot key).members
  grounded : ∀ {i : Nat} {t : PoolTask}, r.tasks[i]? = some t → r.Grounded t
  member_lt : ∀ {key : String} {c : Nat}, c ∈ (r.pool.slot key).members → c < r.made
  owned_lt : ∀ {i c : Nat}, r.owned? i = some c → c < r.made

namespace Exclusive

theorem start (name : String) (settings : PoolSettings) :
    (PoolRun.start (.new name settings)).Exclusive where
  distinctKeys := List.nodup_nil
  nodup _ := List.nodup_nil
  key_eq h := nomatch h
  owner_eq h := nomatch h
  free_unowned h := nomatch h
  brought_unkept h := nomatch h
  grounded h := nomatch h
  member_lt h := nomatch h
  owned_lt h := nomatch h

theorem closeConnection (h : r.Exclusive) (c : Nat) : (r.closeConnection c).Exclusive := { h with }

theorem markClosed (h : r.Exclusive) : { r with pool := r.pool.markClosed }.Exclusive :=
  { h with
    grounded := fun {i t} task => by
      cases t with
      | restoring key c => exact .inr rfl
      | _ => exact fun _ => rfl }

theorem addTask (h : r.Exclusive) (howned : t.owned? = none) (hg : r.Grounded t) :
    (r.addTask t).Exclusive where
  distinctKeys := h.distinctKeys
  nodup := h.nodup
  key_eq := h.key_eq
  owner_eq hi hj := by
    rw [owned?_addTask howned] at hi hj
    exact h.owner_eq hi hj
  free_unowned hc i := by
    rw [owned?_addTask howned]
    exact h.free_unowned hc i
  brought_unkept hi := by
    rw [brought?_addTask (PoolTask.brought?_eq_none howned)] at hi
    exact h.brought_unkept hi
  grounded {j u} hj := by
    rw [tasks_addTask] at hj
    split_ifs at hj
    · cases hj
      exact hg
    · exact h.grounded hj
  member_lt := h.member_lt
  owned_lt hi := by
    rw [owned?_addTask howned] at hi
    exact h.owned_lt hi

/-- A task goes on with what it had, or with a connection that nobody else has. -/
theorem setTask (h : r.Exclusive) (task : r.tasks[i]? = some t) (t' : PoolTask)
    (howned : ∀ c, t'.owned? = some c → t.owned? = some c ∨
      (∀ j, r.owned? j ≠ some c) ∧ (∀ key, c ∉ (r.pool.slot key).free) ∧ c < r.made)
    (hbrought : ∀ c, t'.brought? = some c → t.brought? = some c ∨
      ∀ key, c ∉ (r.pool.slot key).members)
    (hg : r.Grounded t') : (r.setTask i t').Exclusive where
  distinctKeys := h.distinctKeys
  nodup := h.nodup
  key_eq := h.key_eq
  owner_eq {j k c} hj hk := by
    rw [owned?_setTask task, Function.update_apply] at hj hk
    split_ifs at hj hk with hji hki hki
    · rw [hji, hki]
    · rcases howned c hj with hold | ⟨hnew, -⟩
      · exact hji.trans (h.owner_eq (owned?_of_task task ▸ hold) hk)
      · exact absurd hk (hnew k)
    · rcases howned c hk with hold | ⟨hnew, -⟩
      · exact (h.owner_eq hj (owned?_of_task task ▸ hold)).trans hki.symm
      · exact absurd hj (hnew j)
    · exact h.owner_eq hj hk
  free_unowned {key c} hc j hj := by
    rw [owned?_setTask task, Function.update_apply] at hj
    split_ifs at hj
    · rcases howned c hj with hold | ⟨-, hnew, -⟩
      · exact h.free_unowned hc i (owned?_of_task task ▸ hold)
      · exact hnew key hc
    · exact h.free_unowned hc j hj
  brought_unkept {j c} hj key := by
    rw [brought?_setTask task, Function.update_apply] at hj
    split_ifs at hj
    · rcases hbrought c hj with hold | hnew
      · exact h.brought_unkept (brought?_of_task task ▸ hold) key
      · exact hnew key
    · exact h.brought_unkept hj key
  grounded {j u} hj := by
    rw [tasks_setTask task] at hj
    split_ifs at hj
    · cases hj
      exact hg
    · exact h.grounded hj
  member_lt := h.member_lt
  owned_lt {j c} hj := by
    rw [owned?_setTask task, Function.update_apply] at hj
    split_ifs at hj
    · rcases howned c hj with hold | ⟨-, -, hlt⟩
      · exact h.owned_lt (owned?_of_task task ▸ hold)
      · exact hlt
    · exact h.owned_lt hj

/-- A slot keeps members or gets one that was in no slot; what becomes free belongs to nobody; and
what a task returns to the slot stays in use. -/
theorem setSlot (h : r.Exclusive) (key : String) (s : Slot) (hnodup : s.members.Nodup)
    (hmembers : ∀ c ∈ s.members, c ∈ (r.pool.slot key).members ∨
      (∀ key, c ∉ (r.pool.slot key).members) ∧ (∀ i, r.brought? i ≠ some c) ∧ c < r.made)
    (hfree : ∀ c ∈ s.free, c ∈ (r.pool.slot key).free ∨ ∀ i, r.owned? i ≠ some c)
    (hused : ∀ (i c : Nat), r.tasks[i]? = some (.restoring key c) → c ∈ (r.pool.slot key).used →
      c ∈ s.used ∨ r.pool.isClosed = true) :
    { r with pool := r.pool.setSlot key s }.Exclusive where
  distinctKeys := h.distinctKeys.setSlot key s
  nodup := Pool.forall_slot_setSlot (P := fun _ s => s.members.Nodup) hnodup fun key' _ =>
    h.nodup key'
  key_eq hk hk' := by
    rcases Pool.mem_slot_of_setSlot hmembers hk with hold | ⟨hkey, hnew, -⟩ <;>
      rcases Pool.mem_slot_of_setSlot hmembers hk' with hold' | ⟨hkey', hnew', -⟩
    · exact h.key_eq hold hold'
    · exact absurd hold (hnew' _)
    · exact absurd hold' (hnew _)
    · rw [hkey, hkey']
  owner_eq := h.owner_eq
  free_unowned hc i := by
    rcases Pool.mem_slot_of_setSlot hfree hc with hold | ⟨-, hnew⟩
    · exact h.free_unowned hold i
    · exact hnew i
  brought_unkept {i _} hi key' hc := by
    rcases Pool.mem_slot_of_setSlot hmembers hc with hold | ⟨-, -, hnew, -⟩
    · exact h.brought_unkept hi key' hold
    · exact hnew i hi
  grounded {i t} hi := by
    have hold := h.grounded hi
    cases t with
    | restoring key' c =>
      simp only [Grounded, Pool.isClosed_setSlot] at hold ⊢
      by_cases hkey : key' = key
      · subst hkey
        rw [Pool.slot_setSlot_self]
        exact hold.elim (hused i c hi) .inr
      · rwa [Pool.slot_setSlot_of_ne hkey]
    | _ => simpa only [Grounded, Pool.isClosed_setSlot] using hold
  member_lt hc := by
    rcases Pool.mem_slot_of_setSlot hmembers hc with hold | ⟨-, -, -, hlt⟩
    · exact h.member_lt hold
    · exact hlt
  owned_lt := h.owned_lt

theorem withSlot (h : r.Exclusive) (key : String) :
    { r with pool := r.pool.withSlot key }.Exclusive :=
  h.setSlot key _ (h.nodup key) (fun _ hc => .inl hc) (fun _ hc => .inl hc) (fun _ _ _ hc => .inl hc)

theorem grounded_passes (h : r.Exclusive) (task : r.tasks[i]? = some t)
    (hp : t.Passes r.pool t') : r.Grounded t' := by
  cases hp with
  | finds howner => exact .inl (Pool.mem_used_of_owner? h.distinctKeys howner)
  | lists | dropped => exact fun _ => h.grounded task trivial
  | _ => exact False.elim

theorem grounded_shuts (h : r.Exclusive) (task : r.tasks[i]? = some t) (hs : t.Shuts c t') :
    r.Grounded t' := by
  cases hs with
  | dropped => exact fun _ => h.grounded task trivial
  | _ => exact False.elim

/-- A connection that is handed out goes over from the free ones to those in use. -/
theorem handOut (h : r.Exclusive) {hasLooked : Bool} {rest shut : List Nat}
    (task : r.tasks[i]? = some (.looking key hasLooked))
    (free_eq : (r.pool.slot key).free = rest ++ c :: shut) :
    ({ r with pool := r.pool.setSlot key { r.pool.slot key with
        free := rest, used := (r.pool.slot key).used ++ [c] } }.setTask i (.holding c)).Exclusive := by
  have hnodup := Slot.nodup_handOut (h.nodup key) free_eq
  have hc : c ∈ (r.pool.slot key).free := by simp [free_eq]
  have hslot := h.setSlot key
    { r.pool.slot key with free := rest, used := (r.pool.slot key).used ++ [c] } hnodup
    (fun d hd => .inl (by
      simp only [Slot.members, free_eq, List.mem_append, List.mem_cons, List.not_mem_nil,
        or_false] at hd ⊢
      rcases hd with hrest | hused | hc'
      · exact .inl (.inl hrest)
      · exact .inr hused
      · exact .inl (.inr (.inl hc'))))
    (fun d hd => .inl (by simp [free_eq, show d ∈ rest from hd]))
    (fun _ d _ hd => .inl (List.mem_append_left _ hd))
  refine hslot.setTask task _ (fun d hd => .inr ?_) (by rintro _ ⟨⟩) False.elim
  cases hd
  refine ⟨h.free_unowned hc, fun key' hmem => ?_, h.member_lt (Slot.mem_members.mpr (.inl hc))⟩
  by_cases hkey : key' = key
  · rw [hkey, Pool.slot_setSlot_self] at hmem
    exact (List.nodup_append.mp hnodup).2.2 c hmem c (by simp) rfl
  · rw [Pool.slot_setSlot_of_ne hkey] at hmem
    exact hkey (h.key_eq (Slot.mem_members.mpr (.inl hmem)) (Slot.mem_members.mpr (.inl hc)))

theorem look (h : r.Exclusive) {hasLooked : Bool} {isOpen : Nat → Bool} {max : Nat}
    {granted : SlotGrant} (task : r.tasks[i]? = some (.looking key hasLooked))
    (hg : (r.pool.slot key).Grants isOpen max (granted, s)) :
    ({ r with pool := r.pool.setSlot key s }.setTask i
      (afterLook key hasLooked granted)).Exclusive := by
  have hempty (n : Nat) := h.setSlot key
    { r.pool.slot key with free := [], connecting := n }
    (List.nodup_append.mp (h.nodup key)).2.1
    (fun c hc => .inl (List.mem_append_right _ hc)) (fun c hc => nomatch hc)
    (fun _ c _ hc => .inl hc)
  cases hg with
  | connection free_eq _ => exact h.handOut task free_eq
  | lookAgain | full =>
    exact (hempty _).setTask task _ (fun c hc => nomatch hc) (fun c hc => nomatch hc) False.elim
  | reservation =>
    exact (hempty _).setTask task _ (fun c hc => nomatch hc) (fun c hc => nomatch hc) False.elim

theorem opens (h : r.Exclusive) (task : r.tasks[i]? = some (.opening key)) :
    (r.openConnection i key).Exclusive := by
  have hmade : { r with
      openConnections := r.made :: r.openConnections, made := r.made + 1 }.Exclusive :=
    { h with
      member_lt := fun hc => Nat.lt_succ_of_lt (h.member_lt hc)
      owned_lt := fun hi => Nat.lt_succ_of_lt (h.owned_lt hi) }
  have hnew : ∀ key, r.made ∉ (r.pool.slot key).members := fun key hc =>
    Nat.lt_irrefl _ (h.member_lt hc)
  refine hmade.setTask task _ (fun c hc => .inr ?_) (fun c hc => .inr ?_) False.elim
  · cases hc
    exact ⟨fun j hj => Nat.lt_irrefl _ (h.owned_lt hj),
      fun key hc => hnew key (Slot.mem_members.mpr (.inl hc)), Nat.lt_succ_self _⟩
  · cases hc
    exact hnew

theorem fill (h : r.Exclusive) (task : r.tasks[i]? = some (.filling key c)) :
    ({ r with pool := r.pool.fill key c }.setTask i (.holding c)).Exclusive := by
  have howned : r.owned? i = some c := owned?_of_task task
  have hnew := h.brought_unkept (show r.brought? i = some c from brought?_of_task task)
  have htask := h.setTask task (.holding c) (fun d hd => .inl hd) (fun d hd => nomatch hd)
    False.elim
  refine htask.setSlot key _ ?_ (fun d hd => ?_) (fun d hd => .inl hd)
    (fun _ d _ hd => .inl (List.mem_append_left _ hd))
  · rw [Slot.members, Slot.fill, ← List.append_assoc]
    exact List.nodup_append.mpr ⟨h.nodup key, List.nodup_singleton c, fun a ha b hb => by
      rw [List.mem_singleton.mp hb]
      rintro rfl
      exact hnew key ha⟩
  · rw [Slot.members, Slot.fill, ← List.append_assoc] at hd
    rcases List.mem_append.mp hd with hd | hd
    · exact .inl hd
    · rw [List.mem_singleton.mp hd]
      refine .inr ⟨hnew, fun j hj => ?_, h.owned_lt howned⟩
      rw [brought?_setTask task, Function.update_apply] at hj
      split_ifs at hj with hji
      · cases hj
      · exact hji (h.owner_eq (owned?_of_brought? hj) howned)

theorem release (h : r.Exclusive) (task : r.tasks[i]? = some (.releasing key)) :
    ({ r with pool := r.pool.release key }.setTask i .finished).Exclusive := by
  have hslot : { r with pool := r.pool.release key }.Exclusive :=
    h.setSlot key _ (h.nodup key) (fun c hc => .inl hc) (fun c hc => .inl hc) (fun _ c _ hc => .inl hc)
  exact hslot.setTask task _ (fun c hc => nomatch hc) (fun c hc => nomatch hc) False.elim

/-- A connection that is taken back belongs to nobody, whether the pool keeps it or not. -/
theorem restore (h : r.Exclusive) {isOpen : Nat → Bool}
    (task : r.tasks[i]? = some (.restoring key c)) (ht : t'.owned? = none) (hg : r.Grounded t') :
    ({ r with pool := (r.pool.takeBack isOpen key c).2 }.setTask i t').Exclusive := by
  have htask := h.setTask task t' (fun d hd => by rw [ht] at hd; cases hd)
    (fun d hd => by rw [PoolTask.brought?_eq_none ht] at hd; cases hd) hg
  have hunowned : ∀ j, (r.setTask i t').owned? j ≠ some c := by
    intro j hj
    rw [owned?_setTask task, Function.update_apply] at hj
    split_ifs at hj with hji
    · rw [ht] at hj
      cases hj
    · exact hji (h.owner_eq hj (owned?_of_task task))
  have hused : ∀ (j d : Nat), (r.setTask i t').tasks[j]? = some (.restoring key d) →
      d ∈ (r.pool.slot key).used → d ∈ (r.pool.slot key).used.filter (· != c) := by
    intro j d hj hd
    refine List.mem_filter.mpr ⟨hd, bne_iff_ne.mpr ?_⟩
    rintro rfl
    exact hunowned j (owned?_of_task hj)
  have hold : ∀ d ∈ (r.pool.slot key).used.filter (· != c), d ∈ (r.pool.slot key).members :=
    fun d hd => Slot.mem_members.mpr (.inr (List.mem_of_mem_filter hd))
  rw [Pool.takeBack_eq]
  split_ifs with hkept
  · -- The pool is not closed, so that the connection is still among those in use.
    have hc : c ∈ (r.pool.slot key).used := (h.grounded task).resolve_right (by simp [hkept.1])
    refine htask.setSlot key _ (Slot.nodup_takeBack (h.nodup key) hc) (fun d hd => .inl ?_)
      (fun d hd => ?_) (fun j d hj hd => .inl (hused j d hj hd))
    · rcases Slot.mem_members.mp hd with hd | hd
      · rcases List.mem_append.mp hd with hd | hd
        · exact Slot.mem_members.mpr (.inl hd)
        · rw [List.mem_singleton.mp hd]
          exact Slot.mem_members.mpr (.inr hc)
      · exact hold d hd
    · rcases List.mem_append.mp hd with hd | hd
      · exact .inl hd
      · rw [List.mem_singleton.mp hd]
        exact .inr hunowned
  · refine htask.setSlot key _ ((h.nodup key).sublist (List.filter_sublist.append_left _))
      (fun d hd => .inl ?_) (fun d hd => .inl hd) (fun j d hj hd => .inl (hused j d hj hd))
    rcases Slot.mem_members.mp hd with hd | hd
    · exact Slot.mem_members.mpr (.inl hd)
    · exact hold d hd

/-- A closed pool gives up a slot while connections of it may be in use. -/
theorem drain (h : r.Exclusive) {keys cs : List String} {dropped : List Nat}
    (task : r.tasks[i]? = some (.draining (key :: keys))) :
    ({ r with pool := (r.pool.drainSlot key).2 }.setTask i (.dropping dropped cs)).Exclusive := by
  have hclosed : r.pool.isClosed = true := h.grounded task trivial
  have hslot := h.setSlot key (r.pool.slot key).drain.2 List.nodup_nil
    (fun c hc => nomatch hc) (fun c hc => nomatch hc) (fun _ _ _ _ => .inr hclosed)
  exact hslot.setTask task _ (fun c hc => nomatch hc) (fun c hc => nomatch hc)
    (fun _ => (Pool.isClosed_setSlot ..).trans hclosed)

/-- What one step does keeps every connection in one place. -/
theorem effect (h : r.Exclusive) (he : r.Effect r') : r'.Exclusive := by
  cases he with
  | idle => exact h
  | hangUp c => exact h.closeConnection c
  | arrive key => exact (h.withSlot key).addTask rfl False.elim
  | close => exact h.markClosed.addTask rfl fun _ => rfl
  | closeAgain => exact h.addTask rfl False.elim
  | pass task hp =>
    exact h.setTask task _ (fun c hc => .inl (hp.owned? c hc)) (fun c hc => .inl (hp.brought? c hc))
      (h.grounded_passes task hp)
  | shut task hs =>
    exact (h.closeConnection _).setTask task _ (fun c hc => .inl (hs.owned? c hc))
      (fun c hc => .inl (hs.brought? c hc)) (h.grounded_shuts task hs)
  | look task hg => exact h.look task hg
  | opens task => exact h.opens task
  | fill task => exact h.fill task
  | release task => exact h.release task
  | restore task =>
    split_ifs
    · exact h.restore task rfl False.elim
    · exact h.restore task rfl False.elim
  | drain task => exact h.drain task

theorem run (h : r.Exclusive) (steps : List PoolStep) : (r.run steps).Exclusive :=
  run_of_effect Exclusive.effect h steps

/-- What every effect keeps while connections are exclusive, every run keeps. -/
theorem run_of_effect {P : PoolRun → Prop} (hr : r.Exclusive)
    (heffect : ∀ {r r' : PoolRun}, r.Exclusive → P r → r.Effect r' → P r') (h : P r)
    (steps : List PoolStep) : P (r.run steps) := by
  have hboth : (r.run steps).Exclusive ∧ P (r.run steps) :=
    PoolRun.run_of_effect (P := fun r => r.Exclusive ∧ P r)
      (fun h he => ⟨h.1.effect he, heffect h.1 h.2 he⟩) ⟨hr, h⟩ steps
  exact hboth.2

end Exclusive

end PoolRun

end RemoteCall
