import Mathlib.Data.List.Count
import RemoteCall.Proofs.Pool.Exclusive

/-!
# Reserved places

A slot counts as many connections being opened as there are tasks with a place reserved in it. A
place is reserved only while the limit is not reached, and whatever else a slot gets takes the place
of something it had.
-/

namespace RemoteCall

def PoolTask.places (t : PoolTask) (key : String) : Nat := if t.reserved? = some key then 1 else 0

namespace PoolTask

variable {p : Pool} {t t' : PoolTask} {key key' : String} {c : Nat}

theorem places_eq_zero (h : t.reserved? = none) (key : String) : t.places key = 0 := by
  simp [places, h]

theorem places_self (h : t.reserved? = some key) : t.places key = 1 := if_pos h

theorem places_of_ne (h : t.reserved? = some key) (hkey : key' ≠ key) : t.places key' = 0 := by
  rw [places, h, if_neg]
  exact fun he => hkey (Option.some.inj he).symm

theorem Passes.reserved? (h : t.Passes p t') : t'.reserved? = t.reserved? := by cases h <;> rfl

theorem Shuts.reserved? (h : t.Shuts c t') : t'.reserved? = t.reserved? := by cases h <;> rfl

end PoolTask

namespace PoolRun

variable {r r' : PoolRun} {i : Nat} {t t' : PoolTask} {c : Nat} {key : String} {s : Slot}

def places (r : PoolRun) (key : String) : Nat := r.tasks.countP (·.reserved? = some key)

theorem places_pos (task : r.tasks[i]? = some t) (h : t.reserved? = some key) :
    0 < r.places key :=
  List.countP_pos_iff.mpr ⟨t, List.mem_of_getElem? task, by simpa using h⟩

theorem places_addTask (h : t.reserved? = none) (r : PoolRun) : (r.addTask t).places = r.places := by
  funext key
  simp [places, addTask, h]

theorem places_setTask (task : r.tasks[i]? = some t) (t' : PoolTask) (key : String) :
    (r.setTask i t').places key + t.places key = r.places key + t'.places key := by
  obtain ⟨hlt, rfl⟩ := List.getElem?_eq_some_iff.mp task
  have hle : r.tasks[i].places key ≤ r.places key := by
    unfold PoolTask.places
    split_ifs with hkey
    · exact places_pos task hkey
    · exact Nat.zero_le _
  have hset : (r.setTask i t').places key =
      r.places key - r.tasks[i].places key + t'.places key := by
    simp [places, setTask, List.countP_set hlt, PoolTask.places]
  omega

/-- Every slot is within the limit and counts the places that tasks have reserved in it. -/
structure Accounted (r : PoolRun) : Prop where
  connecting_eq : ∀ key, (r.pool.slot key).connecting = r.places key
  live_le : ∀ key, (r.pool.slot key).live ≤ r.pool.settings.maxConnections

namespace Accounted

theorem start (name : String) (settings : PoolSettings) :
    (PoolRun.start (.new name settings)).Accounted where
  connecting_eq _ := rfl
  live_le _ := Nat.zero_le _

theorem addTask (h : r.Accounted) (ht : t.reserved? = none) : (r.addTask t).Accounted where
  connecting_eq key := (h.connecting_eq key).trans (congrFun (places_addTask ht r) key).symm
  live_le := h.live_le

theorem closeConnection (h : r.Accounted) (c : Nat) : (r.closeConnection c).Accounted := { h with }

theorem withSlot (h : r.Accounted) (key : String) :
    { r with pool := r.pool.withSlot key }.Accounted where
  connecting_eq key' := by
    rw [Pool.slot_withSlot]
    exact h.connecting_eq key'
  live_le key' := by
    rw [Pool.slot_withSlot, Pool.withSlot, Pool.settings_setSlot]
    exact h.live_le key'

/-- A task and a slot change together: what the slot counts more or less, the task has more or less. -/
theorem setSlot (h : r.Accounted) (task : r.tasks[i]? = some t)
    (hconnecting : s.connecting + t.places key = (r.pool.slot key).connecting + t'.places key)
    (hlive : s.live ≤ r.pool.settings.maxConnections)
    (hothers : ∀ key' ≠ key, t'.places key' = t.places key') :
    ({ r with pool := r.pool.setSlot key s }.setTask i t').Accounted where
  connecting_eq key' := by
    have hplaces := places_setTask (r := { r with pool := r.pool.setSlot key s }) task t' key'
    have hold : { r with pool := r.pool.setSlot key s }.places key' = r.places key' := rfl
    have hcount := h.connecting_eq key'
    change ((r.pool.setSlot key s).slot key').connecting = _
    by_cases hkey : key' = key
    · subst hkey
      rw [Pool.slot_setSlot_self]
      omega
    · rw [Pool.slot_setSlot_of_ne hkey]
      have hothers := hothers key' hkey
      omega
  live_le key' := by
    change ((r.pool.setSlot key s).slot key').live ≤ (r.pool.setSlot key s).settings.maxConnections
    rw [Pool.settings_setSlot]
    exact Pool.forall_slot_setSlot (P := fun _ s => s.live ≤ _) hlive (fun key' _ => h.live_le key')
      key'

theorem setTask (h : r.Accounted) (task : r.tasks[i]? = some t)
    (ht : t'.reserved? = t.reserved?) : (r.setTask i t').Accounted where
  connecting_eq key := by
    have hplaces := places_setTask task t' key
    have htask : t'.places key = t.places key := by rw [PoolTask.places, ht, PoolTask.places]
    have hcount := h.connecting_eq key
    change (r.pool.slot key).connecting = _
    omega
  live_le := h.live_le

theorem connecting_pos (h : r.Accounted) (task : r.tasks[i]? = some t)
    (ht : t.reserved? = some key) : 0 < (r.pool.slot key).connecting := by
  rw [h.connecting_eq key]
  exact places_pos task ht

theorem look (h : r.Accounted) {hasLooked : Bool} {isOpen : Nat → Bool} {granted : SlotGrant}
    (task : r.tasks[i]? = some (.looking key hasLooked))
    (hg : (r.pool.slot key).Grants isOpen r.pool.settings.maxConnections (granted, s)) :
    ({ r with pool := r.pool.setSlot key s }.setTask i
      (afterLook key hasLooked granted)).Accounted := by
  have hlive := h.live_le key
  rw [Slot.live] at hlive
  cases hg with
  | connection free_eq _ =>
    refine h.setSlot task rfl ?_ (fun _ _ => rfl)
    simp only [free_eq, Slot.live, List.length_append, List.length_cons, List.length_nil] at hlive ⊢
    omega
  | lookAgain | full =>
    refine h.setSlot task rfl ?_ (fun _ _ => rfl)
    simp only [Slot.live, List.length_nil]
    omega
  | reservation hlt =>
    have hopening : (PoolTask.opening key).places key = 1 := PoolTask.places_self rfl
    refine h.setSlot task (by rw [afterLook, hopening]; rfl) ?_ (fun key' hkey => ?_)
    · simp only [Slot.live, List.length_nil]
      omega
    · exact PoolTask.places_of_ne rfl hkey

theorem giveUp (h : r.Accounted) (task : r.tasks[i]? = some t) (ht : t.reserved? = some key)
    (ht' : t'.reserved? = none) (hs : s.connecting = (r.pool.slot key).connecting - 1)
    (hlive : s.live ≤ (r.pool.slot key).live) :
    ({ r with pool := r.pool.setSlot key s }.setTask i t').Accounted := by
  have hpos := h.connecting_pos task ht
  refine h.setSlot task ?_ (Nat.le_trans hlive (h.live_le key)) (fun key' hkey => ?_)
  · rw [PoolTask.places_self ht, PoolTask.places_eq_zero ht']
    omega
  · rw [PoolTask.places_of_ne ht hkey, PoolTask.places_eq_zero ht']

theorem fill (h : r.Accounted) (task : r.tasks[i]? = some (.filling key c)) :
    ({ r with pool := r.pool.fill key c }.setTask i (.holding c)).Accounted := by
  have hpos := h.connecting_pos task rfl
  refine h.giveUp task rfl rfl rfl ?_
  simp only [Slot.live, Slot.fill, List.length_append, List.length_singleton]
  omega

theorem release (h : r.Accounted) (task : r.tasks[i]? = some (.releasing key)) :
    ({ r with pool := r.pool.release key }.setTask i .finished).Accounted :=
  h.giveUp task rfl rfl rfl (Nat.add_le_add_left (Nat.sub_le ..) _)

theorem restore (h : r.Accounted) (hr : r.Exclusive) {isOpen : Nat → Bool}
    (task : r.tasks[i]? = some (.restoring key c)) (ht : t'.reserved? = none) :
    ({ r with pool := (r.pool.takeBack isOpen key c).2 }.setTask i t').Accounted := by
  have hlive := h.live_le key
  rw [Slot.live] at hlive
  have hothers : ∀ key', t'.places key' = (PoolTask.restoring key c).places key' := fun key' =>
    (PoolTask.places_eq_zero ht key').trans (PoolTask.places_eq_zero rfl key').symm
  have hconnecting := congrArg ((r.pool.slot key).connecting + ·) (hothers key).symm
  rw [Pool.takeBack_eq]
  split_ifs with hkept
  · -- The pool is not closed, so that the connection gives a place among those in use.
    have hc : c ∈ (r.pool.slot key).used := (hr.grounded task).resolve_right (by simp [hkept.1])
    have hlt : ((r.pool.slot key).used.filter (· != c)).length < (r.pool.slot key).used.length :=
      List.length_filter_lt_length_iff_exists.mpr ⟨c, hc, by simp⟩
    refine h.setSlot task hconnecting ?_ (fun key' _ => hothers key')
    simp only [Slot.live, List.length_append, List.length_singleton]
    omega
  · refine h.setSlot task hconnecting ?_ (fun key' _ => hothers key')
    have hle : ((r.pool.slot key).used.filter (· != c)).length ≤ (r.pool.slot key).used.length :=
      List.length_filter_le ..
    simp only [Slot.live]
    omega

theorem drain (h : r.Accounted) {keys cs : List String} {dropped : List Nat}
    (task : r.tasks[i]? = some (.draining (key :: keys))) :
    ({ r with pool := (r.pool.drainSlot key).2 }.setTask i (.dropping dropped cs)).Accounted := by
  have hlive := h.live_le key
  rw [Slot.live] at hlive
  refine h.setSlot task rfl ?_ (fun _ _ => rfl)
  change 0 + 0 + (r.pool.slot key).connecting ≤ _
  omega

theorem effect (h : r.Accounted) (hr : r.Exclusive) (he : r.Effect r') : r'.Accounted := by
  cases he with
  | idle => exact h
  | hangUp c => exact h.closeConnection c
  | arrive key => exact (h.withSlot key).addTask rfl
  | close =>
    have hclosed : { r with pool := r.pool.markClosed }.Accounted := { h with }
    exact hclosed.addTask rfl
  | closeAgain => exact h.addTask rfl
  | pass task hp => exact h.setTask task hp.reserved?
  | shut task hs =>
    exact (h.closeConnection _).setTask task hs.reserved?
  | look task hg => exact h.look task hg
  | opens task =>
    have hmade : { r with
      openConnections := r.made :: r.openConnections, made := r.made + 1 }.Accounted := { h with }
    exact hmade.setTask task rfl
  | fill task => exact h.fill task
  | release task => exact h.release task
  | restore task =>
    split_ifs
    · exact h.restore hr task rfl
    · exact h.restore hr task rfl
  | drain task => exact h.drain task

theorem run (h : r.Accounted) (hr : r.Exclusive) (steps : List PoolStep) :
    (r.run steps).Accounted :=
  hr.run_of_effect (fun hr h he => h.effect hr he) h steps

end Accounted

end PoolRun

end RemoteCall
