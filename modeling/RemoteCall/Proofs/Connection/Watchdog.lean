import Mathlib.Tactic.SplitIfs
import RemoteCall.Connection.WatchRun
import RemoteCall.Proofs.Positions

/-!
# The watchdog is never lost

Tickers start and stop in separate steps, and a ticker may come to stop itself when another one is in
charge already. In every order of the steps the ticker in charge is the only one whose token is not
cancelled, there is one as long as a connection is known, and it has not left its loop. When the
last connection is gone, that ticker is stopped by the next task that unregisters a connection, or
by itself.
-/

namespace RemoteCall

namespace Watchdog

variable {w : Watchdog} {token : Nat}

/-- Only the token of the ticker in charge is not cancelled, and one is in charge while a connection
is known. -/
structure Attended (w : Watchdog) : Prop where
  running_eq : w.running = w.ticker?.toList
  isTicking : w.watched ≠ [] → w.isTicking = true

theorem running_register (w : Watchdog) (c : Nat) :
    (w.register c).running = if w.isTicking then w.running else w.nextToken :: w.running := by
  unfold register
  dsimp only
  split_ifs <;> first | rfl | contradiction

theorem running_stop (h : w.running = [token]) : (w.stop token).running = [] := by
  simp [stop, h]

namespace Attended

theorem running_eq_nil (h : w.Attended) (hnone : w.ticker? = none) : w.running = [] := by
  rw [h.running_eq, hnone]
  rfl

theorem running_eq_singleton (h : w.Attended) (htoken : w.ticker? = some token) :
    w.running = [token] := by
  rw [h.running_eq, htoken]
  rfl

theorem watched_eq_nil (h : w.Attended) (hnone : w.ticker? = none) : w.watched = [] := by
  by_cases hempty : w.watched = []
  · exact hempty
  · have hticks := h.isTicking hempty
    rw [Watchdog.isTicking, hnone] at hticks
    cases hticks

end Attended

/-- Who unregisters a connection and leaves none stops the ticker in charge. -/
theorem running_unregister (h : w.Attended) {c : Nat} (hempty : (w.unregister c).watched = []) :
    (w.unregister c).running = [] := by
  unfold unregister at hempty ⊢
  dsimp only at hempty ⊢
  cases htoken : w.ticker? with
  | none => exact h.running_eq_nil htoken
  | some token =>
    rw [htoken] at hempty
    dsimp only at hempty ⊢
    split_ifs at hempty ⊢ with hlast
    · exact running_stop (h.running_eq_singleton htoken)
    · exact absurd (List.isEmpty_iff.mpr hempty) hlast

theorem running_stopIfIdle (h : w.Attended) (htoken : w.ticker? = some token)
    (hempty : w.watched = []) : (w.stopIfIdle token).running = [] := by
  have hruns : w.running = [token] := h.running_eq_singleton htoken
  have hidle : (w.running.contains token && w.watched.isEmpty) = true := by
    simp [hruns, hempty]
  rw [stopIfIdle, if_pos hidle]
  exact running_stop hruns

namespace Attended

theorem initial : Watchdog.initial.Attended := ⟨rfl, fun h => absurd rfl h⟩

theorem stop (hruns : w.running = [token]) (hempty : w.watched = []) : (w.stop token).Attended :=
  ⟨running_stop hruns, fun hne => absurd hempty hne⟩

theorem register (h : w.Attended) (c : Nat) : (w.register c).Attended := by
  unfold Watchdog.register
  dsimp only
  split_ifs with hticks
  · exact ⟨h.running_eq, fun _ => hticks⟩
  · have hnone : w.ticker? = none := by simpa [Watchdog.isTicking] using hticks
    exact ⟨by simp [start, h.running_eq_nil hnone], fun _ => rfl⟩

theorem unregister (h : w.Attended) (c : Nat) : (w.unregister c).Attended := by
  unfold Watchdog.unregister
  dsimp only
  cases htoken : w.ticker? with
  | none =>
    have hempty : w.watched = [] := h.watched_eq_nil htoken
    exact ⟨h.running_eq_nil htoken, fun hne => absurd (by simp [hempty]) hne⟩
  | some token =>
    have hruns : w.running = [token] := h.running_eq_singleton htoken
    dsimp only
    split_ifs with hlast
    · exact stop hruns (List.isEmpty_iff.mp hlast)
    · exact ⟨hruns, fun _ => rfl⟩

theorem prune (h : w.Attended) (isHeld : Nat → Bool) : (w.prune isHeld).Attended := by
  refine ⟨h.running_eq, fun hne => h.isTicking fun hempty => hne ?_⟩
  simp [Watchdog.prune, hempty]

/-- A ticker that is not in charge has its token cancelled already, and stops nobody. -/
theorem stopIfIdle (h : w.Attended) (token : Nat) : (w.stopIfIdle token).Attended := by
  unfold Watchdog.stopIfIdle
  split_ifs with hidle
  · rw [Bool.and_eq_true] at hidle
    obtain ⟨hruns, hempty⟩ := hidle
    rw [h.running_eq, List.contains_iff_mem, Option.mem_toList] at hruns
    exact stop (h.running_eq_singleton hruns) (List.isEmpty_iff.mp hempty)
  · exact h

theorem step (h : w.Attended) (s : Watchdog.Step) : (w.step s).Attended := by
  cases s with
  | register c => exact h.register c
  | unregister c => exact h.unregister c
  | prune held => exact h.prune held.contains
  | stopIfIdle token => exact h.stopIfIdle token

theorem length_running_le (h : w.Attended) : w.running.length ≤ 1 := by
  rw [h.running_eq]
  cases w.ticker? with
  | none => exact Nat.zero_le 1
  | some token => exact Nat.le_refl 1

end Attended

end Watchdog

namespace WatchRun

variable {r : WatchRun} {i : Nat} {t : WatchTask} {token : Nat}

/-! ## Every step of a run is at most one step of the watchdog -/

theorem watchdog_register (r : WatchRun) (c : Nat) :
    (r.register c).watchdog = r.watchdog.register c := by
  unfold register
  dsimp only
  split_ifs <;> rfl

inductive OneStep (w : Watchdog) : Watchdog → Prop
  | still : OneStep w w
  | step (s : Watchdog.Step) : OneStep w (w.step s)

theorem oneStep_advanceTask (r : WatchRun) (i : Nat) (t : WatchTask) :
    OneStep r.watchdog (r.advanceTask i t).watchdog := by
  cases t with
  | unregistering c => exact .step (.unregister c)
  | evicting c t => exact .step (.unregister c)
  | removing c t => exact .step (.unregister c)
  | pruning k => exact .step (.prune r.held)
  | idling token => exact .step (.stopIfIdle token)
  | collecting k => exact .still
  | finished => exact .still
  | looked c t => exact .still
  | closing c =>
    simp only [advanceTask]
    split_ifs <;> exact .still
  | waiting token =>
    simp only [advanceTask]
    split_ifs <;> exact .still
  | looking t =>
    obtain ⟨k, hasFound, _ | ⟨c, left⟩⟩ := t <;> exact .still

theorem oneStep_step (r : WatchRun) (s : WatchStep) :
    OneStep r.watchdog (r.step s).watchdog := by
  cases s with
  | opens =>
    rw [step, watchdog_register]
    exact .step (.register r.made)
  | register c =>
    rw [step, watchdog_register]
    exact .step (.register c)
  | unregister c => exact .still
  | close c => exact .still
  | letGo c => exact .still
  | tick => exact .still
  | beat i =>
    simp only [step]
    split <;> exact .still
  | stalls i =>
    simp only [step]
    split
    · split_ifs <;> exact .still
    · exact .still
  | advance i =>
    simp only [step]
    cases r.tasks[i]? with
    | none => exact .still
    | some t => exact oneStep_advanceTask r i t

theorem attended_step (h : r.watchdog.Attended) (s : WatchStep) : (r.step s).watchdog.Attended := by
  have hone := r.oneStep_step s
  generalize (r.step s).watchdog = w at hone ⊢
  cases hone with
  | still => exact h
  | step s => exact h.step s

/-! ## The ticker in charge has not left its loop -/

def Manned (r : WatchRun) : Prop :=
  ∀ token ∈ r.watchdog.running, ∃ t ∈ r.tasks, t.ticker? = some token

structure Moved (r : WatchRun) (i : Nat) (r' : WatchRun) : Prop where
  running_subset : r'.watchdog.running ⊆ r.watchdog.running
  exists_tasks_eq : ∃ t t', r.tasks[i]? = some t ∧ r'.tasks = r.tasks.set i t' ∧
    ∀ token ∈ r'.watchdog.running, t.ticker? = some token → t'.ticker? = some token

theorem ticker?_afterTick (t : Tick) {token : Nat} (htoken : t.ticker? = some token) :
    (afterTick t).ticker? = some token := by
  obtain ⟨k, hasFound, left⟩ := t
  dsimp only at htoken
  subst htoken
  unfold afterTick
  cases hasFound <;> rfl

end WatchRun

theorem Watchdog.running_unregister_subset (w : Watchdog) (c : Nat) :
    (w.unregister c).running ⊆ w.running := by
  unfold unregister
  dsimp only
  cases w.ticker? with
  | none => exact List.Subset.refl _
  | some token =>
    dsimp only
    split_ifs
    · exact List.filter_sublist.subset
    · exact List.Subset.refl _

theorem Watchdog.watched_stopIfIdle (w : Watchdog) (token : Nat) :
    (w.stopIfIdle token).watched = w.watched := by
  unfold stopIfIdle
  split_ifs <;> rfl

theorem Watchdog.running_stopIfIdle_subset (w : Watchdog) (token : Nat) :
    (w.stopIfIdle token).running ⊆ w.running := by
  unfold stopIfIdle
  split_ifs
  · exact List.filter_sublist.subset
  · exact List.Subset.refl _

namespace WatchRun

variable {r : WatchRun} {i : Nat} {t : WatchTask} {token : Nat}

theorem moved_setTask {w : Watchdog} {t' : WatchTask} {held openConnections : List Nat}
    {made : Nat} (hi : r.tasks[i]? = some t) (hrunning : w.running ⊆ r.watchdog.running)
    (hticker : ∀ token ∈ w.running, t.ticker? = some token → t'.ticker? = some token) :
    r.Moved i ⟨w, held, openConnections, made, r.tasks.set i t'⟩ :=
  ⟨hrunning, t, t', hi, rfl, hticker⟩

theorem moved_self (hi : r.tasks[i]? = some t) : r.Moved i r := by
  refine ⟨List.Subset.refl _, t, t, hi, ?_, fun _ _ h => h⟩
  obtain ⟨hlt, rfl⟩ := List.getElem?_eq_some_iff.mp hi
  exact (List.set_getElem_self hlt).symm

theorem moved_advanceTask (hi : r.tasks[i]? = some t) : r.Moved i (r.advanceTask i t) := by
  cases t with
  | finished => exact moved_self hi
  | closing c =>
    simp only [advanceTask]
    split_ifs
    · exact moved_setTask hi (List.Subset.refl _) fun _ _ h => nomatch h
    · exact moved_setTask hi (List.Subset.refl _) fun _ _ h => nomatch h
  | unregistering c =>
    exact moved_setTask hi (r.watchdog.running_unregister_subset c) fun _ _ h => nomatch h
  | waiting token =>
    simp only [advanceTask]
    split_ifs with hruns
    · exact moved_self hi
    · apply moved_setTask hi (List.Subset.refl _)
      -- only a ticker whose token is cancelled leaves its loop
      intro k hk hticker
      cases hticker
      exact absurd (List.contains_iff_mem.mpr hk) hruns
  | pruning k => exact moved_setTask hi (List.Subset.refl _) fun _ _ h => h
  | collecting k => exact moved_setTask hi (List.Subset.refl _) fun _ _ h => h
  | looking t =>
    obtain ⟨k, hasFound, _ | ⟨c, left⟩⟩ := t
    · exact moved_setTask hi (List.Subset.refl _) fun _ _ h => ticker?_afterTick _ h
    · exact moved_setTask hi (List.Subset.refl _) fun _ _ h => h
  | evicting c t =>
    exact moved_setTask hi (r.watchdog.running_unregister_subset c) fun _ _ h => h
  | looked c t =>
    apply moved_setTask hi (List.Subset.refl _)
    intro k hk hticker
    split_ifs <;> exact hticker
  | removing c t =>
    exact moved_setTask hi (r.watchdog.running_unregister_subset c) fun _ _ h => h
  | idling token =>
    exact moved_setTask hi (r.watchdog.running_stopIfIdle_subset token) fun _ _ h => h

namespace Manned

theorem start : WatchRun.start.Manned := fun _ h => nomatch h

theorem moved {r' : WatchRun} (h : r.Manned) (hmoved : r.Moved i r') : r'.Manned := by
  intro token htoken
  obtain ⟨hrunning, told, tnew, hi, htasks, hticker⟩ := hmoved
  obtain ⟨t, ht, hmans⟩ := h token (hrunning htoken)
  obtain ⟨j, hj⟩ := List.mem_iff_getElem?.mp ht
  rw [htasks]
  by_cases hij : j = i
  · subst hij
    have htold : told = t := Option.some.inj (hi.symm.trans hj)
    have hmem : tnew ∈ r.tasks.set j tnew :=
      List.mem_set (List.getElem?_eq_some_iff.mp hi).1 tnew
    exact ⟨tnew, hmem, hticker token htoken (htold ▸ hmans)⟩
  · have hkept : (r.tasks.set i tnew)[j]? = some t := by
      rw [getElem?_set_of_some hi, if_neg hij, hj]
    exact ⟨t, List.mem_of_getElem? hkept, hmans⟩

theorem addTask (h : r.Manned) (t : WatchTask) : (r.addTask t).Manned := by
  intro token htoken
  obtain ⟨t', ht', hmans⟩ := h token htoken
  exact ⟨t', List.mem_append_left _ ht', hmans⟩

/-- A ticker that a registration starts is a task from then on. -/
theorem register (h : r.Manned) (c : Nat) : (r.register c).Manned := by
  unfold WatchRun.register
  dsimp only
  intro token htoken
  split_ifs at htoken ⊢ with hticks
  · rw [Watchdog.running_register, if_pos hticks] at htoken
    exact h token htoken
  · change token ∈ (r.watchdog.register c).running at htoken
    rw [Watchdog.running_register, if_neg hticks] at htoken
    rcases List.mem_cons.mp htoken with rfl | hold
    · exact ⟨.waiting r.watchdog.nextToken, List.mem_append_right _ List.mem_cons_self, rfl⟩
    · obtain ⟨t, ht, hmans⟩ := h token hold
      exact ⟨t, List.mem_append_left _ ht, hmans⟩

theorem step (h : r.Manned) (s : WatchStep) : (r.step s).Manned := by
  cases s with
  | opens =>
    have hopened : Manned { r with
        held := r.made :: r.held
        openConnections := r.made :: r.openConnections
        made := r.made + 1 } := h
    exact hopened.register r.made
  | register c => exact h.register c
  | unregister c => exact h.addTask (.unregistering c)
  | close c => exact h.addTask (.closing c)
  | letGo c =>
    have hlet : Manned { r with held := r.held.filter (· != c) } := h
    exact hlet.addTask (.closing c)
  | tick => exact h.addTask (.pruning none)
  | beat i =>
    simp only [WatchRun.step]
    split
    case h_1 token hi =>
      exact h.moved (moved_setTask hi (List.Subset.refl _) fun _ _ hticker => hticker)
    case h_2 => exact h
  | stalls i =>
    simp only [WatchRun.step]
    split
    case h_1 k hasFound c left hi =>
      split_ifs
      · exact h.moved (moved_setTask hi (List.Subset.refl _) fun _ _ hticker => hticker)
      · exact h
    case h_2 => exact h
  | advance i =>
    simp only [WatchRun.step]
    cases hi : r.tasks[i]? with
    | none => exact h
    | some t => exact h.moved (moved_advanceTask hi)

end Manned

/-! ## A ticker that is left alone stops itself -/

/-- A task can take steps after which no ticker goes on. -/
def Stops (r : WatchRun) (i : Nat) : Prop :=
  ∃ steps : List WatchStep, (∀ s ∈ steps, s.task? = some i) ∧ (r.run steps).watchdog.running = []

theorem Stops.now (h : r.watchdog.running = []) : r.Stops i := ⟨[], by simp, h⟩

theorem Stops.of_step {s : WatchStep} (hs : s.task? = some i) (h : (r.step s).Stops i) :
    r.Stops i := by
  obtain ⟨steps, hsteps, hrunning⟩ := h
  refine ⟨s :: steps, ?_, hrunning⟩
  intro s' hs'
  rcases List.mem_cons.mp hs' with rfl | htail
  · exact hs
  · exact hsteps s' htail

theorem Stops.of_advance (hi : r.tasks[i]? = some t) (h : (r.advanceTask i t).Stops i) :
    r.Stops i := by
  apply Stops.of_step (s := .advance i) rfl
  rw [step, hi]
  exact h

theorem getElem?_setTask (hi : r.tasks[i]? = some t) (t' : WatchTask) :
    (r.setTask i t').tasks[i]? = some t' := by
  rw [setTask, getElem?_set_of_some hi, if_pos rfl]

structure Deserted (r : WatchRun) (token : Nat) : Prop where
  isAttended : r.watchdog.Attended
  ticker?_eq : r.watchdog.ticker? = some token
  watched_eq : r.watchdog.watched = []

namespace Deserted

theorem watched_unregister (h : r.Deserted token) (c : Nat) :
    (r.watchdog.unregister c).watched = [] := by
  have hempty := h.watched_eq
  unfold Watchdog.unregister
  simp [h.ticker?_eq, hempty, Watchdog.stop]

theorem unregister (h : r.Deserted token) (c : Nat) (t : WatchTask) :
    ((r.unregister c).setTask i t).Stops i :=
  .now (Watchdog.running_unregister h.isAttended (h.watched_unregister c))

theorem idling (h : r.Deserted token) (hi : r.tasks[i]? = some (.idling token)) : r.Stops i := by
  apply Stops.of_advance hi
  apply Stops.now
  exact Watchdog.running_stopIfIdle h.isAttended h.ticker?_eq h.watched_eq

theorem setTask (h : r.Deserted token) (t : WatchTask) : (r.setTask i t).Deserted token :=
  ⟨h.isAttended, h.ticker?_eq, h.watched_eq⟩

theorem collecting (h : r.Deserted token) (hi : r.tasks[i]? = some (.collecting (some token))) :
    r.Stops i := by
  apply Stops.of_advance hi
  have hlive : r.watchdog.watched.filter r.held.contains = [] := by simp [h.watched_eq]
  simp only [advanceTask, hlive]
  have hlooks := getElem?_setTask hi (.looking ⟨some token, false, []⟩)
  apply Stops.of_advance hlooks
  exact ((h.setTask _).setTask _).idling (getElem?_setTask hlooks (.idling token))

theorem pruning (h : r.Deserted token) (hi : r.tasks[i]? = some (.pruning (some token))) :
    r.Stops i := by
  apply Stops.of_advance hi
  have hempty : (r.watchdog.prune r.held.contains).watched = [] := by
    simp [Watchdog.prune, h.watched_eq]
  have hpruned : Deserted { r with watchdog := r.watchdog.prune r.held.contains } token :=
    ⟨h.isAttended.prune _, h.ticker?_eq, hempty⟩
  exact (hpruned.setTask _).collecting (getElem?_setTask hi (.collecting (some token)))

theorem waiting (h : r.Deserted token) (hi : r.tasks[i]? = some (.waiting token)) : r.Stops i := by
  apply Stops.of_step (s := .beat i) rfl
  simp only [step, hi]
  exact (h.setTask _).pruning (getElem?_setTask hi (.pruning (some token)))

theorem removing (h : r.Deserted token) {c : Nat} {t : Tick}
    (hi : r.tasks[i]? = some (.removing c t)) : r.Stops i :=
  .of_advance hi (h.unregister c _)

/-- What a tick took hold of before may still be looked at, by induction on what is left. -/
theorem looking {hasFound : Bool} {left : List Nat} (h : r.Deserted token)
    (hi : r.tasks[i]? = some (.looking ⟨some token, hasFound, left⟩)) : r.Stops i := by
  induction left generalizing r with
  | nil =>
    apply Stops.of_advance hi
    cases hasFound with
    | true => exact (h.setTask _).waiting (getElem?_setTask hi (.waiting token))
    | false => exact (h.setTask _).idling (getElem?_setTask hi (.idling token))
  | cons c left ih =>
    apply Stops.of_advance hi
    have hlooked := getElem?_setTask hi (.looked c ⟨some token, hasFound, left⟩)
    apply Stops.of_advance hlooked
    simp only [advanceTask]
    split_ifs
    · exact ih ((h.setTask _).setTask _) (getElem?_setTask hlooked _)
    · exact ((h.setTask _).setTask _).removing (getElem?_setTask hlooked _)

theorem looked {c : Nat} {t : Tick} (h : r.Deserted token) (htoken : t.ticker? = some token)
    (hi : r.tasks[i]? = some (.looked c t)) : r.Stops i := by
  obtain ⟨k, hasFound, left⟩ := t
  dsimp only at htoken
  subst htoken
  apply Stops.of_advance hi
  simp only [advanceTask]
  split_ifs
  · exact (h.setTask _).looking (getElem?_setTask hi _)
  · exact (h.setTask _).removing (getElem?_setTask hi _)

/-- Wherever in its loop the ticker in charge is, it gets to stop itself. -/
theorem stops (h : r.Deserted token) (hi : r.tasks[i]? = some t)
    (htoken : t.ticker? = some token) : r.Stops i := by
  cases t with
  | closing c => cases htoken
  | unregistering c => cases htoken
  | finished => cases htoken
  | waiting k =>
    cases htoken
    exact h.waiting hi
  | pruning k =>
    cases htoken
    exact h.pruning hi
  | collecting k =>
    cases htoken
    exact h.collecting hi
  | looking t =>
    obtain ⟨k, hasFound, left⟩ := t
    cases htoken
    exact h.looking hi
  | evicting c t => exact .of_advance hi (h.unregister c _)
  | looked c t => exact h.looked htoken hi
  | removing c t => exact h.removing hi
  | idling k =>
    cases htoken
    exact h.idling hi

end Deserted

end WatchRun

/-! ## Every run -/

/-- The task is about to unregister a connection, or it is the ticker in charge about to stop itself
if no connection is known. -/
inductive WatchTask.MayStop (w : Watchdog) : WatchTask → Prop
  | unregistering (c : Nat) : MayStop w (.unregistering c)
  | evicting (c : Nat) (t : Tick) : MayStop w (.evicting c t)
  | removing (c : Nat) (t : Tick) : MayStop w (.removing c t)
  | idling {token : Nat} (h : w.ticker? = some token) : MayStop w (.idling token)

namespace WatchRun

variable {r : WatchRun} {i : Nat} {t : WatchTask}

theorem attended_run (steps : List WatchStep) (h : r.watchdog.Attended) :
    (r.run steps).watchdog.Attended := by
  induction steps generalizing r with
  | nil => exact h
  | cons s steps ih => exact ih (attended_step h s)

theorem manned_run (steps : List WatchStep) (h : r.Manned) : (r.run steps).Manned := by
  induction steps generalizing r with
  | nil => exact h
  | cons s steps ih => exact ih (h.step s)

/-- A task that takes the last connection from the watchdog, or is the ticker in charge and finds no
connection known, leaves no ticker going on. -/
theorem running_advance_eq_nil (hr : r.watchdog.Attended) (hi : r.tasks[i]? = some t)
    (ht : t.MayStop r.watchdog) (hempty : (r.step (.advance i)).watchdog.watched = []) :
    (r.step (.advance i)).watchdog.running = [] := by
  simp only [step, hi] at hempty ⊢
  cases ht with
  | unregistering c => exact Watchdog.running_unregister hr hempty
  | evicting c t => exact Watchdog.running_unregister hr hempty
  | removing c t => exact Watchdog.running_unregister hr hempty
  | idling htoken =>
    apply Watchdog.running_stopIfIdle hr htoken
    exact (Watchdog.watched_stopIfIdle r.watchdog _).symm.trans hempty

/-- In every run, whatever the order of the steps: while a connection is known, a ticker is in
charge whose token is not cancelled and which is at some step of its loop, and never is there a
second token that is not cancelled. Once no connection is known, no token is left uncancelled after
any step that unregisters a connection or has the ticker in charge stop itself; and if none of them
has come yet, that ticker only has to be left alone to get there. -/
theorem watchdog_never_lost (steps : List WatchStep) :
    let r := start.run steps
    (r.watchdog.watched ≠ [] → ∃ token, r.watchdog.ticker? = some token ∧
      token ∈ r.watchdog.running ∧ ∃ t ∈ r.tasks, t.ticker? = some token) ∧
    r.watchdog.running.length ≤ 1 ∧
    (∀ (i : Nat) (t : WatchTask), r.tasks[i]? = some t → t.MayStop r.watchdog →
      (r.step (.advance i)).watchdog.watched = [] →
      (r.step (.advance i)).watchdog.running = []) ∧
    (r.watchdog.watched = [] → ∀ token ∈ r.watchdog.running, ∃ i t, r.tasks[i]? = some t ∧
      t.ticker? = some token ∧ r.Stops i) := by
  intro r
  have hattended : r.watchdog.Attended := attended_run steps .initial
  have hmanned : r.Manned := manned_run steps .start
  refine ⟨?_, hattended.length_running_le, ?_, ?_⟩
  · intro hwatched
    obtain ⟨token, htoken⟩ := Option.isSome_iff_exists.mp (hattended.isTicking hwatched)
    have hruns : token ∈ r.watchdog.running := by simp [hattended.running_eq_singleton htoken]
    exact ⟨token, htoken, hruns, hmanned token hruns⟩
  · intro i t hi ht hempty
    exact running_advance_eq_nil hattended hi ht hempty
  · intro hempty token hruns
    have htoken : r.watchdog.ticker? = some token := by
      rw [hattended.running_eq] at hruns
      exact Option.mem_toList.mp hruns
    obtain ⟨t, ht, hmans⟩ := hmanned token hruns
    obtain ⟨i, hi⟩ := List.mem_iff_getElem?.mp ht
    have hdeserted : r.Deserted token := ⟨hattended, htoken, hempty⟩
    exact ⟨i, t, hi, hmans, hdeserted.stops hi hmans⟩

/-- A connection is registered, found open at a tick, and let go of. The next tick has it forgotten,
and the ticker then only has to be left alone to stop. -/
theorem watchdog_never_lost_let_go :
    let looking := start.run [.opens, .beat 0, .advance 0, .advance 0, .advance 0]
    let checked := looking.run [.advance 0, .advance 0]
    let dropped := checked.run [.letGo 0, .beat 0, .advance 0]
    looking.tasks = [.looked 0 ⟨some 0, true, []⟩] ∧
      checked.watchdog.watched = [0] ∧ checked.tasks = [.waiting 0] ∧
      dropped.watchdog.watched = [] ∧ dropped.watchdog.running = [0] ∧
      ∃ i t, dropped.tasks[i]? = some t ∧ t.ticker? = some 0 ∧ dropped.Stops i := by
  refine ⟨by decide, by decide, by decide, by decide, by decide, ?_⟩
  exact (watchdog_never_lost [.opens, .beat 0, .advance 0, .advance 0, .advance 0, .advance 0,
    .advance 0, .letGo 0, .beat 0, .advance 0]).2.2.2 (by decide) 0 (by decide)

/-- A ticker that found nothing comes to stop itself after the last connection has gone, which
stopped it, and another one has come, which started a second ticker: the second one goes on. -/
example :
    let r := start.run [.opens, .beat 0, .letGo 0, .advance 0, .advance 0, .advance 0, .unregister 0,
      .advance 2, .opens, .advance 0]
    r.watchdog = ⟨[1], some 1, [1], 2⟩ ∧ r.tasks[0]? = some (.waiting 0) ∧
      r.tasks[3]? = some (.waiting 1) := by
  decide

end WatchRun

end RemoteCall
