import Mathlib.Data.List.Infix
import RemoteCall.Proofs.Method.Resolution
import RemoteCall.Proofs.Server.Opening
import RemoteCall.Proofs.Server.Session

/-!
# Disconnect hooks

The hooks of a session are queued while its connection is open and run after it has closed. What was
run and what is queued are together the hook calls that the session resolved, each once and in the
order in which it came first. One invariant says so; every step of a session keeps it, whatever
closes the connection and whatever a hook comes to.
-/

namespace RemoteCall

open Wire

namespace ResolvedCall

def distinct : List ResolvedCall → List ResolvedCall
  | [] => []
  | call :: calls => call :: (distinct calls).filter fun c => !call.sameCall c

theorem pairwise_distinct (calls : List ResolvedCall) :
    (distinct calls).Pairwise fun a b => a.sameCall b = false := by
  induction calls with
  | nil => exact .nil
  | cons call calls ih =>
    refine .cons (fun c hc => ?_) (ih.sublist List.filter_sublist)
    simpa using (List.mem_filter.mp hc).2

theorem distinct_concat (calls : List ResolvedCall) (c : ResolvedCall) :
    distinct (calls ++ [c]) =
      if (distinct calls).any (·.sameCall c) then distinct calls else distinct calls ++ [c] := by
  induction calls with
  | nil => rfl
  | cons call calls ih =>
    rw [List.cons_append, distinct, ih, distinct, List.any_cons]
    by_cases hcall : call = c
    · subst hcall
      have hself : call.sameCall call = true := sameCall_iff.mpr rfl
      have hnone : [call].filter (fun c => !call.sameCall c) = [] := by simp [hself]
      rw [hself, Bool.true_or, if_pos rfl]
      split_ifs
      · rfl
      · rw [List.filter_append, hnone, List.append_nil]
    · have hne : call.sameCall c = false := Bool.eq_false_iff.mpr fun h => hcall (sameCall_iff.mp h)
      have hkept : [c].filter (fun c => !call.sameCall c) = [c] := by simp [hne]
      have hany : ((distinct calls).filter fun c => !call.sameCall c).any (·.sameCall c) =
          (distinct calls).any (·.sameCall c) := by
        rw [Bool.eq_iff_iff, List.any_eq_true, List.any_eq_true]
        constructor
        · rintro ⟨x, hx, hsame⟩
          exact ⟨x, (List.mem_filter.mp hx).1, hsame⟩
        · rintro ⟨x, hx, hsame⟩
          obtain rfl := sameCall_iff.mp hsame
          exact ⟨x, List.mem_filter.mpr ⟨hx, by rw [hne]; rfl⟩, hsame⟩
      rw [hne, Bool.false_or, hany]
      split_ifs
      · rfl
      · rw [List.filter_append, hkept, List.cons_append]

end ResolvedCall

open ResolvedCall (distinct distinct_concat pairwise_distinct)

/-- How often the next hook gets its turn. -/
def SessionEvent.hookTurns (events : List SessionEvent) : Nat :=
  events.countP fun
    | .runHook => true
    | _ => false

def MethodTable.hook? (t : MethodTable) (call : Call) : Option ResolvedCall :=
  (t.resolve call.method call.args).toOption.filter t.isHook

namespace Session

def callIn? (s : Session) : SessionEvent → Option Call
  | .received body _ =>
    if s.isOpen then (s.connection.decodeBody s.registry Call.reader body).result.toOption else none
  | _ => none

theorem callIn?_received {s : Session} (hopen : s.isOpen = true) (body : List UInt8)
    (isDelivered : Bool) : s.callIn? (.received body isDelivered) =
      (s.connection.decodeBody s.registry Call.reader body).result.toOption := if_pos hopen

/-- The hook calls that a run resolves, in order. -/
def hookCalls (s : Session) : List SessionEvent → List ResolvedCall
  | [] => []
  | event :: events =>
    ((s.callIn? event).bind s.table.hook?).toList ++ (s.step event).hookCalls events

def hookRuns (s : Session) : List ResolvedCall := s.ran.filter s.table.isHook

/-- What was run and what is queued are the calls resolved, each once. No hook was run while the
connection was open. What a run came to is what the body of its method ended in. -/
structure KeepsHooks (s : Session) (table : MethodTable) (resolved : List ResolvedCall) :
    Prop where
  table_eq : s.table = table
  eq_distinct : s.hookRuns ++ s.hooks = distinct resolved
  isHook : ∀ call ∈ s.hooks, s.table.isHook call = true
  waits : s.isOpen = true → s.hookRuns = []
  closed_mem : s.isOpen = false → Activity.closed ∈ s.activity
  waits_before : ∀ before, before <+: s.activity → Activity.closed ∉ before →
    ∀ call outcome, Activity.ran call outcome ∈ before → s.table.isHook call = false
  comesTo : ∀ call outcome, Activity.ran call outcome ∈ s.activity → s.table.ComesTo call outcome

theorem hookRuns_note_of_not_hook {s : Session} {a : Activity}
    (ha : ∀ call outcome, a = .ran call outcome → s.table.isHook call = false) :
    (s.note a).hookRuns = s.hookRuns := by
  simp only [hookRuns, ran, note, List.filterMap_append, List.filter_append]
  cases a with
  | ran call outcome => simp [ha call outcome rfl]
  | sent | closed => simp

theorem hookRuns_invoke_of_hook {s : Session} {call : ResolvedCall}
    (h : s.table.isHook call = true) : (s.invoke call).2.hookRuns = s.hookRuns ++ [call] := by
  simp [hookRuns, ran, invoke, note, List.filterMap_append, List.filter_append, h]

theorem isOpen_runHook (s : Session) : s.runHook.isOpen = s.isOpen := by
  unfold runHook
  split <;> rfl

namespace KeepsHooks

variable {s : Session} {table : MethodTable} {resolved : List ResolvedCall}

theorem withConnection (h : KeepsHooks s table resolved) {c : Connection}
    (hc : c.isClosed = s.connection.isClosed) (g : Registry) :
    KeepsHooks { s with connection := c, registry := g } table resolved where
  table_eq := h.table_eq
  eq_distinct := h.eq_distinct
  isHook := h.isHook
  waits hopen := h.waits (by rwa [isOpen, hc] at hopen)
  closed_mem hclosed := h.closed_mem (by rwa [isOpen, hc] at hclosed)
  waits_before := h.waits_before
  comesTo := h.comesTo

theorem note (h : KeepsHooks s table resolved) {a : Activity}
    (ha : ∀ call outcome, a = .ran call outcome → s.table.isHook call = false)
    (hcomes : ∀ call outcome, a = .ran call outcome → s.table.ComesTo call outcome) :
    KeepsHooks (s.note a) table resolved where
  table_eq := h.table_eq
  eq_distinct := by
    rw [hookRuns_note_of_not_hook ha]
    exact h.eq_distinct
  isHook := h.isHook
  waits hopen := by
    rw [hookRuns_note_of_not_hook ha]
    exact h.waits hopen
  closed_mem hclosed := List.mem_append_left _ (h.closed_mem hclosed)
  waits_before before hbefore hnot call outcome hcall := by
    rcases List.prefix_concat_iff.mp hbefore with rfl | hbefore
    · rcases List.mem_append.mp hcall with hcall | hcall
      · refine h.waits_before _ (List.prefix_refl _) (fun hmem => hnot ?_) call outcome hcall
        exact List.mem_append_left _ hmem
      · exact ha call outcome (List.mem_singleton.mp hcall).symm
    · exact h.waits_before before hbefore hnot call outcome hcall
  comesTo call outcome hcall := by
    rcases List.mem_append.mp hcall with hcall | hcall
    · exact h.comesTo call outcome hcall
    · exact hcomes call outcome (List.mem_singleton.mp hcall).symm

theorem close (h : KeepsHooks s table resolved) : KeepsHooks s.close table resolved := by
  unfold Session.close
  split_ifs with hopen
  · have hnote := h.note (a := .closed) nofun nofun
    exact
      { table_eq := hnote.table_eq
        eq_distinct := hnote.eq_distinct
        isHook := hnote.isHook
        waits := fun _ => hnote.waits hopen
        closed_mem := fun _ => List.mem_append_right _ (List.mem_singleton_self _)
        waits_before := hnote.waits_before
        comesTo := hnote.comesTo }
  · exact h

theorem sendReply (h : KeepsHooks s table resolved) (reply : Reply) (isDelivered : Bool) :
    KeepsHooks (s.sendReply reply isDelivered).2 table resolved := by
  obtain ⟨e, he⟩ : ∃ e, (s.connection.writeFrame (reply.writer s.registry)).2 =
      { s.connection with encoder := e } := by
    unfold Connection.writeFrame
    split_ifs
    · exact ⟨s.connection.encoder, rfl⟩
    · exact ⟨_, rfl⟩
  have hsame : (s.connection.writeFrame (reply.writer s.registry)).2.isClosed =
      s.connection.isClosed := by rw [he]
  unfold Session.sendReply
  cases hwrite : s.connection.writeFrame (reply.writer s.registry) with
  | mk result c =>
    rw [hwrite] at hsame
    have hc := h.withConnection hsame s.registry
    cases result with
    | error f => exact hc
    | ok frame =>
      dsimp only
      split_ifs
      · exact hc.note nofun nofun
      · exact hc

theorem sendOutcome (h : KeepsHooks s table resolved) (call : Call)
    (outcome : Except RemoteFailure Value) (isDelivered : Bool) :
    KeepsHooks (s.sendOutcome call outcome isDelivered).2 table resolved := by
  have hfirst := h.sendReply (.ofOutcome call.sequence outcome) isDelivered
  unfold Session.sendOutcome
  cases hsend : s.sendReply (.ofOutcome call.sequence outcome) isDelivered with
  | mk result t =>
    rw [hsend] at hfirst
    cases result with
    | ok _ => exact hfirst
    | error f =>
      dsimp only
      split_ifs
      · exact hfirst
      · exact hfirst.sendReply _ _

/-- A hook that is queued twice is queued once. -/
theorem queue (h : KeepsHooks s table resolved) (hopen : s.isOpen = true) {call : ResolvedCall}
    (hcall : s.table.isHook call = true) : KeepsHooks (s.queue call) table (resolved ++ [call]) := by
  have hqueued := h.eq_distinct
  rw [h.waits hopen, List.nil_append] at hqueued
  have hdistinct := distinct_concat resolved call
  rw [← hqueued] at hdistinct
  unfold Session.queue
  split_ifs with hany
  · rw [if_pos hany] at hdistinct
    refine { h with eq_distinct := ?_ }
    rw [h.waits hopen, List.nil_append, hdistinct]
  · rw [if_neg hany] at hdistinct
    exact
      { table_eq := h.table_eq
        eq_distinct := by
          change s.hookRuns ++ (s.hooks ++ [call]) = _
          rw [h.waits hopen, List.nil_append, hdistinct]
        isHook := List.forall_mem_append.mpr ⟨h.isHook, List.forall_mem_singleton.mpr hcall⟩
        waits := h.waits
        closed_mem := h.closed_mem
        waits_before := h.waits_before
        comesTo := h.comesTo }

theorem answer (h : KeepsHooks s table resolved) (hopen : s.isOpen = true) (call : Call) :
    KeepsHooks (s.answer call).2 table (resolved ++ (s.table.hook? call).toList) := by
  unfold Session.answer MethodTable.hook?
  cases hresolve : s.table.resolve call.method call.args with
  | error f => simpa [Except.toOption] using h
  | ok r =>
    cases hhook : s.table.isHook r with
    | true => simpa [Except.toOption, Option.filter, hhook] using h.queue hopen hhook
    | false =>
      obtain ⟨m, hfirst, -⟩ := MethodTable.of_resolve_ok hresolve
      have hnote := h.note (a := s.table.running r)
        (fun call outcome hcall => by cases hcall; exact hhook)
        (fun call outcome hcall => by cases hcall; exact MethodTable.comesTo_invoke hfirst.at_index)
      simpa [Except.toOption, Option.filter, hhook, Session.invoke, MethodTable.running] using hnote

theorem dispatch (h : KeepsHooks s table resolved) (hopen : s.isOpen = true) (call : Call)
    (isDelivered : Bool) :
    KeepsHooks (s.dispatch call isDelivered) table (resolved ++ (s.table.hook? call).toList) := by
  have hsent := (h.answer hopen call).sendOutcome call (s.answer call).1 isDelivered
  unfold Session.dispatch
  dsimp only
  cases hsend : (s.answer call).2.sendOutcome call (s.answer call).1 isDelivered with
  | mk result t =>
    rw [hsend] at hsent
    cases result with
    | ok _ => exact hsent
    | error f => exact hsent.close

theorem receive (h : KeepsHooks s table resolved) (hopen : s.isOpen = true) (body : List UInt8)
    (isDelivered : Bool) :
    KeepsHooks (s.receive body isDelivered) table
      (resolved ++ ((s.callIn? (.received body isDelivered)).bind s.table.hook?).toList) := by
  rw [callIn?_received hopen]
  unfold Session.receive
  dsimp only
  cases hresult : (s.connection.decodeBody s.registry Call.reader body).result with
  | error f => simpa [Except.toOption] using (h.withConnection rfl _).close
  | ok call =>
    obtain ⟨-, hdecode⟩ := Connection.decodeBody_of_ok hresult
    have hdecoded := h.withConnection (c := s.connection.receiving
      (s.connection.decoder.read s.registry Call.reader body).decoder) rfl
      (s.connection.decoder.read s.registry Call.reader body).registry
    simpa [Except.toOption, hdecode] using hdecoded.dispatch hopen call isDelivered

/-- The hook queued first is run, whatever it comes to. -/
theorem runHook (h : KeepsHooks s table resolved) (hclosed : s.isOpen = false) :
    KeepsHooks s.runHook table resolved := by
  unfold Session.runHook
  cases hhooks : s.hooks with
  | nil => exact h
  | cons call hooks =>
    have hall := h.isHook
    have heq := h.eq_distinct
    rw [hhooks] at hall heq
    have hcall := hall call (List.mem_cons_self ..)
    have hruns : (({ s with hooks := hooks } : Session).invoke call).2.hookRuns =
        s.hookRuns ++ [call] := hookRuns_invoke_of_hook hcall
    have hmem := h.closed_mem hclosed
    exact
      { table_eq := h.table_eq
        eq_distinct := by
          rw [hruns, ← heq, List.append_assoc]
          rfl
        isHook := fun c hc => hall c (List.mem_cons_of_mem _ hc)
        waits := fun hopen => by
          change s.isOpen = true at hopen
          rw [hclosed] at hopen
          cases hopen
        closed_mem := fun _ => List.mem_append_left _ hmem
        waits_before := fun before hbefore hnot c outcome hc => by
          rcases List.prefix_concat_iff.mp hbefore with rfl | hbefore
          · exact absurd (List.mem_append_left _ hmem) hnot
          · exact h.waits_before before hbefore hnot c outcome hc
        comesTo := fun c outcome hc => by
          rcases List.mem_append.mp hc with hc | hc
          · exact h.comesTo c outcome hc
          · cases List.mem_singleton.mp hc
            obtain ⟨m, hm⟩ := MethodTable.exists_method_of_isHook hcall
            exact MethodTable.comesTo_invoke hm }

theorem runHooks (h : KeepsHooks s table resolved) (hclosed : s.isOpen = false) :
    KeepsHooks s.runHooks table resolved := by
  rw [Session.runHooks, List.foldl_const]
  generalize s.hooks.length = n
  induction n generalizing s with
  | zero => exact h
  | succ n ih => exact ih (h.runHook hclosed) (s.isOpen_runHook.trans hclosed)

theorem step (h : KeepsHooks s table resolved) (event : SessionEvent) :
    KeepsHooks (s.step event) table
      (resolved ++ ((s.callIn? event).bind s.table.hook?).toList) := by
  cases event with
  | received body isDelivered =>
    cases hopen : s.isOpen with
    | true => simpa [Session.step, hopen] using h.receive hopen body isDelivered
    | false => simpa [Session.step, callIn?, hopen] using h
  | ended | shutdown => simpa [Session.step, callIn?] using h.close
  | runHook =>
    cases hopen : s.isOpen with
    | true => simpa [Session.step, callIn?, hopen] using h
    | false => simpa [Session.step, callIn?, hopen] using h.runHook hopen

theorem run (h : KeepsHooks s table resolved) (events : List SessionEvent) :
    KeepsHooks (s.run events) table (resolved ++ s.hookCalls events) := by
  induction events generalizing s resolved with
  | nil => simpa [Session.run, hookCalls] using h
  | cons event events ih =>
    have hrest := ih (h.step event)
    rwa [List.append_assoc] at hrest

end KeepsHooks

theorem hooks_sendReply (s : Session) (reply : Reply) (isDelivered : Bool) :
    (s.sendReply reply isDelivered).2.hooks = s.hooks := by
  unfold sendReply
  split
  · rfl
  · dsimp only
    split_ifs <;> rfl

theorem hooks_sendOutcome (s : Session) (call : Call) (outcome : Except RemoteFailure Value)
    (isDelivered : Bool) : (s.sendOutcome call outcome isDelivered).2.hooks = s.hooks := by
  have hfirst := s.hooks_sendReply (.ofOutcome call.sequence outcome) isDelivered
  unfold sendOutcome
  cases hsend : s.sendReply (.ofOutcome call.sequence outcome) isDelivered with
  | mk result t =>
    rw [hsend] at hfirst
    cases result with
    | ok _ => exact hfirst
    | error f =>
      dsimp only
      split_ifs
      · exact hfirst
      · exact (t.hooks_sendReply _ _).trans hfirst

theorem hooks_dispatch (s : Session) (call : Call) (isDelivered : Bool) :
    (s.dispatch call isDelivered).hooks = (s.answer call).2.hooks := by
  have hsent := (s.answer call).2.hooks_sendOutcome call (s.answer call).1 isDelivered
  unfold dispatch
  dsimp only
  cases hsend : (s.answer call).2.sendOutcome call (s.answer call).1 isDelivered with
  | mk result t =>
    rw [hsend] at hsent
    cases result with
    | ok _ => exact hsent
    | error f => exact t.hooks_close.trans hsent

theorem hooks_step_of_error {s : Session} {body : List UInt8} {isDelivered : Bool} {call : Call}
    {f : Failure} (hcall : s.callIn? (.received body isDelivered) = some call)
    (hresolve : s.table.resolve call.method call.args = .error f) :
    (s.step (.received body isDelivered)).hooks = s.hooks := by
  have hopen : s.isOpen = true := by
    by_contra hnot
    simp [callIn?, hnot] at hcall
  rw [callIn?_received hopen] at hcall
  cases hresult : (s.connection.decodeBody s.registry Call.reader body).result with
  | error e =>
    rw [hresult] at hcall
    cases hcall
  | ok received =>
    rw [hresult] at hcall
    cases hcall
    simp only [step, if_pos hopen, receive, hresult, hooks_dispatch, answer, hresolve]

/-- A turn runs the hook queued first, and the next turn runs the one behind it. -/
theorem iterate_runHook (n : Nat) (s : Session) : runHook^[n] s = { s with
    hooks := s.hooks.drop n
    activity := s.activity ++ (s.hooks.take n).map s.table.running } := by
  induction n generalizing s with
  | zero => simp
  | succ n ih =>
    rw [Function.iterate_succ_apply, ih, runHook]
    cases hhooks : s.hooks with
    | nil => simp [hhooks]
    | cons call hooks => simp [invoke, note, MethodTable.running]

theorem runHooks_eq (s : Session) : s.runHooks = { s with
    hooks := []
    activity := s.activity ++ s.hooks.map s.table.running } := by
  rw [runHooks, List.foldl_const, iterate_runHook, List.drop_length, List.take_length]

/-- What can still happen to a session that is closed: its hooks run, each at its turn. -/
theorem run_of_closed {s : Session} (hclosed : s.isOpen = false) (events : List SessionEvent) :
    s.run events = runHook^[SessionEvent.hookTurns events] s := by
  have hnot : ¬ s.isOpen = true := by rw [hclosed]; decide
  induction events generalizing s with
  | nil => rfl
  | cons event events ih =>
    change (s.step event).run events = _
    have hcount : SessionEvent.hookTurns (event :: events) =
        SessionEvent.hookTurns events + SessionEvent.hookTurns [event] := by
      simp [SessionEvent.hookTurns, List.countP_cons]
    cases event with
    | received | ended | shutdown =>
      have hstep : s.close = s := if_neg hnot
      simp only [step, if_neg hnot, hstep, hcount]
      exact ih hclosed hnot
    | runHook =>
      have hopen : s.runHook.isOpen = false := s.isOpen_runHook.trans hclosed
      rw [hcount, step, if_neg hnot, ih hopen (by rw [hopen]; decide)]
      rfl

/-- Running hooks appends them to those that were run. -/
theorem hookRuns_running (s : Session) {calls hooks : List ResolvedCall}
    (h : ∀ call ∈ calls, s.table.isHook call = true) :
    ({ s with
      hooks := hooks
      activity := s.activity ++ calls.map s.table.running } : Session).hookRuns =
      s.hookRuns ++ calls := by
  simp [hookRuns, ran, MethodTable.running, List.filterMap_append, List.filterMap_map,
    Function.comp_def, List.filter_eq_self.mpr h]

end Session

namespace Service

/-- What became of an accepted connection when its client has sent a stream and the headers are
exchanged or refused. -/
def opened (v : Server) (g : Registry) (client : PeerAddress) (seed : UInt64)
    (stream : ByteStream) : Service :=
  match start v g client seed with
  | (_, .greeting c) => (greet v g c stream).1
  | (_, other) => other

def run (events : List SessionEvent) : Service → Service
  | .serving s => .serving (s.run events)
  | other => other

def ran (service : Service) : List ResolvedCall := (service.session?.map Session.ran).getD []

variable (v : Server) (g : Registry) (client : PeerAddress) (seed : UInt64)
  (stream : ByteStream)

theorem keepsHooks_opened {s : Session} (h : (opened v g client seed stream).session? = some s) :
    s.KeepsHooks v.table [] := by
  unfold opened at h
  cases hstart : start v g client seed with
  | mk hello? service =>
    rw [hstart] at h
    cases service with
    | refused => cases h
    | serving t =>
      unfold start at hstart
      split at hstart <;> cases hstart
    | greeting c =>
      obtain ⟨hello, -, hwrite⟩ := start_eq_greeting hstart
      cases hgreet : greet v g c stream with
      | mk service rest =>
        simp only [hgreet] at h
        cases service with
        | greeting _ | refused => cases h
        | serving t =>
          cases h
          obtain ⟨hopen, d, known, header, -, rfl⟩ := greet_eq_serving hgreet
          have hisOpen : (v.session known ((c.receiving d).greeted header)).isOpen = true := by
            change (!c.isClosed) = true
            rw [hopen]
            rfl
          exact
            { table_eq := rfl
              eq_distinct := rfl
              isHook := fun call hcall => by cases hcall
              waits := fun _ => rfl
              closed_mem := fun hclosed => by rw [hisOpen] at hclosed; cases hclosed
              waits_before := fun before hbefore _ call outcome hcall => by
                rw [List.prefix_nil.mp hbefore] at hcall
                cases hcall
              comesTo := fun call outcome hcall => by cases hcall }

/-- Hooks run once each. Whatever happens to a session, its hook calls are queued while its
connection is open, without those that repeat an earlier one and in order, and they are run in that
order, each at its turn, once it is closed; before that no hook is run. What a method ends in when
it is run, be it a failure or a panic, is noted and keeps no other from its turn. Calls that do not
resolve queue none, and without a session nothing is run. -/
theorem hooks_run_once (events : List SessionEvent) :
    ((opened v g client seed stream).session? = none →
      ((opened v g client seed stream).run events).ran = []) ∧
    ∀ s, (opened v g client seed stream).session? = some s →
      let t := s.run events
      let ended := t.close.runHooks
      let resolved := distinct (s.hookCalls events)
      resolved.Pairwise (fun a b => a.sameCall b = false) ∧
      (t.isOpen = true → t.hooks = resolved ∧ t.hookRuns = []) ∧
      (t.isOpen = false → t.hookRuns ++ t.hooks = resolved ∧
        ∀ later, (t.run later).activity = t.activity ++
            (t.hooks.take (SessionEvent.hookTurns later)).map v.table.running ∧
          (t.run later).hookRuns =
            t.hookRuns ++ t.hooks.take (SessionEvent.hookTurns later)) ∧
      (ended.activity = t.close.activity ++ t.hooks.map v.table.running ∧
        ended.hookRuns = resolved ∧ ended.hooks = []) ∧
      (∀ call outcome, Activity.ran call outcome ∈ ended.activity →
        v.table.ComesTo call outcome) ∧
      (∀ before, before <+: t.activity → Activity.closed ∉ before →
        ∀ call outcome, Activity.ran call outcome ∈ before → v.table.isHook call = false) ∧
      ∀ body isDelivered call f, t.callIn? (.received body isDelivered) = some call →
        v.table.resolve call.method call.args = .error f →
        (t.step (.received body isDelivered)).hooks = t.hooks := by
  constructor
  · intro hnone
    cases hopened : opened v g client seed stream with
    | serving s =>
      rw [hopened] at hnone
      cases hnone
    | greeting _ | refused => rfl
  intro s hs t ended resolved
  have hkeeps := (keepsHooks_opened v g client seed stream hs).run events
  rw [List.nil_append] at hkeeps
  have htable := hkeeps.table_eq
  have hended := hkeeps.close.runHooks t.isOpen_close
  have hactivity := congrArg Session.activity t.close.runHooks_eq
  have hnone : ended.hooks = [] := congrArg Session.hooks t.close.runHooks_eq
  dsimp only at hactivity
  rw [hkeeps.close.table_eq, t.hooks_close] at hactivity
  have hran := hended.eq_distinct
  have hcomes := hended.comesTo
  have hbefore := hkeeps.waits_before
  rw [hnone, List.append_nil] at hran
  rw [hended.table_eq] at hcomes
  rw [htable] at hbefore
  refine ⟨pairwise_distinct _, fun hopen => ?_, fun hclosed => ⟨hkeeps.eq_distinct, fun later => ?_⟩,
    ⟨hactivity, hran, hnone⟩, hcomes, hbefore, fun body isDelivered call f hcall hresolve => ?_⟩
  · have hwaits := hkeeps.waits hopen
    have hqueued := hkeeps.eq_distinct
    rw [hwaits] at hqueued
    exact ⟨hqueued, hwaits⟩
  · rw [Session.run_of_closed hclosed, Session.iterate_runHook, ← htable]
    exact ⟨rfl, t.hookRuns_running fun c hc => hkeeps.isHook c (List.mem_of_mem_take hc)⟩
  · rw [← htable] at hresolve
    exact Session.hooks_step_of_error hcall hresolve

/-- Behind a hook that panics another one is queued. A client without a header calls the first of
them twice with the same number and once with a text, which does not convert. When the connection is
closed each is run once, the second after the panic of the first. -/
theorem hooks_run_once_panic :
    let table : MethodTable :=
      ⟨"T", [⟨"free", [.int], true, fun _ => .panic none⟩, ⟨"last", [], true, fun _ => .value .null⟩]⟩
    let header := [0, 0, 0, 6, 0xF1, 0] ++ List.replicate 250 0
    let service := opened ⟨table, .default⟩ .initial ⟨"c", 9⟩ 1 ⟨[header], false⟩
    let first := [0, 0xF3, 0, 4, 102, 114, 101, 101, 0xF5, 1, 0xF3, 1, 3, 97, 110, 121, 7]
    let again := [0, 0xF3, 0, 0xF5, 1, 0xF3, 1, 7]
    let text := [0, 0xF3, 0, 0xF5, 1, 0xF3, 1, 0xF4, 1, 120]
    let last := [0, 0xF3, 2, 4, 108, 97, 115, 116, 0xF5, 0, 0xF3, 1]
    let events : List SessionEvent := [.received first true, .received again true,
      .received text true, .received last true]
    ∃ s, service.session? = some s ∧
      (s.run events).sent.length = 4 ∧ (s.hookCalls events).length = 3 ∧
      (s.run events).hookRuns = [] ∧
      (s.run events).close.runHooks.activity = (s.run events).close.activity ++
        [.ran ⟨0, [.int 7]⟩ (.error ⟨"Panic", "provider panicked", ["T.free"]⟩),
          .ran ⟨1, []⟩ (.ok .null)] := by
  intro table header service first again text last events
  have hsome : service.session?.isSome = true := by decide +kernel
  obtain ⟨s, hs⟩ := Option.isSome_iff_exists.mp hsome
  have hrun : (service.session?.all fun s =>
      decide ((s.run events).isOpen = true ∧ (s.run events).sent.length = 4 ∧
        (s.hookCalls events).length = 3 ∧
        (s.run events).hooks = [⟨0, [.int 7]⟩, ⟨1, []⟩])) = true := by
    decide +kernel
  rw [hs] at hrun
  obtain ⟨hopen, hsent, hcalls, hhooks⟩ := of_decide_eq_true hrun
  obtain ⟨-, hqueued, -, ⟨hdone, -⟩, -⟩ := (hooks_run_once ⟨table, .default⟩ .initial ⟨"c", 9⟩ 1
    ⟨[header], false⟩ events).2 s hs
  rw [hhooks] at hdone
  exact ⟨s, hs, hsent, hcalls, (hqueued hopen).2, hdone⟩

end Service

end RemoteCall
