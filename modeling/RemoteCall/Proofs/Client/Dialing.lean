import Mathlib.Data.List.Rotate
import RemoteCall.Client.Dialer

/-!
# Going round the endpoints

A dialer tries its endpoints in one cyclic order, which begins where the last connection was opened.
A round in which every attempt fails tries each endpoint once, so the next round begins at the same
endpoint again. The first attempt that succeeds ends the dialing, and the next one begins there.
-/

namespace RemoteCall

/-- A failure with time left, after which the dialer goes on. -/
def DialAttempt.GoesOn {α : Type} (a : DialAttempt α) : Prop := ∃ f, a = .failed f false

namespace Dialer

def turn (d : Dialer) : List Nat := (List.range d.endpoints.length).rotate d.lastAddress

def place (d : Dialer) (tries : Nat) : Nat := (d.lastAddress + tries) % d.endpoints.length

def outcomes {α : Type} (d : Dialer) (tries : Nat) :
    List (Nat → DialAttempt α) → List (DialAttempt α)
  | [] => []
  | attempt :: rest => attempt (d.place tries) :: d.outcomes (tries + 1) rest

variable {d start : Dialer} {α : Type} {attempts : List (Nat → DialAttempt α)} {dialed : Dialed α}

theorem length_turn (d : Dialer) : d.turn.length = d.endpoints.length := by
  rw [turn, List.length_rotate, List.length_range]

theorem turn_perm (d : Dialer) : d.turn.Perm (List.range d.endpoints.length) :=
  List.rotate_perm _ _

theorem getElem?_turn {k : Nat} (hk : k < d.endpoints.length) :
    d.turn[k]? = some (d.place k) := by
  have hlt : k < (List.range d.endpoints.length).length := by
    rw [List.length_range]
    exact hk
  rw [turn, List.getElem?_rotate hlt, List.length_range, Nat.add_comm k]
  exact List.getElem?_range (Nat.mod_lt _ (by omega))

theorem place_length_add (d : Dialer) (tries : Nat) :
    d.place (d.endpoints.length + tries) = d.place tries := by
  rw [place, Nat.add_left_comm, Nat.add_mod_left, place]

/-- A round later the attempts are made at the same places. -/
theorem outcomes_length_add (d : Dialer) (tries : Nat) (attempts : List (Nat → DialAttempt α)) :
    d.outcomes (d.endpoints.length + tries) attempts = d.outcomes tries attempts := by
  induction attempts generalizing tries with
  | nil => rfl
  | cons attempt rest ih => rw [outcomes, outcomes, place_length_add, Nat.add_assoc, ih]

theorem place_mul_length (d : Dialer) (full : Nat) :
    d.place (full * d.endpoints.length) = d.position := by
  rw [place, Nat.mul_comm, Nat.add_mul_mod_self_left, position]

theorem turn_eq (d : Dialer) : d.turn = (List.range d.endpoints.length).map d.place := by
  apply List.ext_getElem?
  intro k
  by_cases hk : k < d.endpoints.length
  · rw [getElem?_turn hk, List.getElem?_map, List.getElem?_range hk]
    rfl
  · rw [List.getElem?_eq_none (by rw [length_turn]; omega),
      List.getElem?_eq_none (by rw [List.length_map, List.length_range]; omega)]

theorem map_place_add (d : Dialer) (tries : Nat) :
    (List.range (d.endpoints.length + tries)).map d.place =
      d.turn ++ (List.range tries).map d.place := by
  have hplace : d.place ∘ (d.endpoints.length + ·) = d.place := funext d.place_length_add
  rw [List.range_add, List.map_append, List.map_map, hplace, turn_eq]

/-! ## One round after another -/

/-- The dialer stands in a round that began as the first one did: it has tried the first positions
of the turn and comes to the one after them. -/
structure InRound (start d : Dialer) (round : List Nat) : Prop where
  endpoints_eq : d.endpoints = start.endpoints
  lt_length : round.length < start.endpoints.length
  round_eq : round = start.turn.take round.length
  position_eq : d.position = start.place round.length

theorem InRound.begin (h : d.endpoints ≠ []) : InRound d d [] where
  endpoints_eq := rfl
  lt_length := List.length_pos_iff.mpr h
  round_eq := rfl
  position_eq := rfl

theorem InRound.tried {round : List Nat} (h : InRound start d round) :
    round ++ [start.place round.length] = start.turn.take (round.length + 1) := by
  rw [List.take_add_one, getElem?_turn h.lt_length, ← h.round_eq]
  rfl

theorem InRound.position_advance {round : List Nat} (h : InRound start d round) :
    d.advance.position = start.place (round.length + 1) := by
  rw [advance, position, h.endpoints_eq, h.position_eq, Nat.mod_mod, place, Nat.mod_add_mod,
    Nat.add_assoc, place]

theorem InRound.moveOn {round : List Nat} (h : InRound start d round)
    (hlt : (round ++ [start.place round.length]).length < d.endpoints.length) :
    InRound start d.advance (round ++ [start.place round.length]) where
  endpoints_eq := h.endpoints_eq
  lt_length := by
    rw [← h.endpoints_eq]
    exact hlt
  round_eq := by
    rw [List.length_append, List.length_singleton]
    exact h.tried
  position_eq := by
    rw [List.length_append, List.length_singleton]
    exact h.position_advance

theorem InRound.length_eq {round : List Nat} (h : InRound start d round)
    (hge : ¬ (round ++ [start.place round.length]).length < d.endpoints.length) :
    round.length + 1 = start.endpoints.length := by
  rw [List.length_append, List.length_singleton, h.endpoints_eq] at hge
  have hlt := h.lt_length
  omega

/-- A round of failures is a whole turn, and ends where it began. -/
theorem InRound.startOver {round : List Nat} (h : InRound start d round)
    (hlength : round.length + 1 = start.endpoints.length) :
    round ++ [start.place round.length] = start.turn ∧ InRound start d.advance [] := by
  constructor
  · rw [h.tried, hlength, ← start.length_turn, List.take_length]
  · constructor
    · exact h.endpoints_eq
    · rw [List.length_nil]
      omega
    · rfl
    · rw [h.position_advance, hlength]
      exact start.place_length_add 0

/-! ## The whole way -/

/-- So many tries: full turns, and the beginning of one more. -/
def GoesRound (start : Dialer) (tries : Nat) (rounds : List (List Nat)) : Prop :=
  ∃ full part, full * start.endpoints.length + part = tries ∧ 0 < part ∧
    part ≤ start.endpoints.length ∧
    rounds = List.replicate full start.turn ++ [start.turn.take part]

/-- The positions tried are those of the cyclic order. -/
theorem GoesRound.flatten_eq {tries : Nat} {rounds : List (List Nat)}
    (h : start.GoesRound tries rounds) : rounds.flatten = (List.range tries).map start.place := by
  obtain ⟨full, part, rfl, hpos, hle, rfl⟩ := h
  induction full with
  | zero =>
    rw [turn_eq, ← List.map_take, List.take_range, Nat.min_eq_left hle, Nat.zero_mul, Nat.zero_add]
    exact List.append_nil _
  | succ full ih =>
    have hsucc : (full + 1) * start.endpoints.length + part =
        start.endpoints.length + (full * start.endpoints.length + part) := by
      rw [Nat.succ_mul]
      omega
    rw [List.replicate_succ, List.cons_append, List.flatten_cons, ih, hsucc, map_place_add]

/-- How dialing ends with the attempt behind so many failures. -/
structure Ends (start : Dialer) (failures : Nat) (last : DialAttempt α) (dialed : Dialed α) :
    Prop where
  endpoints_eq : dialed.dialer.endpoints = start.endpoints
  rounds : start.GoesRound (failures + 1) dialed.rounds
  connected : ∀ c, last = .connected c → dialed.result = .ok c ∧
    dialed.dialer.position = start.place failures
  failed : ∀ f isTimeOver, last = .failed f isTimeOver →
    isTimeOver = true ∧
    (∃ reason, dialed.result = .error (.connect reason) ∧
      (f = .connect reason ∨ (∀ other, f ≠ .connect other) ∧ reason = f.message)) ∧
    dialed.dialer.position = start.place (failures + 1)

theorem finalFailure_eq (f : Failure) : ∃ reason, finalFailure f = .connect reason ∧
    (f = .connect reason ∨ (∀ other, f ≠ .connect other) ∧ reason = f.message) := by
  cases f with
  | connect reason => exact ⟨reason, rfl, .inl rfl⟩
  | _ => exact ⟨_, rfl, .inr ⟨nofun, rfl⟩⟩

theorem InRound.goesRound {round : List Nat} (h : InRound start d round) :
    start.GoesRound (round.length + 1) [round ++ [start.place round.length]] := by
  refine ⟨0, round.length + 1, by omega, by omega, h.lt_length, ?_⟩
  rw [h.tried]
  rfl

theorem GoesRound.turn {tries : Nat} {rounds : List (List Nat)}
    (h : start.GoesRound tries rounds) :
    start.GoesRound (start.endpoints.length + tries) (start.turn :: rounds) := by
  obtain ⟨full, part, htries, hpos, hle, hrounds⟩ := h
  refine ⟨full + 1, part, ?_, hpos, hle, ?_⟩
  · rw [← htries, Nat.succ_mul]
    omega
  · rw [hrounds, List.replicate_succ, List.cons_append]

theorem Ends.turn {failures : Nat} {last : DialAttempt α}
    (h : Ends start failures last dialed) :
    Ends start (start.endpoints.length + failures) last
      { dialed with rounds := start.turn :: dialed.rounds } where
  endpoints_eq := h.endpoints_eq
  rounds := h.rounds.turn
  connected := by
    intro c hc
    obtain ⟨hresult, hposition⟩ := h.connected c hc
    exact ⟨hresult, hposition.trans (start.place_length_add failures).symm⟩
  failed := by
    intro f isTimeOver hf
    obtain ⟨htime, hreason, hposition⟩ := h.failed f isTimeOver hf
    exact ⟨htime, hreason, hposition.trans (start.place_length_add (failures + 1)).symm⟩

theorem ok_of_map_ok {ε β : Type} {f : α → β} {x : Except ε α} {b : β} (h : x.map f = .ok b) :
    ∃ a, x = .ok a ∧ f a = b := by
  cases x with
  | error e => cases h
  | ok a => exact ⟨a, rfl, Except.ok.inj h⟩

/-- Dialing goes on as long as attempts fail with time left, by induction on the attempts. -/
theorem InRound.follow {round : List Nat} (h : InRound start d round)
    (hfollow : d.follow round attempts = .ok dialed) :
    ∃ failed last later, start.outcomes round.length attempts = failed ++ last :: later ∧
      (∀ a ∈ failed, a.GoesOn) ∧ Ends start (round.length + failed.length) last dialed := by
  induction attempts generalizing d round dialed with
  | nil => cases hfollow
  | cons attempt rest ih =>
    rw [Dialer.follow, h.position_eq] at hfollow
    rw [outcomes]
    cases hattempt : attempt (start.place round.length) with
    | connected c =>
      rw [hattempt] at hfollow
      cases hfollow
      refine ⟨[], _, _, rfl, List.forall_mem_nil _, h.endpoints_eq, h.goesRound, ?_, ?_⟩
      · rintro c' ⟨⟩
        exact ⟨rfl, h.position_eq⟩
      · rintro f isTimeOver ⟨⟩
    | failed f isTimeOver =>
      rw [hattempt] at hfollow
      cases isTimeOver with
      | true =>
        cases hfollow
        obtain ⟨reason, hfinal, hreason⟩ := finalFailure_eq f
        refine ⟨[], _, _, rfl, List.forall_mem_nil _, h.endpoints_eq, h.goesRound, ?_, ?_⟩
        · rintro c ⟨⟩
        · rintro f' isTimeOver ⟨⟩
          exact ⟨rfl, ⟨reason, by rw [hfinal], hreason⟩, h.position_advance⟩
      | false =>
        have hgoesOn : DialAttempt.GoesOn (.failed f false : DialAttempt α) := ⟨f, rfl⟩
        dsimp only at hfollow
        split_ifs at hfollow with hlt
        · obtain ⟨failed, last, later, houtcomes, hfailed, hends⟩ := ih (h.moveOn hlt) hfollow
          rw [List.length_append, List.length_singleton] at houtcomes hends
          refine ⟨.failed f false :: failed, last, later, by rw [houtcomes]; rfl,
            List.forall_mem_cons.mpr ⟨hgoesOn, hfailed⟩, ?_⟩
          rw [List.length_cons, Nat.add_comm failed.length, ← Nat.add_assoc]
          exact hends
        · have hlength := h.length_eq hlt
          obtain ⟨hturn, hnew⟩ := h.startOver hlength
          obtain ⟨dialed, hrest, rfl⟩ := ok_of_map_ok hfollow
          obtain ⟨failed, last, later, houtcomes, hfailed, hends⟩ := ih hnew hrest
          rw [List.length_nil] at houtcomes hends
          rw [← start.outcomes_length_add, ← hlength, Nat.add_zero] at houtcomes
          rw [Nat.zero_add] at hends
          refine ⟨.failed f false :: failed, last, later, by rw [houtcomes]; rfl,
            List.forall_mem_cons.mpr ⟨hgoesOn, hfailed⟩, ?_⟩
          rw [hturn, List.length_cons, Nat.add_comm failed.length, ← Nat.add_assoc, hlength]
          exact hends.turn

/-- Dialing has not come to an end while all attempts have failed with time left. -/
theorem InRound.follow_eq_error_iff {round : List Nat} (h : InRound start d round) :
    (∃ next, d.follow round attempts = .error next) ↔ ∀ a ∈ start.outcomes round.length attempts, a.GoesOn := by
  induction attempts generalizing d round with
  | nil => exact iff_of_true ⟨_, rfl⟩ (List.forall_mem_nil _)
  | cons attempt rest ih =>
    rw [Dialer.follow, h.position_eq, outcomes, List.forall_mem_cons]
    cases hattempt : attempt (start.place round.length) with
    | connected c => exact iff_of_false (fun ⟨_, h⟩ => nomatch h) fun hall => nomatch hall.1
    | failed f isTimeOver =>
      cases isTimeOver with
      | true => exact iff_of_false (fun ⟨_, h⟩ => nomatch h) fun hall => nomatch hall.1
      | false =>
        have hgoesOn : DialAttempt.GoesOn (.failed f false : DialAttempt α) := ⟨f, rfl⟩
        rw [and_iff_right hgoesOn]
        dsimp only
        split_ifs with hlt
        · have hrest := ih (h.moveOn hlt)
          rwa [List.length_append, List.length_singleton] at hrest
        · have hlength := h.length_eq hlt
          have hrest := ih (h.startOver hlength).2
          rw [List.length_nil, ← start.outcomes_length_add, ← hlength, Nat.add_zero] at hrest
          rw [← hrest]
          cases d.advance.follow [] rest with
          | error next => exact iff_of_true ⟨next, rfl⟩ ⟨next, rfl⟩
          | ok dialed => exact iff_of_false (fun ⟨_, h⟩ => nomatch h) (fun ⟨_, h⟩ => nomatch h)

theorem follow_cons (round : List Nat) (attempt : Nat → DialAttempt α)
    (rest : List (Nat → DialAttempt α)) :
    (d.follow round (attempt :: rest)).map Dialed.result =
      match d.follow round [attempt] with
      | .ok dialed => .ok dialed.result
      | .error (next, round) => (next.follow round rest).map Dialed.result := by
  rw [follow, follow]
  cases attempt d.position with
  | connected c => rfl
  | failed f isTimeOver =>
    cases isTimeOver with
    | true => rfl
    | false =>
      dsimp only
      split_ifs
      · rfl
      · change ((d.advance.follow [] rest).map _).map _ =
          (d.advance.follow [] rest).map Dialed.result
        cases d.advance.follow [] rest <;> rfl

theorem dial?_eq_some_iff (h : d.endpoints ≠ []) :
    d.dial? attempts = some dialed ↔ d.follow [] attempts = .ok dialed := by
  rw [dial?, if_neg (by rwa [List.isEmpty_iff])]
  cases d.follow [] attempts <;> simp [Except.toOption]

theorem dial?_eq_none_iff (h : d.endpoints ≠ []) :
    d.dial? attempts = none ↔ ∃ next, d.follow [] attempts = .error next := by
  rw [dial?, if_neg (by rwa [List.isEmpty_iff])]
  cases d.follow [] attempts <;> simp [Except.toOption]

/-- A dialer that has endpoints goes round them from the one that worked last. Dialing ends with the
first attempt that succeeds, which the next dialing tries first, or with the first failure when the
time is over, whose message it then has. A turn has every position once, and comes back to the
first. -/
theorem dial_goes_round (d : Dialer) (hd : d.endpoints ≠ [])
    (attempts : List (Nat → DialAttempt α)) :
    d.turn = (List.range d.endpoints.length).map d.place ∧
    d.turn.Perm (List.range d.endpoints.length) ∧
    (∀ full, d.place (full * d.endpoints.length) = d.position) ∧
    (d.dial? attempts = none ↔ ∀ a ∈ d.outcomes 0 attempts, a.GoesOn) ∧
    ∀ dialed, d.dial? attempts = some dialed →
      ∃ failed last later, d.outcomes 0 attempts = failed ++ last :: later ∧
        (∀ a ∈ failed, a.GoesOn) ∧ Ends d failed.length last dialed ∧
        dialed.rounds.flatten = (List.range (failed.length + 1)).map d.place ∧
        ∀ c, last = .connected c → ∀ (attempts' : List (Nat → DialAttempt α)) again,
          dialed.dialer.dial? attempts' = some again →
          again.rounds.flatten.head? = dialed.rounds.flatten.getLast? := by
  have hbegin := InRound.begin hd
  refine ⟨d.turn_eq, d.turn_perm, d.place_mul_length, ?_, ?_⟩
  · rw [dial?_eq_none_iff hd]
    exact hbegin.follow_eq_error_iff
  · intro dialed hdialed
    rw [dial?_eq_some_iff hd] at hdialed
    obtain ⟨failed, last, later, houtcomes, hfailed, hends⟩ := hbegin.follow hdialed
    rw [List.length_nil, Nat.zero_add] at hends
    have htried := hends.rounds.flatten_eq
    refine ⟨failed, last, later, houtcomes, hfailed, hends, htried, ?_⟩
    intro c hc attempts' again hagain
    have hd' : dialed.dialer.endpoints ≠ [] := by
      rw [hends.endpoints_eq]
      exact hd
    rw [dial?_eq_some_iff hd'] at hagain
    obtain ⟨failed', last', later', -, -, hends'⟩ := (InRound.begin hd').follow hagain
    have hhead : again.rounds.flatten.head? = some dialed.dialer.position := by
      rw [hends'.rounds.flatten_eq, List.range_succ_eq_map]
      rfl
    have hlast : dialed.rounds.flatten.getLast? = some (d.place failed.length) := by
      rw [htried, List.range_succ, List.map_append]
      exact List.getLast?_concat
    rw [hhead, hlast, (hends.connected c hc).2]

/-- Two endpoints, one of them listed twice. Nobody listens in the first round, and then somebody
does at the last position, which is reached in the second round and which the next dialing tries
first. -/
theorem dial_goes_round_twice :
    let d : Dialer := ⟨[.wildcard 1, .wildcard 2, .wildcard 1], .default, 4⟩
    let nobody : Nat → DialAttempt Nat := fun _ => .failed (timedOut (.wildcard 1)) false
    let last : Nat → DialAttempt Nat := fun position =>
      if position = 2 then .connected position else nobody position
    let dialed : Dialed Nat := ⟨.ok 2, [[1, 2, 0], [1, 2]], { d with lastAddress := 2 }⟩
    d.dial? [nobody, nobody, nobody, last, last] = some dialed ∧
      ∀ (attempts : List (Nat → DialAttempt Nat)) again,
        dialed.dialer.dial? attempts = some again → again.rounds.flatten.head? = some 2 := by
  intro d nobody last dialed
  have hdialed : d.dial? [nobody, nobody, nobody, last, last] = some dialed := by cbv
  obtain ⟨-, -, -, -, h⟩ := dial_goes_round d (by decide) [nobody, nobody, nobody, last, last]
  obtain ⟨failed, final, later, -, -, hends, -, hnext⟩ := h dialed hdialed
  refine ⟨hdialed, ?_⟩
  cases hfinal : final with
  | connected c => exact hnext c hfinal
  | failed f isTimeOver =>
    obtain ⟨-, ⟨reason, hresult, -⟩, -⟩ := hends.failed f isTimeOver hfinal
    cases hresult

end Dialer

end RemoteCall
