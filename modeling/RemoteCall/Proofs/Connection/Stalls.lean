import RemoteCall.Proofs.Connection.Corruption

/-!
# Stalled connections

A look at the clock closes a connection exactly if a read, a write or a callback of it has waited
for longer than the limit. A read counts only while a reply is expected, so a connection on which
nothing else happens may be idle for as long as it likes.
-/

namespace RemoteCall

namespace Connection

variable {c : Connection} {mode : ReadMode} {now since : Nat}

inductive WaitsSince (c : Connection) (since : Nat) : Prop
  | read (h : c.readingSince? = some since)
  | write (h : c.writingSince? = some since)
  | callback {e : UInt64 × PendingCallback} (h : e ∈ c.callbacks.entries) (hsince : e.2.since = since)

theorem isStalled_iff (c : Connection) (now : Nat) (since? : Option Nat) :
    c.isStalled now since? = true ↔
      ∃ since, since? = some since ∧ c.settings.stallTimeout < now - since := by
  cases since? <;> simp [isStalled]

/-- If any callback has waited too long, the one that waits longest has. -/
theorem isStalled_oldest?_iff (c : Connection) (now : Nat) :
    c.isStalled now c.callbacks.oldest? = true ↔
      ∃ e ∈ c.callbacks.entries, c.settings.stallTimeout < now - e.2.since := by
  rw [isStalled_iff]
  constructor
  · rintro ⟨since, holdest, hlimit⟩
    obtain ⟨e, he, rfl⟩ := List.mem_map.mp (List.min?_mem holdest)
    exact ⟨e, he, hlimit⟩
  · rintro ⟨e, he, hlimit⟩
    have hmem : e.2.since ∈ c.callbacks.entries.map (·.2.since) := List.mem_map_of_mem he
    cases holdest : c.callbacks.oldest? with
    | none =>
      rw [CallbackTable.oldest?, List.min?_eq_none_iff] at holdest
      rw [holdest] at hmem
      cases hmem
    | some since =>
      have hle : since ≤ e.2.since := (List.min?_eq_some_iff.mp holdest).2 _ hmem
      exact ⟨since, rfl, by omega⟩

theorem stalls_iff (c : Connection) (now : Nat) :
    (c.isStalled now c.readingSince? || c.isStalled now c.writingSince? ||
      c.isStalled now c.callbacks.oldest?) = true ↔
      ∃ since, c.WaitsSince since ∧ c.settings.stallTimeout < now - since := by
  rw [Bool.or_eq_true, Bool.or_eq_true, isStalled_iff, isStalled_iff, isStalled_oldest?_iff]
  constructor
  · rintro ((⟨since, h, hlimit⟩ | ⟨since, h, hlimit⟩) | ⟨e, he, hlimit⟩)
    · exact ⟨since, .read h, hlimit⟩
    · exact ⟨since, .write h, hlimit⟩
    · exact ⟨_, .callback he rfl, hlimit⟩
  · rintro ⟨since, h, hlimit⟩
    cases h with
    | read h => exact .inl (.inl ⟨since, h, hlimit⟩)
    | write h => exact .inl (.inr ⟨since, h, hlimit⟩)
    | callback he hsince => exact .inr ⟨_, he, hsince ▸ hlimit⟩

/-- A check closes a connection if something has waited too long, and else leaves it as it is. -/
theorem timedCheck_cases (c : Connection) (now : Nat) :
    (∃ since, c.WaitsSince since ∧ c.settings.stallTimeout < now - since) ∧
        c.timedCheck now = c.close ∨
      (∀ since, c.WaitsSince since → now - since ≤ c.settings.stallTimeout) ∧
        c.timedCheck now = c := by
  unfold timedCheck
  split_ifs with hstalled
  · exact .inl ⟨(c.stalls_iff now).mp hstalled, rfl⟩
  · refine .inr ⟨fun since h => ?_, rfl⟩
    by_contra hlimit
    exact hstalled ((c.stalls_iff now).mpr ⟨since, h, Nat.lt_of_not_le hlimit⟩)

theorem isClosed_timedCheck_iff (c : Connection) (now : Nat) :
    (c.timedCheck now).isClosed = true ↔ c.isClosed = true ∨
      ∃ since, c.WaitsSince since ∧ c.settings.stallTimeout < now - since := by
  rcases c.timedCheck_cases now with ⟨hstalled, heq⟩ | ⟨hfine, heq⟩
  · rw [heq]
    exact iff_of_true c.isClosed_close (.inr hstalled)
  · rw [heq]
    refine ⟨.inl, fun h => h.resolve_right fun ⟨since, hsince, hlimit⟩ => ?_⟩
    exact absurd (hfine since hsince) (Nat.not_le_of_lt hlimit)

theorem waitsSince_startReading (hread : c.readingSince? = none) :
    (c.startReading mode now).WaitsSince since ↔
      c.WaitsSince since ∨ mode = .reply ∧ since = now := by
  cases mode with
  | idle => simp [startReading]
  | reply =>
    constructor
    · rintro (h | h | ⟨h, hsince⟩)
      · exact .inr ⟨rfl, (Option.some.inj h).symm⟩
      · exact .inl (.write h)
      · exact .inl (.callback h hsince)
    · rintro (h | ⟨-, rfl⟩)
      · cases h with
        | read h => rw [hread] at h; cases h
        | write h => exact .write h
        | callback h hsince => exact .callback h hsince
      · exact .read rfl

/-- Where nothing else waits, a check closes an open connection for a read only if that expects a
reply. -/
theorem isClosed_timedCheck_startReading_iff (hopen : c.isClosed = false)
    (hquiet : ∀ since, ¬ c.WaitsSince since) (mode : ReadMode) (now later : Nat) :
    ((c.startReading mode now).timedCheck later).isClosed = true ↔
      mode = .reply ∧ c.settings.stallTimeout < later - now := by
  have hread : c.readingSince? = none := by
    cases h : c.readingSince? with
    | none => rfl
    | some since => exact absurd (.read h) (hquiet since)
  have hsame : (c.startReading mode now).isClosed = false ∧
      (c.startReading mode now).settings = c.settings := by
    cases mode <;> exact ⟨hopen, rfl⟩
  simp only [isClosed_timedCheck_iff, hsame, waitsSince_startReading hread, hquiet]
  simp

end Connection

end RemoteCall
