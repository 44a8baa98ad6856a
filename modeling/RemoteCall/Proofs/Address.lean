import Mathlib.Data.List.Forall2
import RemoteCall.Address
import RemoteCall.Proofs.Decimal.Reading
import RemoteCall.Proofs.Text.Blank
import RemoteCall.Proofs.Text.Split

/-!
# Endpoints written out and read again

An entry loses the brackets around its host before it loses the blanks there. A bracket behind a
blank therefore stays in the host, and it is the outermost character once the endpoint is written
out: reading drops it then. Every other endpoint comes back as it was.
-/

namespace RemoteCall.Endpoint

variable {e : Endpoint} {es : List Endpoint} {host text : String} {port : UInt16}

/-- The host has no bracket at an end where reading drops it. -/
def IsBare (e : Endpoint) : Prop :=
  ∀ host ∈ e.host?, host.toList.head? ≠ some '[' ∧ host.toList.getLast? ≠ some ']'

instance (e : Endpoint) : Decidable e.IsBare :=
  inferInstanceAs (Decidable (∀ host ∈ e.host?,
    host.toList.head? ≠ some '[' ∧ host.toList.getLast? ≠ some ']'))

structure IsWord (host : String) : Prop where
  nonempty : host ≠ ""
  trimmed : Text.trim host = host
  joinable : ',' ∉ host.toList

structure IsHost (host : String) : Prop extends IsWord host where
  named : Text.equalIgnoringCase host "localhost" = false

def readHost (host : String) (port : UInt16) : Endpoint :=
  ofHost (Text.trim (String.ofList (dropBrackets host.toList))) port

def reread (e : Endpoint) : Endpoint := readHost (e.host?.getD "localhost") e.port

/-! ## Hosts -/

theorem ofHost_port (host : String) (port : UInt16) : (ofHost host port).port = port := by
  unfold ofHost
  split <;> rfl

theorem ofHost_of_isHost (h : IsHost host) (port : UInt16) : ofHost host port = ⟨some host, port⟩ :=
  if_neg (by simp [h.nonempty, h.named])

theorem host?_ofHost {h : String} (hhost : (ofHost host port).host? = some h) :
    h = host ∧ h ≠ "" ∧ Text.equalIgnoringCase h "localhost" = false := by
  rw [ofHost] at hhost
  split at hhost
  · cases hhost
  · next hnamed =>
    cases hhost
    rw [not_or, Bool.not_eq_true] at hnamed
    exact ⟨rfl, hnamed⟩

theorem dropBrackets_eq_self_iff {cs : List Char} :
    dropBrackets cs = cs ↔ cs.head? ≠ some '[' ∧ cs.getLast? ≠ some ']' := by
  have hends : dropBrackets cs = cs ↔
      (∀ c ∈ cs.head?, (c == '[') = false) ∧ ∀ c ∈ cs.getLast?, (c == ']') = false :=
    Text.rdropWhile_dropWhile_eq_self_iff
  rw [hends]
  refine and_congr ?_ ?_ <;> simp only [beq_eq_false_iff_ne] <;>
    exact ⟨fun h hc => h _ hc rfl, fun h c hc he => h (he ▸ hc)⟩

theorem dropBrackets_isInfix (cs : List Char) : dropBrackets cs <:+: cs :=
  Text.rdropWhile_dropWhile_isInfix cs

theorem trim_dropBrackets_eq_self_iff (htrim : Text.trim host = host) :
    Text.trim (String.ofList (dropBrackets host.toList)) = host ↔
      host.toList.head? ≠ some '[' ∧ host.toList.getLast? ≠ some ']' := by
  rw [← dropBrackets_eq_self_iff]
  constructor
  · intro h
    have hchars : Text.trimChars (dropBrackets host.toList) = host.toList := by
      simpa [Text.trim] using congrArg String.toList h
    have hle := (Text.trimChars_isInfix (dropBrackets host.toList)).length_le
    rw [hchars] at hle
    exact (dropBrackets_isInfix host.toList).eq_of_length_le hle
  · intro h
    rw [h, String.ofList_toList, htrim]

theorem readHost_localhost (port : UInt16) : readHost "localhost" port = wildcard port := by
  have hread : Text.trim (String.ofList (dropBrackets "localhost".toList)) = "localhost" := by
    decide
  rw [readHost, hread]
  exact if_pos (Or.inr (by decide))

/-! ## One endpoint -/

theorem mem_of_mem_hostAndPort {entry : String} {c : Char}
    (hc : c ∈ (hostAndPort entry).1.toList) : c ∈ entry.toList := by
  rw [hostAndPort] at hc
  split at hc
  · next before after hsplit =>
    rw [String.toList_ofList] at hc
    rw [← Text.append_of_splitLast? hsplit, String.append_assoc, String.toList_append]
    exact List.mem_append_left _ ((dropBrackets_isInfix _).subset hc)
  · cases hc

theorem exists_of_parse (h : parse text = .ok e) :
    ∃ port, e = ofHost (Text.trim (hostAndPort (Text.trim text)).1) port := by
  unfold parse at h
  dsimp only at h
  split at h
  · next port hport => exact ⟨port, (Except.ok.inj h).symm⟩
  · cases h

theorem parse_of_hostAndPort {before after : String} (htrim : Text.trim text = text)
    (hparts : hostAndPort text = (before, after))
    (hport : Decimal.readPort (Text.trim after) = .ok port) :
    parse text = .ok (ofHost (Text.trim before) port) := by
  unfold parse
  rw [htrim]
  dsimp only
  rw [hparts]
  dsimp only
  rw [hport]

/-- Reading leaves no blanks around a host and takes nothing else for one than what is written. -/
theorem isHost_of_parse (h : parse text = .ok e) (hcomma : ',' ∉ text.toList) :
    ∀ host ∈ e.host?, IsHost host := by
  intro host hhost
  obtain ⟨port, he⟩ := exists_of_parse h
  rw [he, Option.mem_def] at hhost
  obtain ⟨rfl, hne, hnamed⟩ := host?_ofHost hhost
  refine ⟨⟨hne, Text.trim_trim _, fun hc => hcomma ?_⟩, hnamed⟩
  have hin := mem_of_mem_hostAndPort (Text.mem_of_mem_trim hc)
  exact Text.mem_of_mem_trim hin

theorem isWord_shown (h : ∀ host ∈ e.host?, IsHost host) : IsWord (e.host?.getD "localhost") := by
  cases hhost : e.host? with
  | none => exact ⟨by decide, by decide, by decide⟩
  | some host => exact (h host hhost).toIsWord

theorem trim_entry (hhost : IsWord host) (n : Nat) :
    Text.trim (host ++ ":" ++ Nat.repr n) = host ++ ":" ++ Nat.repr n := by
  obtain ⟨hne, htrim, -⟩ := hhost
  rw [Text.trim_eq_self_iff, Text.trimChars_eq_self_iff] at htrim ⊢
  obtain ⟨digit, digits, hrepr, -⟩ := Decimal.exists_repr_eq_cons n
  cases hhost : host.toList with
  | nil => exact absurd (String.toList_eq_nil_iff.mp hhost) hne
  | cons c cs =>
    rw [hhost] at htrim
    simp only [String.toList_append, hhost]
    refine ⟨fun d hd => htrim.1 d hd, fun d hd => ?_⟩
    rw [List.getLast?_append_of_ne_nil _ (by simp [hrepr])] at hd
    exact Decimal.isBlank_of_mem_repr (List.mem_of_getLast? hd)

/-- The last colon stands in front of the port, and the entry has no blanks at its ends. -/
theorem parse_entry (hhost : IsWord host) (port : UInt16) :
    parse (host ++ ":" ++ Nat.repr port.toNat) = .ok (readHost host port) := by
  have hcolon : ':' ∉ (Nat.repr port.toNat).toList := fun hc =>
    absurd (Decimal.isDigit_of_mem_repr hc) (by decide)
  have hsplit : Text.splitLast? ':' (host ++ ":" ++ Nat.repr port.toNat) =
      some (host, Nat.repr port.toNat) := Text.splitLast?_append hcolon host
  have hparts : hostAndPort (host ++ ":" ++ Nat.repr port.toNat) =
      (String.ofList (dropBrackets host.toList), Nat.repr port.toNat) := by
    rw [hostAndPort, hsplit]
  refine parse_of_hostAndPort (trim_entry hhost _) hparts ?_
  rw [Decimal.trim_repr, Decimal.readPort_repr]

theorem parse_display (h : ∀ host ∈ e.host?, IsHost host) : parse e.display = .ok e.reread :=
  parse_entry (isWord_shown h) e.port

theorem reread_port (e : Endpoint) : e.reread.port = e.port := by
  rw [reread, readHost, ofHost_port]

theorem reread_eq_self_iff (h : ∀ host ∈ e.host?, IsHost host) : e.reread = e ↔ e.IsBare := by
  obtain ⟨host?, port⟩ := e
  cases host? with
  | none => exact iff_of_true (readHost_localhost port) (by rintro host ⟨⟩)
  | some host =>
    have hhost := h host rfl
    have hbare : IsBare ⟨some host, port⟩ ↔
        Text.trim (String.ofList (dropBrackets host.toList)) = host := by
      rw [trim_dropBrackets_eq_self_iff hhost.trimmed]
      exact ⟨fun h => h host rfl, fun h _ hmem => Option.mem_some_iff.mp hmem ▸ h⟩
    rw [hbare]
    change ofHost (Text.trim (String.ofList (dropBrackets host.toList))) port = _ ↔ _
    constructor
    · intro hsame
      exact (host?_ofHost (congrArg Endpoint.host? hsame)).1.symm
    · intro hsame
      rw [hsame, ofHost_of_isHost hhost]

/-- A text without blanks has no bracket that a blank hides. -/
theorem isBare_of_parse (h : parse text = .ok e)
    (hblank : ∀ c ∈ text.toList, Text.isBlank c = false) : e.IsBare := by
  intro host hhost
  obtain ⟨port, he⟩ := exists_of_parse h
  rw [he, Option.mem_def] at hhost
  obtain ⟨rfl, -, -⟩ := host?_ofHost hhost
  rw [Text.trim_eq_self_of_forall hblank]
  have hhostBlank : ∀ c ∈ (hostAndPort text).1.toList, Text.isBlank c = false :=
    fun c hc => hblank c (mem_of_mem_hostAndPort hc)
  rw [Text.trim_eq_self_of_forall hhostBlank, ← dropBrackets_eq_self_iff, hostAndPort]
  split
  · rw [String.toList_ofList]
    exact Text.rdropWhile_dropWhile_eq_self_iff.mpr (Text.ends_rdropWhile_dropWhile _)
  · rfl

/-! ## Connection strings -/

theorem mapM_eq_ok_iff {α β : Type} {f : α → Except Failure β} {xs : List α} {ys : List β} :
    xs.mapM f = .ok ys ↔ List.Forall₂ (fun x y => f x = .ok y) xs ys := by
  induction xs generalizing ys with
  | nil =>
    rw [List.mapM_nil, List.forall₂_nil_left_iff]
    exact ⟨fun h => (Except.ok.inj h).symm, fun h => congrArg Except.ok h.symm⟩
  | cons x xs ih =>
    rw [List.mapM_cons, List.forall₂_cons_left_iff]
    simp only [← ih]
    cases f x with
    | error fault => simp [Bind.bind, Except.bind]
    | ok y =>
      cases xs.mapM f with
      | error fault => simp [Bind.bind, Except.bind]
      | ok ys' => simp [Bind.bind, Except.bind, pure, Except.pure, eq_comm]

theorem parseAll_eq_ok_iff :
    parseAll text = .ok es ↔
      es ≠ [] ∧ List.Forall₂ (fun entry e => parse entry = .ok e) (entries text) es := by
  rw [← mapM_eq_ok_iff, parseAll]
  cases hmap : (entries text).mapM parse with
  | error f => simp
  | ok read => cases read <;> cases es <;> simp

theorem exists_entry_of_parseAll (h : parseAll text = .ok es) (he : e ∈ es) :
    ∃ entry ∈ entries text, parse entry = .ok e := by
  obtain ⟨-, hread⟩ := parseAll_eq_ok_iff.mp h
  generalize entries text = read at hread ⊢
  clear h
  induction hread with
  | nil => cases he
  | cons hparse _ ih =>
    rcases List.mem_cons.mp he with rfl | he
    · exact ⟨_, List.mem_cons_self .., hparse⟩
    · obtain ⟨entry, hentry, hparse⟩ := ih he
      exact ⟨entry, List.mem_cons_of_mem _ hentry, hparse⟩

theorem mem_of_mem_entries {entry : String} (h : entry ∈ entries text) :
    ',' ∉ entry.toList ∧ ∀ c ∈ entry.toList, c ∈ text.toList := by
  obtain ⟨part, hpart, rfl⟩ := List.mem_map.mp (List.mem_of_mem_filter h)
  exact ⟨fun hc => Text.notMem_of_mem_split hpart (Text.mem_of_mem_trim hc),
    fun c hc => Text.mem_of_mem_split hpart (Text.mem_of_mem_trim hc)⟩

/-- What is written out cuts into the entries it was joined from. -/
theorem entries_join {t : String} {ts : List String} (h : ∀ s ∈ t :: ts, IsWord s) :
    entries (Text.join "," (t :: ts)) = t :: ts := by
  have hsplit : Text.split ',' (Text.join "," (t :: ts)) = t :: ts :=
    Text.split_join fun s hs => (h s hs).joinable
  have htrim : (t :: ts).map Text.trim = t :: ts :=
    (List.map_congr_left fun s hs => (h s hs).trimmed).trans (List.map_id _)
  rw [entries, hsplit, htrim, List.filter_eq_self]
  exact fun s hs => decide_eq_true (h s hs).nonempty

theorem isHost_of_parseAll (h : parseAll text = .ok es) :
    ∀ e ∈ es, ∀ host ∈ e.host?, IsHost host := by
  intro e he
  obtain ⟨entry, hentry, hparse⟩ := exists_entry_of_parseAll h he
  exact isHost_of_parse hparse (mem_of_mem_entries hentry).1

theorem isWord_display (h : ∀ host ∈ e.host?, IsHost host) : IsWord e.display := by
  have hshown := isWord_shown h
  have hport : ',' ∉ (Nat.repr e.port.toNat).toList := fun hc =>
    absurd (Decimal.isDigit_of_mem_repr hc) (by decide)
  refine ⟨?_, trim_entry hshown _, ?_⟩
  · simp [display, textWith]
  · simpa [display, textWith, hshown.joinable] using hport

theorem parseAll_join_display (hne : es ≠ []) (h : ∀ e ∈ es, ∀ host ∈ e.host?, IsHost host) :
    parseAll (Text.join "," (es.map display)) = .ok (es.map reread) := by
  have hentries : entries (Text.join "," (es.map display)) = es.map display := by
    obtain ⟨first, rest, rfl⟩ := List.exists_cons_of_ne_nil hne
    apply entries_join
    rw [← List.map_cons, List.forall_mem_map]
    exact fun e he => isWord_display (h e he)
  rw [parseAll_eq_ok_iff, hentries, List.forall₂_map_left_iff, List.forall₂_map_right_iff,
    List.forall₂_same]
  exact ⟨by simpa using hne, fun e he => parse_display (h e he)⟩

theorem map_reread_eq_self_iff (h : ∀ e ∈ es, ∀ host ∈ e.host?, IsHost host) :
    es.map reread = es ↔ ∀ e ∈ es, e.IsBare := by
  have hmap : es.map reread = es.map id ↔ ∀ e ∈ es, e.reread = id e := List.map_inj_left
  rw [List.map_id] at hmap
  rw [hmap]
  exact forall₂_congr fun e he => reread_eq_self_iff (h e he)

/-- A string without blanks comes back whole. -/
theorem parseAll_display_of_no_blank (h : parseAll text = .ok es)
    (hblank : ∀ c ∈ text.toList, Text.isBlank c = false) :
    parseAll (Text.join "," (es.map display)) = .ok es := by
  have hhosts := isHost_of_parseAll h
  rw [parseAll_join_display (parseAll_eq_ok_iff.mp h).1 hhosts,
    (map_reread_eq_self_iff hhosts).mpr]
  intro e he
  obtain ⟨entry, hentry, hparse⟩ := exists_entry_of_parseAll h he
  exact isBare_of_parse hparse fun c hc => hblank c ((mem_of_mem_entries hentry).2 c hc)

/-- Of an accepted string every endpoint keeps its place and its port when it is written out and
read again, and it is the same endpoint exactly if its host is bare. -/
theorem parseAll_display_iff (h : parseAll text = .ok es) :
    (parseAll (Text.join "," (es.map display)) = .ok es ↔ ∀ e ∈ es, e.IsBare) ∧
      ∃ again, parseAll (Text.join "," (es.map display)) = .ok again ∧
        List.Forall₂ (fun e e' => e'.port = e.port ∧ (e' = e ↔ e.IsBare)) es again := by
  have hhosts := isHost_of_parseAll h
  have hagain := parseAll_join_display (parseAll_eq_ok_iff.mp h).1 hhosts
  refine ⟨?_, es.map reread, hagain, ?_⟩
  · rw [hagain, Except.ok.injEq, map_reread_eq_self_iff hhosts]
  · rw [List.forall₂_map_right_iff, List.forall₂_same]
    exact fun e he => ⟨reread_port e, reread_eq_self_iff (hhosts e he)⟩

/-- Blanks around an entry and a wildcard written as a name. -/
theorem parseAll_display_iff_pair :
    let text := "\t[::1]:9 ,, LocalHost: 80"
    let es : List Endpoint := [⟨some "::1", 9⟩, wildcard 80]
    parseAll text = .ok es ∧ parseAll (Text.join "," (es.map display)) = .ok es := by
  intro text es
  have hread : parseAll text = .ok es := by decide
  exact ⟨hread, (parseAll_display_iff hread).1.mpr (by decide)⟩

/-- The blank keeps the bracket in the host, and without the blank it is no part of it. -/
theorem bracket_behind_blank_lost :
    let e : Endpoint := ⟨some "::1]", 9⟩
    parseAll "[::1] :9" = .ok [e] ∧
      parseAll (Text.join "," ([e].map display)) = .ok [⟨some "::1", 9⟩] := by
  decide

end RemoteCall.Endpoint
