import Windlass.GuardSound
import Windlass.StopSound
import Windlass.ReconcileSound
import Windlass.RowAt

/-!
# Torrents of the owner

A torrent Windlass only found in qBittorrent is the owner's. No command stops or
removes it, and no command stops a torrent that has finished or removes one that
MAM still counts. A held torrent that finished is let run before the next command
is chosen.
-/

namespace Windlass

def Records.Tame (r : Records) : Prop :=
  ∀ id row, r.row id = some row → row.origin = .adopted → row.desired = .active ∨ row.desired = .snatched

section
variable {P : Records → MamTorrentId → TorrentHash → Prop} {r r' : Records}
  {out : List (List TorrentRecord)}

theorem Records.Tame.of_row (h : r.Tame) {id : RecordId} {f : TorrentRecord → TorrentRecord}
    (hr : ∀ id', r'.row id' = if id = id' then (r.row id').map f else r.row id')
    (hf : ∀ row, r.row id = some row → (f row).origin = .adopted →
      (f row).desired = .active ∨ (f row).desired = .snatched) :
    r'.Tame := by
  intro id' row hrow ho
  rw [hr] at hrow
  split at hrow
  · next hid =>
    subst hid
    obtain ⟨row', hrow', rfl⟩ := Option.map_eq_some_iff.mp hrow
    exact hf row' hrow' ho
  · exact h id' row hrow ho

theorem Records.Tame.recordSeen (h : r.Tame) (now : ClockReading) (id : RecordId) (torrent : Torrent) :
    (r.recordSeen now id torrent).Tame :=
  h.of_row (recordSeen_row r now id torrent) fun row hrow => h id row hrow

theorem Records.Change.tame (hc : r.Change P out r') (hi : r.Indexed) (h : r.Tame) : r'.Tame := by
  have hentry {id : RecordId} {entry : Entry} (he : r.entries[id]? = some entry) :
      r.row id = some entry.record := by
    rw [Records.row, he]
    rfl
  cases hc with
  | saved now =>
    intro id row hrow
    rw [save_row] at hrow
    exact h id row hrow
  | bookmarked new =>
    intro id row hrow ho
    rw [bookmark_row] at hrow
    split at hrow
    · cases hrow
      cases ho
    · exact h id row hrow ho
  | found now hash torrent =>
    refine Records.Tame.recordSeen ?_ now _ torrent
    intro id row hrow ho
    rw [adopt_row] at hrow
    split at hrow
    · cases hrow
      exact .inl rfl
    · exact h id row hrow ho
  | seen now id torrent => exact h.recordSeen now id torrent
  | snatched id => exact h.of_row (setDesired_row r id .snatched) fun _ _ _ => .inr rfl
  | requeued id entry he =>
    intro id' row hrow ho
    rw [insert_row] at hrow
    split at hrow
    · cases hrow
      cases ho
    · exact h id' row hrow ho
  | resumed id => exact h.of_row (setDesired_row r id .active) fun _ _ _ => .inl rfl
  | held id hg =>
    obtain ⟨entry, he, -, ho⟩ := hg hi
    refine h.of_row (setDesired_row r id .held) fun row hrow ho' => ?_
    rw [hentry he] at hrow
    cases hrow
    exact absurd ho' ho
  | linked id mam hash entry hm he hq =>
    have hown : entry.record.origin ≠ .adopted := by
      intro ho
      have hd := h id entry.record (hentry he) ho
      rw [hq] at hd
      simp at hd
    intro id' row hrow ho
    rw [link_row, hentry he] at hrow
    split at hrow
    · obtain ⟨row', -, rfl⟩ := Option.map_eq_some_iff.mp hrow
      exact absurd ho hown
    · split at hrow
      · next hid =>
        rw [← hid, hentry he] at hrow
        cases hrow
        exact absurd ho hown
      · exact h id' row hrow ho

theorem tame_invariant (P : Records → MamTorrentId → TorrentHash → Prop) :
    Records.Invariant P fun r => r.Indexed ∧ r.Tame := by
  refine ⟨fun r event h => ⟨answered_indexed h.1 event, fun id row hrow => ?_⟩, fun r last h => h,
    fun _ _ _ h hc => ⟨hc.indexed h.1, hc.tame h.1 h.2⟩⟩
  rw [answered_row] at hrow
  exact h.2 id row hrow

end

def TameRows (rows : List TorrentRecord) : Prop :=
  ∀ row ∈ rows, row.origin = .adopted →
  row.desired ≠ .held ∧ row.desired ≠ .removed ∧ row.desired ≠ .queued

theorem new_tame {rows : List TorrentRecord} (h : TameRows rows) : (Records.new rows).Tame := by
  intro id row hrow ho
  obtain ⟨entry, he, rfl⟩ := Option.map_eq_some_iff.mp hrow
  obtain ⟨row, hr, -, rfl⟩ := new_entries he
  obtain ⟨hheld, hremoved, hqueued⟩ := h row hr ho
  have hd : (Entry.new row).record.desired = row.desired := rfl
  rw [hd]
  cases hdes : row.desired with
  | active => exact .inl rfl
  | snatched => exact .inr rfl
  | held => exact absurd hdes hheld
  | removed => exact absurd hdes hremoved
  | queued => exact absurd hdes hqueued

/-- Every list of rows read during the run has distinct hashes, and tame rows. -/
def ReadsTame (is : List TimedEvent) : Prop :=
  ∀ i ∈ is, ∀ rows, i.event = .registry (.read rows) → DistinctHashes rows ∧ TameRows rows

theorem received_tame {is : List TimedEvent} {i : TimedEvent} (h : ReadsTame (is ++ [i]))
    {records : Records}
    (hr : ((core.last is).received i.occurredAt i.event).registry = .loaded records) :
    records.Indexed ∧ records.Tame := by
  have hnew : ∀ j ∈ is ++ [i], ∀ rows, j.event = .registry (.read rows) →
      (Records.new rows).Indexed ∧ (Records.new rows).Tame :=
    fun j hj rows hev => ⟨new_indexed (h j hj rows hev).1, new_tame (h j hj rows hev).2⟩
  refine received_kept (tame_invariant fun _ _ _ => True) ?_ ?_ (fun _ _ _ _ _ => trivial) records hr
  · exact registry_kept (tame_invariant fun _ _ _ => True) (fun j hj =>
      hnew j (List.mem_append_left _ hj))
      fun _ _ _ _ _ _ _ => trivial
  · exact hnew i (List.mem_append_right _ List.mem_cons_self)

/-! ## Held torrents that finish -/

section
variable {r : Records} {id : RecordId} {row : TorrentRecord}

theorem recordSeen_desired (h : r.row id = some row) (now : ClockReading) (id' : RecordId)
    (torrent : Torrent) :
    ∃ row', (r.recordSeen now id' torrent).row id = some row' ∧ row'.desired = row.desired := by
  rw [recordSeen_row, h]
  split
  · exact ⟨_, rfl, rfl⟩
  · exact ⟨row, rfl, rfl⟩

theorem adopt_desired (h : r.row id = some row) (hash : TorrentHash) (torrent : Torrent) :
    ∃ row', (r.adopt hash torrent).1.row id = some row' ∧
    (row'.desired = row.desired ∨ row'.desired = .active) := by
  rw [adopt_row]
  split
  · exact ⟨_, rfl, .inr rfl⟩
  · exact ⟨row, h, .inl rfl⟩

theorem releaseCompleted_desired (h : r.row id = some row) (id' : RecordId) (torrent : Torrent) :
    ∃ row', (r.releaseCompleted id' torrent).row id = some row' ∧
      (row'.desired = row.desired ∨ row'.desired = .active) ∧
      (id' = id → torrent.completedAt.isSome → row.desired = .held → row'.desired = .active) := by
  unfold Records.releaseCompleted
  split
  · rw [setDesired_row, h]
    split
    · exact ⟨_, rfl, .inr rfl, fun _ _ _ => rfl⟩
    · next hne => exact ⟨row, rfl, .inl rfl, fun heq => absurd heq hne⟩
  · next hnot =>
    refine ⟨row, h, .inl rfl, ?_⟩
    rintro rfl hdone hheld
    refine absurd ?_ hnot
    obtain ⟨entry, he, rfl⟩ := Option.map_eq_some_iff.mp h
    rw [Bool.and_eq_true, he]
    exact ⟨beq_iff_eq.mpr hheld, hdone⟩

theorem observeTorrent_desired (h : r.row id = some row) (now : ClockReading)
    (reported : TorrentHash × Torrent) :
    ∃ row', (Records.observeTorrent now r reported).row id = some row' ∧
      (row'.desired = row.desired ∨ row'.desired = .active) ∧
      (r.byHash[reported.1]? = some id → reported.2.completedAt.isSome → row.desired = .held →
        row'.desired = .active) := by
  unfold Records.observeTorrent
  dsimp only
  cases hb : r.byHash[reported.1]? with
  | some id' =>
    obtain ⟨row₁, h₁, hd₁⟩ := recordSeen_desired h now id' reported.2
    obtain ⟨row₂, h₂, hd₂, hdone⟩ := releaseCompleted_desired h₁ id' reported.2
    rw [hd₁] at hd₂ hdone
    exact ⟨row₂, h₂, hd₂, fun heq => hdone (Option.some.inj heq)⟩
  | none =>
    obtain ⟨row₀, h₀, hd₀⟩ := adopt_desired h reported.1 reported.2
    obtain ⟨row₁, h₁, hd₁⟩ := recordSeen_desired h₀ now (r.adopt reported.1 reported.2).2 reported.2
    obtain ⟨row₂, h₂, hd₂, -⟩ := releaseCompleted_desired h₁ (r.adopt reported.1 reported.2).2 reported.2
    refine ⟨row₂, h₂, ?_, fun heq => by cases heq⟩
    rw [hd₁] at hd₂
    obtain hd₂ | hd₂ := hd₂
    · rw [hd₂]
      exact hd₀
    · exact .inr hd₂

theorem observeTorrent_byHash {hash : TorrentHash} (h : r.byHash[hash]? = some id) (now : ClockReading)
    (reported : TorrentHash × Torrent) :
    (Records.observeTorrent now r reported).byHash[hash]? = some id := by
  have hseen (r : Records) (id' : RecordId) :
      ((r.recordSeen now id' reported.2).releaseCompleted id' reported.2).byHash = r.byHash := by
    unfold Records.releaseCompleted Records.recordSeen
    split
    · split <;> rfl
    · split <;> rfl
  unfold Records.observeTorrent
  dsimp only
  cases hb : r.byHash[reported.1]? with
  | some id' => exact (congrArg (·[hash]?) (hseen r id')).trans h
  | none =>
    refine (congrArg (·[hash]?) (hseen _ _)).trans ?_
    have hne : reported.1 ≠ hash := by
      rintro rfl
      rw [h] at hb
      cases hb
    simp only [Records.adopt, Records.allocate, Std.ExtTreeMap.getElem?_insert]
    simpa [hne] using h

/-- A held row whose torrent is reported finished is active after the update. -/
theorem observed_active {hash : TorrentHash} {torrent : Torrent} (now : ClockReading)
    (reports : List (TorrentHash × Torrent)) (hb : r.byHash[hash]? = some id) (hrow : r.row id = some row)
    (hd : row.desired = .held ∨ row.desired = .active) (hdone : torrent.completedAt.isSome)
    (hr : (hash, torrent) ∈ reports ∨ row.desired = .active) :
    ∃ row', (reports.foldl (Records.observeTorrent now) r).row id = some row' ∧
    row'.desired = .active := by
  -- on the reports; one about another torrent leaves the row
  induction reports generalizing r row with
  | nil =>
    obtain hr | hr := hr
    · cases hr
    · exact ⟨row, hrow, hr⟩
  | cons reported reports ih =>
    obtain ⟨row', hrow', hkept, hact⟩ := observeTorrent_desired hrow now reported
    have hb' := observeTorrent_byHash hb now reported
    have hd' : row'.desired = .held ∨ row'.desired = .active := by
      obtain hkept | hkept := hkept
      · rw [hkept]
        exact hd
      · exact .inr hkept
    refine ih hb' hrow' hd' ?_
    by_cases ha : row'.desired = .active
    · exact .inr ha
    · obtain hr | hr := hr
      · obtain rfl | hr := List.mem_cons.mp hr
        · obtain hheld | hactive := hd
          · exact absurd (hact hb hdone hheld) ha
          · rw [hactive, or_self] at hkept
            exact absurd hkept ha
        · exact .inl hr
      · rw [hr, or_self] at hkept
        exact absurd hkept ha

end

section
variable {c : Core} {now : ClockReading} {event : Event}

/-- An event after which qBittorrent is decided on leaves the registry alone. -/
theorem dispatch_deciding (hq : c.qbittorrent.deciding = none)
    (h : (c.dispatch now event).1.qbittorrent.deciding ≠ none) :
    (c.dispatch now event).1.registry = c.registry := by
  cases event with
  | startup e =>
    refine absurd ?_ h
    have hsame : (c.dispatch now (.startup e)).1.qbittorrent = c.qbittorrent := by
      simp only [Core.dispatch, Core.handleStartup]
      split <;> split <;> rfl
    rw [hsame, hq]
  | registry e => exact absurd hq h
  | mam e => exact absurd hq h
  | timerExpired name id => cases name <;> rfl
  | _ => rfl

theorem received_qbittorrent :
    (c.received now event).qbittorrent = ((c.note event).dispatch now event).1.qbittorrent := by
  rw [received_eq]

theorem received_observed {session : Session} (hq : c.qbittorrent.deciding = none)
    (hd : (c.received now event).qbittorrent.deciding = some (session, .sync)) :
    (c.received now event).registry = (c.registry.observe now session).1 := by
  rw [received_qbittorrent] at hd
  have hreg : ((c.note event).dispatch now event).1.registry = c.registry :=
    dispatch_deciding (c := c.note event) hq (by rw [hd]; simp)
  have hd' : (((c.note event).dispatch now event).1.expireLease now).qbittorrent.deciding =
    some (session, .sync) := hd
  have hreg' : (((c.note event).dispatch now event).1.expireLease now).registry = c.registry := hreg
  unfold Core.received Core.receive Core.observe
  dsimp only
  rw [hd']
  dsimp only
  rw [hreg']

/-- A held row whose torrent is reported finished runs before a command is
chosen. -/
theorem finished_held_active {session : Session} {r : Records} {id : RecordId} {row : TorrentRecord}
    {hash : TorrentHash} {torrent : Torrent} (hq : c.qbittorrent.deciding = none)
    (hr : c.registry = .loaded r)
    (hi : r.Indexed) (hd : (c.received now event).qbittorrent.deciding = some (session, .sync))
    (hl : session.listed)
    (hrow : r.row id = some row) (hheld : row.desired = .held) (hh : row.identity.hash = some hash)
    (ht : session.torrents[hash]? = some torrent) (hdone : torrent.completedAt.isSome) :
    ∃ records row', (c.received now event).registry = .loaded records ∧ records.row id = some row' ∧
      row'.desired = .active := by
  have hobs := received_observed hq hd
  rw [hr] at hobs
  simp only [Registry.observe, hl, if_true] at hobs
  have hb : r.byHash[hash]? = some id := hi id hash (by rw [hashIn_row, hrow]; exact hh)
  have hmem : (hash, torrent) ∈ session.torrents.toList :=
    Std.ExtTreeMap.mem_toList_iff_getElem?_eq_some.mpr ht
  obtain ⟨row', hrow', hact⟩ :=
    observed_active now session.torrents.toList hb hrow (.inl hheld) hdone (.inl hmem)
  refine ⟨_, row', hobs, ?_, hact⟩
  unfold Records.observe
  rw [save_row]
  exact hrow'

end

/-! ## Commands that end something -/

def TorrentCommand.ends : TorrentCommand → List TorrentHash
  | .stop hashes | .remove hashes => hashes
  | .start _ | .selectAllFiles _ | .forceStart _ | .endForceStart _ | .add .. => []

/-- A command leaves the owner's torrents alone, stops none that has finished, and
removes none that MAM still counts. -/
structure TorrentCommand.Spares (command : TorrentCommand) (records : Records) (session : Session) :
    Prop where
  owner : ∀ hash ∈ command.ends, ∀ row ∈ records.records, row.identity.hash = some hash →
    row.origin ≠ .adopted
  stops : ∀ hashes, command = .stop hashes →
    ∀ hash ∈ hashes, ∃ torrent, session.torrents[hash]? = some torrent ∧
    torrent.completedAt = none
  removes : ∀ hashes, command = .remove hashes →
    ∀ hash ∈ hashes, ∃ torrent, session.torrents[hash]? = some torrent ∧
    (torrent.completedAt.isSome ∧ Duration.fromHours 96 ≤ torrent.seedingTime ∨
      torrent.progress.val = 0 ∧ torrent.downloaded = 0)

section
variable {r : Records} {session : Session} {permits : MamTorrentId → Bool} {command : TorrentCommand}

theorem removable_iff {t : Torrent} : t.removable ↔
    t.completedAt.isSome ∧ Duration.fromHours 96 ≤ t.seedingTime ∨
    t.progress.val = 0 ∧ t.downloaded = 0 := by
  have htarget : seedingTarget = Duration.fromHours 96 := rfl
  unfold Torrent.removable Torrent.isUntouched
  rw [htarget, Bool.or_eq_true, Bool.and_eq_true, Bool.and_eq_true, decide_eq_true_eq, beq_iff_eq,
    beq_iff_eq]

theorem mem_ends {hash : TorrentHash} (h : hash ∈ command.ends) :
    hash ∈ command.names ∧ (command.kind.desired = .held ∨ command.kind.desired = .removed) := by
  cases command with
  | stop => exact ⟨h, .inl rfl⟩
  | remove => exact ⟨h, .inr rfl⟩
  | _ => cases h

theorem reconcile_spares (hi : r.Indexed) (ht : r.Tame) (h : r.reconcile session permits = some command) :
    command.Spares r session := by
  constructor
  · intro hash hmem row hr hh ho
    obtain ⟨hnames, hd⟩ := mem_ends hmem
    obtain ⟨row', hr', hh', hd', -⟩ := reconcile_needs h hnames
    obtain rfl := hi.unique hr hr' hh hh'
    obtain ⟨id, hrow⟩ := mem_records_row.mp hr
    obtain ha | ha := ht id row hrow ho
    · rw [← hd', ha] at hd
      simp at hd
    · rw [← hd', ha] at hd
      simp at hd
  · rintro hashes rfl hash hmem
    obtain ⟨hc, -⟩ | ⟨hc, -⟩ | ⟨_, hc, -⟩ | hm | ⟨hc, -⟩ | ⟨hc, -⟩ | ⟨hc, -⟩ := reconcile_chosen h
    · cases hc
    · cases hc
      obtain ⟨-, -, -, -, torrent, ht, hrun⟩ :=
        mem_present_filter (p := fun t => t.completedAt.isNone && !t.isStopped) hmem
      rw [Bool.and_eq_true, Option.isNone_iff_eq_none] at hrun
      exact ⟨torrent, ht, hrun.1⟩
    · cases hc
    · obtain ⟨_, _, hm⟩ := missingCommand_add hm
      cases hm
    · cases hc
    · cases hc
    · cases hc
  · rintro hashes rfl hash hmem
    obtain ⟨hc, -⟩ | ⟨hc, -⟩ | ⟨_, hc, -⟩ | hm | ⟨hc, -⟩ | ⟨hc, -⟩ | ⟨hc, -⟩ := reconcile_chosen h
    · cases hc
      obtain ⟨-, -, -, -, torrent, ht, hrem⟩ := mem_present_filter hmem
      exact ⟨torrent, ht, removable_iff.mp hrem⟩
    · cases hc
    · cases hc
    · obtain ⟨_, _, hm⟩ := missingCommand_add hm
      cases hm
    · cases hc
    · cases hc
    · cases hc

end

/-! ## The owner's torrents along a run -/

/-- In every step of every run, the command spares the owner's torrents, those
that have finished and those MAM counts, and a held torrent that has finished
runs before the command is chosen. -/
theorem owner_torrents_spared {is : List TimedEvent} {i : TimedEvent} (hread : ReadsTame (is ++ [i])) :
    (∀ command, .qbittorrentCommand command ∈ (core.entry (core.last is) i).out → ∃ records session,
      ((core.last is).received i.occurredAt i.event).registry = .loaded records ∧
      (core.entry (core.last is) i).after.qbittorrent.session = some session ∧
      command.Spares records session) ∧
    ∀ r id row hash session torrent, (core.last is).registry = .loaded r → r.row id = some row →
      row.desired = .held → row.identity.hash = some hash →
      ((core.last is).received i.occurredAt i.event).qbittorrent.deciding = some (session, .sync) →
      session.listed →
      session.torrents[hash]? = some torrent → torrent.completedAt.isSome →
      ∃ records row', ((core.last is).received i.occurredAt i.event).registry = .loaded records ∧
        records.row id = some row' ∧ row'.desired = .active := by
  refine ⟨fun command hc => ?_, ?_⟩
  · obtain ⟨records, session, hr, hchosen, hs, -⟩ := step_command hc
    obtain ⟨hi, ht⟩ := received_tame hread hr
    have hspares := reconcile_spares hi ht hchosen
    exact ⟨records, _, hr, hs, ⟨hspares.owner, hspares.stops, hspares.removes⟩⟩
  · intro r id row hash session torrent hr hrow hheld hh hd hl ht hdone
    have hdistinct : ReadsDistinct is :=
      fun j hj rows hev => (hread j (List.mem_append_left _ hj) rows hev).1
    exact finished_held_active (settled_last is) hr
      (registry_indexed hdistinct hr) hd hl hrow hheld hh ht hdone

theorem removed_torrent_untouched : ∃ hashes, someHash ∈ hashes ∧
    .qbittorrentCommand (.remove hashes) ∈
    (core.entry (core.last (connectedEvents [removedRow])) bothListed).out ∧
    ∃ session torrent, (core.entry (core.last (connectedEvents [removedRow]))
      bothListed).after.qbittorrent.session =
      some session ∧ session.torrents[someHash]? = some torrent ∧
      (torrent.completedAt.isSome ∧ Duration.fromHours 96 ≤ torrent.seedingTime ∨
        torrent.progress.val = 0 ∧ torrent.downloaded = 0) := by
  have hread : ReadsTame (connectedEvents [removedRow] ++ [bothListed]) := by
    have hrows : ∀ i ∈ connectedEvents [removedRow] ++ [bothListed],
        i.event.rowsRead = [] ∨ i.event.rowsRead = [removedRow] := by decide +kernel
    intro i hi rows hev
    have h := hrows i hi
    rw [hev] at h
    obtain rfl | rfl : rows = [] ∨ rows = [removedRow] := h
    · exact ⟨List.Pairwise.nil, fun row hr => by cases hr⟩
    · refine ⟨List.pairwise_singleton _ _, fun row hr ho => ?_⟩
      obtain rfl := List.mem_singleton.mp hr
      cases ho
  have hout : .qbittorrentCommand (.remove [someHash]) ∈
      (core.entry (core.last (connectedEvents [removedRow])) bothListed).out := by decide +kernel
  obtain ⟨records, session, -, hs, hspares⟩ := (owner_torrents_spared hread).1 _ hout
  obtain ⟨torrent, ht, hcounts⟩ := hspares.removes _ rfl someHash (List.mem_singleton_self _)
  exact ⟨_, List.mem_singleton_self _, hout, session, torrent, hs, ht, hcounts⟩

def ownerRow : TorrentRecord :=
  -- a found torrent that waits to be fetched, and another found torrent
  { someRow with
    identity := .linked (Nat.toPNat' 5) someHash
    origin := .adopted
    desired := .queued }

def foundRow : TorrentRecord :=
  { someRow with id := Nat.toPNat' 2, identity := .client otherHash, origin := .adopted }

def ownerEvents : List TimedEvent :=
  -- the file fetched for the first is that of the second
  admittingEvents [ownerRow, foundRow] ++
    [replyAt 65 freePage, replyAt 66 (.fetched { hash := otherHash, size := 10 }),
      .after 70 (.timerExpired .qbittorrentPoll 4)]

def bothReported : TimedEvent :=
  .after 71 (.qbittorrent (.synced
    { position := 2
      scope := .full
      torrents := [(someHash, {}), (otherHash, { state := some .downloading })]
      removed := [] }))

/-- A found torrent's row that was queued becomes history, and its torrent is
removed. -/
theorem owner_torrent_removed :
    (∀ i ∈ ownerEvents ++ [bothReported], ∀ row ∈ i.event.rowsRead, row.origin = .adopted →
      row.desired ≠ .held ∧ row.desired ≠ .removed) ∧
    ReadsDistinct (ownerEvents ++ [bothReported]) ∧
    ∃ records row, ((core.last ownerEvents).received bothReported.occurredAt
      bothReported.event).registry =
        .loaded records ∧
      row ∈ records.records ∧ row.identity.hash = some someHash ∧ row.origin = .adopted ∧
      .qbittorrentCommand (.remove [someHash]) ∈
      (core.entry (core.last ownerEvents) bothReported).out := by
  have hrows : ∀ i ∈ ownerEvents ++ [bothReported],
      i.event.rowsRead = [] ∨ i.event.rowsRead = [ownerRow, foundRow] := by decide +kernel
  have hout : .qbittorrentCommand (.remove [someHash]) ∈
      (core.entry (core.last ownerEvents) bothReported).out := by
    decide +kernel
  have hrow : ((core.last ownerEvents).received bothReported.occurredAt
    bothReported.event).registry.records?.any
      fun records => records.records.any fun row => row.identity.hash == some someHash &&
        row.origin == .adopted := by
    decide +kernel
  refine ⟨?_, ?_, ?_⟩
  · intro i hi row hr ho
    obtain h | h := hrows i hi
    · rw [h] at hr
      cases hr
    · rw [h] at hr
      simp only [List.mem_cons, List.not_mem_nil, or_false] at hr
      obtain rfl | rfl := hr
      · exact ⟨by decide, by decide⟩
      · exact ⟨by decide, by decide⟩
  · intro i hi rows hev
    have h := hrows i hi
    rw [hev] at h
    obtain rfl | rfl : rows = [] ∨ rows = [ownerRow, foundRow] := h
    · exact List.Pairwise.nil
    · refine List.pairwise_cons.mpr ⟨?_, List.pairwise_singleton _ _⟩
      intro row hr hash hh
      obtain rfl := List.mem_singleton.mp hr
      cases hh
      decide
  · obtain ⟨records, hr, hrow⟩ := (Option.any_eq_true _ _).mp hrow
    obtain ⟨row, hmem, hrow⟩ := List.any_eq_true.mp hrow
    rw [Bool.and_eq_true, beq_iff_eq, beq_iff_eq] at hrow
    refine ⟨records, row, ?_, hmem, hrow.1, hrow.2, hout⟩
    generalize ((core.last ownerEvents).received bothReported.occurredAt
      bothReported.event).registry = g at hr ⊢
    cases g with
    | loaded r => rw [Option.some.inj hr]
    | _ => cases hr

end Windlass
