import Windlass.DownloadSound
import Windlass.Turns

/-!
# Stops behind a stuck removal

Only the first change qBittorrent needs is a command, and a command just given is
not repeated for a minute. A removal that qBittorrent has not carried out yet
therefore silences whatever comes after it, stops included.
-/

namespace Windlass

section
variable (r : Records) (session : Session) (now : Instant)

/-- Rows to remove are reported, and the last command asked for just their
removal less than a minute ago. -/
def Records.RemovalStuck : Prop :=
  r.removedHashes session ≠ [] ∧ r.repeats now (.remove (r.removedHashes session))

instance : Decidable (r.RemovalStuck session now) := inferInstanceAs (Decidable (_ ∧ _))

theorem mem_runningHashes {row : TorrentRecord} {hash : TorrentHash} (hr : row ∈ r.records)
    (hd : row.stopDue session) (hh : row.identity.hash = some hash) : hash ∈ r.runningHashes session := by
  unfold TorrentRecord.stopDue TorrentRecord.torrentIn at hd
  rw [hh, Option.bind_some, Bool.and_eq_true, beq_iff_eq] at hd
  obtain ⟨torrent, ht, hrun⟩ := (Option.any_eq_true _ _).mp hd.2
  unfold Records.runningHashes
  exact List.mem_map.mpr ⟨(hash, torrent),
    List.mem_filter.mpr ⟨mem_present.mpr ⟨row, hr, hd.1, hh, ht⟩, hrun⟩, rfl⟩

variable (permits : MamTorrentId → Bool)

theorem reconcile_stopDue {hash : TorrentHash} (h : hash ∈ r.runningHashes session) :
    r.reconcile session permits = some
      (if r.removedHashes session ≠ [] then .remove (r.removedHashes session)
      else .stop (r.runningHashes session)) := by
  unfold Records.reconcile
  rw [if_pos (List.ne_nil_of_mem h)]
  split <;> rfl

theorem command_isSome {command : TorrentCommand} (h : r.reconcile session permits = some command) :
    (r.command session permits now).2.isSome ↔ ¬ r.repeats now command := by
  unfold Records.command
  rw [h]
  dsimp only
  split
  · next hrep => simp [hrep]
  · next hrep => simp [hrep]

end

/-! ## The command of a step -/

section
variable (c : Core) (now : ClockReading) (event : Event)

def Core.commanding : Core := ((c.received now event).decideMam now).1.renewLease.1

/-- The rows and the session a step chooses a command from. -/
def Core.consulted : Option (Records × Session) :=
  match (c.commanding now event).qbittorrent.deciding, (c.commanding now event).registry with
  | some (session, .sync), .loaded records =>
    if session.listed && (session.setPreferences (c.commanding now event).wanted).isNone then
      some (records, session)
    else none
  | _, _ => none

theorem consulted_some {records : Records} {session : Session}
    (h : c.consulted now event = some (records, session)) :
    (c.commanding now event).qbittorrent.deciding = some (session, .sync) ∧
      (c.commanding now event).registry = .loaded records ∧ session.listed ∧
      session.setPreferences (c.commanding now event).wanted = none := by
  unfold Core.consulted at h
  split at h
  · next session' records' hd hr =>
    split at h
    · next hl =>
      cases h
      rw [Bool.and_eq_true, Option.isNone_iff_eq_none] at hl
      exact ⟨hd, hr, hl.1, hl.2⟩
    · cases h
  · cases h

theorem consulted_commands {records : Records} {session : Session}
    (h : c.consulted now event = some (records, session)) (command : TorrentCommand) :
    .qbittorrentCommand command ∈ (c.handle now event).2 ↔
      (records.command session (c.commanding now event).mam.permitsDownload now.monotonic).2 =
      some command := by
  obtain ⟨hd, hr, hl, hp⟩ := consulted_some c now event h
  constructor
  · intro hc
    obtain hc | hc := handle_qbittorrent c now event hc rfl
    · exact absurd hc dispatch_no_command
    · simp only [Core.decideQbittorrent, List.mem_append] at hc
      obtain hc | hc := hc
      · obtain ⟨session', hd', hask, -⟩ := decide_command hc
        have heq : some (session, DecidingAfter.sync) = some (session', .sync) := hd.symm.trans hd'
        cases heq
        have hr' : ((c.received now event).decideMam now).1.renewLease.1.registry = .loaded records := hr
        simp only [hr', Registry.command, hl, if_true] at hask
        exact hask
      · exact absurd hc followPreferences_no_command
  · intro hc
    have hmem : .qbittorrentCommand command ∈ ((c.commanding now event).decideQbittorrent now).2 := by
      simp only [Core.decideQbittorrent, Qbittorrent.decide, hd, hp, hr, Registry.command, hl,
        if_true, List.mem_append]
      left
      generalize records.command session (c.commanding now event).mam.permitsDownload
        now.monotonic = p at hc ⊢
      obtain ⟨records', given⟩ := p
      cases hc
      exact List.mem_singleton_self _
    rw [handle_out]
    simp only [List.mem_append]
    exact .inl (.inr (.inl (.inr hmem)))

end

/-! ## Commands along a run -/

section
variable {P : Records → MamTorrentId → TorrentHash → Prop} {r r' : Records}
  {out : List (List TorrentRecord)}

theorem save_lastCommand (r : Records) (now : Instant) : (r.save now).1.lastCommand = r.lastCommand := by
  unfold Records.save
  split <;> rfl

theorem recordSeen_lastCommand (r : Records) (now : ClockReading) (id : RecordId) (torrent : Torrent) :
    (r.recordSeen now id torrent).lastCommand = r.lastCommand := by
  unfold Records.recordSeen
  split <;> rfl

theorem link_lastCommand (r : Records) (id : RecordId) (mam : MamTorrentId) (hash : TorrentHash) :
    (r.link id mam hash).lastCommand = r.lastCommand := by
  unfold Records.link
  dsimp only
  split
  · split <;> rfl
  · rfl

theorem Records.Change.lastCommand (h : r.Change P out r') : r'.lastCommand = r.lastCommand := by
  cases h with
  | saved now => exact save_lastCommand r now
  | bookmarked new =>
    unfold Records.bookmark
    dsimp only
    split <;> rfl
  | found now hash torrent => exact recordSeen_lastCommand _ now _ torrent
  | seen now id torrent => exact recordSeen_lastCommand r now id torrent
  | linked id mam hash => exact link_lastCommand r id mam hash
  | _ => rfl

theorem Records.Changed.lastCommand (h : r.Changed P out r') : r'.lastCommand = r.lastCommand :=
  Reactive.Chain.kept (I := fun r' => r'.lastCommand = r.lastCommand)
    (fun _ _ _ hk hs => (Records.Change.lastCommand hs).trans hk) h rfl

end

def LastGiven (tr : List (Reactive.Entry Core TimedEvent Action)) (c : Core) : Prop :=
  ∀ r command at', c.registry = .loaded r → r.lastCommand = some (command, at') →
    ∃ e ∈ tr, e.input.occurredAt.monotonic = at' ∧ .qbittorrentCommand command ∈ e.out

section
variable {tr : List (Reactive.Entry Core TimedEvent Action)} {c : Core}

theorem answered_lastCommand {g : Registry} {event : Event} {r : Records}
    (h : g.answered event = .loaded r) :
    r.lastCommand = none ∨ ∃ r', g = .loaded r' ∧ r.lastCommand = r'.lastCommand := by
  have hkept (r : Records) : (r.answered event).lastCommand = r.lastCommand := by
    unfold Records.answered
    split <;> rfl
  unfold Registry.answered at h
  split at h
  · next r' hl =>
    cases h
    rw [hkept]
    unfold Registry.loadedBy at hl
    split at hl
    · cases hl
      exact .inl rfl
    · exact .inr ⟨r', hl, rfl⟩
  · next hn => exact absurd h (hn r)

theorem received_lastGiven (h : LastGiven tr c) (now : ClockReading) (event : Event) :
    LastGiven tr (c.received now event) := by
  intro r command at' hr hl
  obtain hc | ⟨hn, -⟩ := received_changed (P := fun _ _ _ => True) c now event fun _ _ _ _ _ => trivial
  · have hanswered : ∃ r', c.registry.answered event = .loaded r' ∧
      r'.lastCommand = some (command, at') := by
      rw [← hl]
      rw [hr] at hc
      generalize batches (c.handle now event).2 = out at hc
      generalize c.registry.answered event = g at hc ⊢
      cases hc with
      | same => exact ⟨r, rfl, rfl⟩
      | loaded hc => exact ⟨_, rfl, hc.lastCommand.symm⟩
    obtain ⟨r', ha, hk⟩ := hanswered
    obtain hn | ⟨r₀, hr₀, hsame⟩ := answered_lastCommand ha
    · rw [hk] at hn
      cases hn
    · exact h r₀ command at' hr₀ (hsame.symm.trans hk)
  · rw [hr] at hn
    cases hn

theorem lastGiven_step (h : LastGiven tr c) (i : TimedEvent) :
    LastGiven (tr ++ [core.entry c i]) (core.step c i).1 := by
  intro r command at' hr hl
  rw [core_step] at hr
  obtain hk | ⟨r', given, -, hk, hout⟩ := handle_given c i.occurredAt i.event
  · rw [hk] at hr
    obtain ⟨e, he, hat, hcmd⟩ := received_lastGiven h i.occurredAt i.event r command at' hr hl
    exact ⟨e, List.mem_append_left _ he, hat, hcmd⟩
  · rw [hk] at hr
    cases hr
    cases hl
    exact ⟨core.entry c i, List.mem_append_right _ (List.mem_singleton_self _), rfl, hout⟩

theorem lastGiven_run (is : List TimedEvent) : LastGiven (core.run is) (core.last is) := by
  refine Reactive.run_invariant core (I := LastGiven) (H := fun _ => True) (fun _ _ h => h) ?_
    (fun _ _ i h _ => lastGiven_step h i) is trivial
  intro r command at' hr
  cases hr

end

/-- A stop is due that was not given for a minute. A command is given exactly when
no removal is stuck before it. -/
theorem stop_silenced_iff {is : List TimedEvent} {i : TimedEvent} {records : Records} {session : Session}
    {row : TorrentRecord} {hash : TorrentHash}
    (hc : (core.last is).consulted i.occurredAt i.event = some (records, session))
    (hr : row ∈ records.records)
    (hd : row.stopDue session) (hh : row.identity.hash = some hash)
    (hn : ∀ e ∈ core.run is, ∀ hashes, .qbittorrentCommand (.stop hashes) ∈ e.out → hash ∈ hashes →
      commandRepeatAfter ≤ i.occurredAt.monotonic.durationSince e.input.occurredAt.monotonic) :
    (∃ command, .qbittorrentCommand command ∈ (core.entry (core.last is) i).out) ↔
      ¬ records.RemovalStuck session i.occurredAt.monotonic := by
  have hrun := mem_runningHashes records session hr hd hh
  have hreg : ((core.last is).received i.occurredAt i.event).registry = .loaded records := by
    obtain ⟨-, hreg, -⟩ := consulted_some _ _ _ hc
    unfold Core.commanding at hreg
    rw [renewLease_frame, decideMam_eq] at hreg
    exact hreg
  simp only [entry_out, consulted_commands _ _ _ hc]
  rw [← Option.isSome_iff_exists,
    command_isSome records session i.occurredAt.monotonic _ (reconcile_stopDue _ _ _ hrun)]
  unfold Records.RemovalStuck
  by_cases hrem : records.removedHashes session ≠ []
  · rw [if_pos hrem]
    simp [hrem]
  · rw [if_neg hrem]
    simp only [hrem, false_and, not_false_iff, iff_true]
    intro hrep
    unfold Records.repeats at hrep
    obtain ⟨⟨last, at'⟩, hlast, hrep⟩ := (Option.any_eq_true _ _).mp hrep
    simp only [Bool.and_eq_true, decide_eq_true_eq] at hrep
    obtain ⟨rfl, hlt⟩ := hrep
    obtain ⟨e, he, hat, hout⟩ :=
      received_lastGiven (lastGiven_run is) i.occurredAt i.event records _ at' hreg hlast
    have hle := hn e he _ hout hrun
    rw [hat] at hle
    exact absurd hlt (not_lt.mpr hle)

def otherHash : TorrentHash := ⟨List.replicate 40 ⟨12, by decide⟩, .inl rfl⟩

def heldRow : TorrentRecord :=
  { someRow with
    id := Nat.toPNat' 2
    identity := .linked (Nat.toPNat' 8) otherHash
    desired := .held }

def removedRow : TorrentRecord := { someRow with desired := .removed }

def connectedEvents (rows : List TorrentRecord) : List TimedEvent :=
  -- the rows are read and qBittorrent is connected
  [.after 0 (.startup (.start .resume)), .after 0 (.startup .storageOpened),
    .after 0 (.registry (.read rows)),
    .after 0 (.qbittorrent .enable),
    .after 0 (.qbittorrent (.connected (.release { major := 5, minor := 2, patch := 0 })
      { listenPort := none, interface := none, queue := none }))]

def bothListed : TimedEvent :=
  .after 0 (.qbittorrent (.synced
    { position := 1
      scope := .full
      torrents := [(someHash, {}), (otherHash, { state := some .downloading })]
      removed := [] }))

def nothingNew : TimedEvent :=
  .after 2 (.qbittorrent (.synced { position := 2, scope := .changes, torrents := [], removed := [] }))

def stuckEvents : List TimedEvent :=
  -- the removal is accepted, and not carried out yet
  connectedEvents [removedRow, heldRow] ++ [bothListed, .after 1 (.qbittorrent .commandDone)]

def Action.stops? : Action → Option (List TorrentHash)
  | .qbittorrentCommand (.stop hashes) => some hashes
  | _ => none

theorem no_stop {tr : List (Reactive.Entry Core TimedEvent Action)}
    (h : tr.all fun e => (e.out.filterMap Action.stops?).isEmpty)
    {e : Reactive.Entry Core TimedEvent Action}
    (he : e ∈ tr) {hashes : List TorrentHash} : .qbittorrentCommand (.stop hashes) ∉ e.out := by
  intro hout
  have hempty := List.all_eq_true.mp h e he
  rw [List.isEmpty_iff, List.filterMap_eq_nil_iff] at hempty
  cases hempty _ hout

theorem held_torrent_stopped : ∃ command,
    .qbittorrentCommand command ∈
    (core.entry (core.last (connectedEvents [heldRow])) bothListed).out := by
  have hrow : ((core.last (connectedEvents [heldRow])).consulted bothListed.occurredAt
    bothListed.event).any fun p =>
      !decide (p.1.RemovalStuck p.2 bothListed.occurredAt.monotonic) && p.1.records.any fun row =>
        row.stopDue p.2 && row.identity.hash == some otherHash := by decide +kernel
  obtain ⟨⟨records, session⟩, hc, hrow⟩ := (Option.any_eq_true _ _).mp hrow
  simp only [Bool.and_eq_true, List.any_eq_true, beq_iff_eq, Bool.not_eq_true',
    decide_eq_false_iff_not] at hrow
  obtain ⟨hstuck, row, hr, hd, hh⟩ := hrow
  refine (stop_silenced_iff hc hr hd hh fun e he hashes hout => ?_).mpr hstuck
  exact absurd hout (no_stop (by decide +kernel) he)

theorem held_torrent_left_running : ∃ records session row hash,
    (core.last stuckEvents).consulted nothingNew.occurredAt nothingNew.event = some (records, session) ∧
    row ∈ records.records ∧ row.stopDue session ∧ row.identity.hash = some hash ∧
    (∀ e ∈ core.run stuckEvents, ∀ hashes, .qbittorrentCommand (.stop hashes) ∈ e.out → hash ∈ hashes →
      commandRepeatAfter ≤ nothingNew.occurredAt.monotonic.durationSince e.input.occurredAt.monotonic) ∧
    ¬ ∃ command, .qbittorrentCommand command ∈ (core.entry (core.last stuckEvents) nothingNew).out := by
  have hrow : ((core.last stuckEvents).consulted nothingNew.occurredAt nothingNew.event).any fun p =>
      p.1.records.any fun row => row.stopDue p.2 && row.identity.hash == some otherHash := by
        decide +kernel
  have hnone : (core.entry (core.last stuckEvents) nothingNew).out.all fun a =>
      match a with
      | .qbittorrentCommand _ => false
      | _ => true := by decide +kernel
  obtain ⟨⟨records, session⟩, hc, hrow⟩ := (Option.any_eq_true _ _).mp hrow
  simp only [Bool.and_eq_true, List.any_eq_true, beq_iff_eq] at hrow
  obtain ⟨row, hr, hd, hh⟩ := hrow
  refine ⟨records, session, row, otherHash, hc, hr, hd, hh, fun e he hashes hout => ?_, ?_⟩
  · exact absurd hout (no_stop (by decide +kernel) he)
  · rintro ⟨command, hcmd⟩
    cases List.all_eq_true.mp hnone _ hcmd

end Windlass
