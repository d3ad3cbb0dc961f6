import Windlass.Changes

/-!
# Commands that make a torrent run

qBittorrent is told to start, add or complete a MAM download only when MAM work
permits it, with one exception: a force start asks for no permission, and a
torrent that finished once and was found incomplete again may get one.
-/

namespace Windlass

def TorrentCommand.runs : TorrentCommand → List TorrentHash
  | .start hashes | .forceStart hashes => hashes
  | .selectAllFiles hash | .add _ hash => [hash]
  | .remove _ | .stop _ | .endForceStart _ => []

/-- Whether running this torrent would download more: it is missing, partly
selected, or stopped before its end. -/
def Session.unfinished (session : Session) (hash : TorrentHash) : Bool :=
  session.torrents[hash]?.all fun torrent => torrent.state == .stopped .incomplete || torrent.isPartial

section
variable (r : Records) (session : Session) (permits : MamTorrentId → Bool)

/-- Whatever the time, no command runs an unfinished MAM torrent that is not
permitted. -/
def Records.RunsPermitted : Prop :=
  ∀ now command, (r.command session permits now).2 = some command →
    ∀ row ∈ r.records, ∀ mam hash, row.identity = .linked mam hash → hash ∈ command.runs →
      session.unfinished hash → permits mam

def TorrentRecord.torrentIn (row : TorrentRecord) : Option Torrent :=
  row.identity.hash.bind fun hash => session.torrents[hash]?

def TorrentRecord.removalDue (row : TorrentRecord) : Bool :=
  row.desired == .removed && (row.torrentIn session).any Torrent.removable

def TorrentRecord.stopDue (row : TorrentRecord) : Bool :=
  row.desired == .held && (row.torrentIn session).any fun torrent => torrent.completedAt.isNone &&
  !torrent.isStopped

def TorrentRecord.selectionDue (row : TorrentRecord) : Bool :=
  row.desired == .active && row.identity.mamId.all permits &&
  (row.torrentIn session).any Torrent.isPartial

def TorrentRecord.additionDue (row : TorrentRecord) : Bool :=
  match row.identity with
  | .linked mam hash =>
    row.desired == .active && row.origin != .adopted && permits mam && !session.torrents.contains hash
  | _ => false

def TorrentRecord.startDue (row : TorrentRecord) : Bool :=
  row.desired == .active && (Records.startable session permits row).isSome

/-- Whether qBittorrent needs another change for this row before any force
start. -/
def TorrentRecord.dueBefore (row : TorrentRecord) : Bool :=
  row.removalDue session || row.stopDue session || row.selectionDue session permits ||
    row.additionDue session permits || row.startDue session permits

/-- Whether this torrent is stopped before its end, although qBittorrent reported
it complete once, and has not seeded long enough to be left alone. -/
def Torrent.reopened (t : Torrent) : Bool :=
  t.state == .stopped .incomplete && t.unsatisfied && !t.isPartial && t.forceStart == .notForced

def Records.ReopenedPermitted : Prop :=
  ∀ row ∈ r.records, ∀ mam hash torrent, row.desired = .active → row.identity = .linked mam hash →
    session.torrents[hash]? = some torrent → torrent.reopened → permits mam

end

/-! ## Rows behind a command -/

section
variable {r : Records} {session : Session} {permits : MamTorrentId → Bool} {row : TorrentRecord}
  {hash : TorrentHash}

theorem Records.Indexed.unique (h : r.Indexed) {row' : TorrentRecord} (hr : row ∈ r.records)
    (hr' : row' ∈ r.records) (hh : row.identity.hash = some hash) (hh' : row'.identity.hash = some hash) :
    row = row' := by
  obtain ⟨id, entry, he, rfl⟩ := mem_records.mp hr
  obtain ⟨id', entry', he', rfl⟩ := mem_records.mp hr'
  have hi := h id hash (by rw [hashIn, he]; exact hh)
  have hi' := h id' hash (by rw [hashIn, he']; exact hh')
  rw [hi] at hi'
  cases hi'
  rw [he] at he'
  cases he'
  rfl

theorem mem_present {desired : Desired} {torrent : Torrent} :
    (hash, torrent) ∈ r.present session desired ↔
    ∃ row ∈ r.records, row.desired = desired ∧ row.identity.hash = some hash ∧
      session.torrents[hash]? = some torrent := by
  unfold Records.present
  simp only [List.mem_filterMap, List.mem_filter, beq_iff_eq, Option.bind_eq_some_iff,
    Option.map_eq_some_iff,
    Prod.mk.injEq]
  constructor
  · rintro ⟨row, ⟨hr, hd⟩, hash', hh, torrent', ht, rfl, rfl⟩
    exact ⟨row, hr, hd, hh, ht⟩
  · rintro ⟨row, hr, hd, hh, ht⟩
    exact ⟨row, ⟨hr, hd⟩, hash, hh, torrent, ht, rfl, rfl⟩

theorem startable_some (h : Records.startable session permits row = some hash) :
    row.identity.hash = some hash ∧
      (session.unfinished hash → row.identity.mamId.all permits) := by
  unfold Records.startable at h
  obtain ⟨hash', hh, h⟩ := Option.bind_eq_some_iff.mp h
  obtain ⟨torrent, ht, h⟩ := Option.bind_eq_some_iff.mp h
  split at h
  · next hs =>
    cases h
    refine ⟨hh, fun hu => ?_⟩
    simp only [Bool.and_eq_true, Bool.or_eq_true, beq_iff_eq] at hs
    obtain ⟨-, ⟨hst, hp⟩ | hperm⟩ := hs
    · simp only [Session.unfinished, ht, Option.all_some, Bool.or_eq_true, beq_iff_eq, hst] at hu
      obtain hu | hu := hu
      · cases hu
      · rw [hu] at hp
        cases hp
    · exact hperm
  · cases h

theorem present_filter_nil {desired : Desired} {p : Torrent → Bool} :
    ((r.present session desired).filter fun q => p q.2).map (·.1) = [] ↔
      ∀ row ∈ r.records, (row.desired == desired && (row.torrentIn session).any p) = false := by
  simp only [List.map_eq_nil_iff, List.filter_eq_nil_iff, Prod.forall, mem_present]
  constructor
  · intro h row hr
    by_contra hd
    simp only [Bool.not_eq_false, Bool.and_eq_true, beq_iff_eq, Option.any_eq_true,
      TorrentRecord.torrentIn] at hd
    obtain ⟨hd, torrent, ht, hp⟩ := hd
    obtain ⟨hash, hh, ht⟩ := Option.bind_eq_some_iff.mp ht
    exact h hash torrent ⟨row, hr, hd, hh, ht⟩ hp
  · rintro h hash torrent ⟨row, hr, hd, hh, ht⟩ hp
    have hrow := h row hr
    simp [TorrentRecord.torrentIn, hd, hh, ht, hp] at hrow

theorem partialHash_none : r.partialHash session permits = none ↔
    ∀ row ∈ r.records, row.selectionDue session permits = false := by
  unfold Records.partialHash
  rw [List.findSome?_eq_none_iff]
  refine forall₂_congr fun row _ => ?_
  unfold TorrentRecord.selectionDue TorrentRecord.torrentIn
  cases row.identity.hash with
  | none => simp
  | some hash =>
    simp only [Option.bind_some]
    cases session.torrents[hash]? with
    | none => simp
    | some torrent =>
      rw [Bool.and_right_comm]
      simp

theorem missingCommand_none : r.missingCommand session permits = none ↔
    ∀ row ∈ r.records, row.additionDue session permits = false := by
  unfold Records.missingCommand
  rw [List.findSome?_eq_none_iff]
  refine forall₂_congr fun row _ => ?_
  unfold TorrentRecord.additionDue
  cases row.identity <;> simp

theorem stoppedHashes_nil : r.stoppedHashes session permits = [] ↔
    ∀ row ∈ r.records, row.startDue session permits = false := by
  unfold Records.stoppedHashes TorrentRecord.startDue
  simp only [List.filterMap_eq_nil_iff, List.mem_filter, beq_iff_eq, and_imp, Bool.and_eq_false_imp,
    Option.isSome_eq_false_iff, Option.isNone_iff_eq_none]

/-- No row needs a change before force starts exactly when every earlier list of
changes is empty. -/
theorem none_dueBefore : (∀ row ∈ r.records, row.dueBefore session permits = false) ↔
    r.removedHashes session = [] ∧ r.runningHashes session = [] ∧ r.partialHash session permits = none ∧
      r.missingCommand session permits = none ∧ r.stoppedHashes session permits = [] := by
  have hremoved : r.removedHashes session = [] ↔ ∀ row ∈ r.records, row.removalDue session = false :=
    present_filter_nil
  have hrunning : r.runningHashes session = [] ↔ ∀ row ∈ r.records, row.stopDue session = false :=
    present_filter_nil (p := fun torrent => torrent.completedAt.isNone && !torrent.isStopped)
  rw [hremoved, hrunning, partialHash_none, missingCommand_none, stoppedHashes_nil]
  simp only [TorrentRecord.dueBefore, Bool.or_eq_false_iff]
  constructor
  · intro h
    exact ⟨fun row hr => (h row hr).1.1.1.1, fun row hr => (h row hr).1.1.1.2,
      fun row hr => (h row hr).1.1.2,
      fun row hr => (h row hr).1.2, fun row hr => (h row hr).2⟩
  · rintro ⟨h1, h2, h3, h4, h5⟩ row hr
    exact ⟨⟨⟨⟨h1 row hr, h2 row hr⟩, h3 row hr⟩, h4 row hr⟩, h5 row hr⟩

theorem reconcile_cases {command : TorrentCommand} (h : r.reconcile session permits = some command) :
    command.runs = [] ∨
    (∃ hash, command = .selectAllFiles hash ∧ r.partialHash session permits = some hash) ∨
    r.missingCommand session permits = some command ∨
    command = .start (r.stoppedHashes session permits) ∨
    command = .forceStart (r.forceHashes session) ∧ ∀ row ∈ r.records,
    row.dueBefore session permits = false := by
  unfold Records.reconcile at h
  split at h
  · cases h
    exact .inl rfl
  · next h1 =>
    split at h
    · cases h
      exact .inl rfl
    · next h2 =>
      split at h
      · next hash hp =>
        cases h
        exact .inr (.inl ⟨hash, rfl, hp⟩)
      · next h3 =>
        split at h
        · next hm =>
          cases h
          exact .inr (.inr (.inl hm))
        · next h4 =>
          split at h
          · cases h
            exact .inr (.inr (.inr (.inl rfl)))
          · next h5 =>
            split at h
            · cases h
              exact .inr (.inr (.inr (.inr
                ⟨rfl, none_dueBefore.mpr ⟨not_not.mp h1, not_not.mp h2, h3, h4, not_not.mp h5⟩⟩)))
            · split at h
              · cases h
                exact .inl rfl
              · cases h

theorem reconcile_forceStart (h : ∀ row ∈ r.records, row.dueBefore session permits = false)
    (hf : r.forceHashes session ≠ []) :
    r.reconcile session permits = some (.forceStart (r.forceHashes session)) := by
  obtain ⟨h1, h2, h3, h4, h5⟩ := none_dueBefore.mp h
  simp [Records.reconcile, h1, h2, h3, h4, h5, hf]

theorem mem_forceHashes :
    hash ∈ r.forceHashes session ↔ ∃ row ∈ r.records, ∃ torrent, row.desired = .active ∧
    row.identity.hash = some hash ∧ session.torrents[hash]? = some torrent ∧ torrent.unsatisfied ∧
    torrent.isPartial = false ∧ torrent.forceStart = .notForced := by
  unfold Records.forceHashes
  simp only [List.mem_map, List.mem_filter, Prod.exists, exists_and_right, exists_eq_right, mem_present,
    Bool.and_eq_true, Bool.not_eq_true', beq_iff_eq]
  constructor
  · rintro ⟨torrent, ⟨row, hr, hd, hh, ht⟩, ⟨hu, hp⟩, hf⟩
    exact ⟨row, hr, torrent, hd, hh, ht, hu, hp, hf⟩
  · rintro ⟨row, hr, torrent, hd, hh, ht, hu, hp, hf⟩
    exact ⟨torrent, ⟨row, hr, hd, hh, ht⟩, ⟨hu, hp⟩, hf⟩

theorem reconcile_permitted {command : TorrentCommand} {mam : MamTorrentId} (hi : r.Indexed)
    (h : r.reconcile session permits = some command) (hr : row ∈ r.records)
    (hrow : row.identity = .linked mam hash)
    (hhash : hash ∈ command.runs) (hu : session.unfinished hash) :
    permits mam ∨ command = .forceStart (r.forceHashes session) ∧
      ∀ row ∈ r.records, row.dueBefore session permits = false := by
  have hh : row.identity.hash = some hash := by rw [hrow]; rfl
  have hperm : row.identity.mamId.all permits → permits mam := by rw [hrow]; exact id
  obtain hn | ⟨hash', rfl, hp⟩ | hm | rfl | hf := reconcile_cases h
  · rw [hn] at hhash
    cases hhash
  · left
    obtain rfl := List.mem_singleton.mp hhash
    unfold Records.partialHash at hp
    obtain ⟨row', hr', hp⟩ := List.exists_of_findSome?_eq_some hp
    obtain ⟨hash', hh', hp⟩ := Option.bind_eq_some_iff.mp hp
    obtain ⟨torrent, -, hp⟩ := Option.bind_eq_some_iff.mp hp
    split at hp
    · next hc =>
      cases hp
      rw [hi.unique hr hr' hh hh'] at hperm
      exact hperm (Bool.and_eq_true_iff.mp hc).2
    · cases hp
  · left
    unfold Records.missingCommand at hm
    obtain ⟨row', hr', hm⟩ := List.exists_of_findSome?_eq_some hm
    split at hm
    · next mam' hash' hrow' =>
      split at hm
      · next hc =>
        cases hm
        obtain rfl := List.mem_singleton.mp hhash
        rw [hi.unique hr hr' hh (by rw [hrow']; rfl), hrow'] at hperm
        simp only [Bool.and_eq_true] at hc
        exact hperm hc.1.2
      · cases hm
    · cases hm
  · left
    unfold Records.stoppedHashes at hhash
    obtain ⟨row', hr', hs⟩ := List.mem_filterMap.mp hhash
    obtain ⟨hh', hp⟩ := startable_some hs
    rw [hi.unique hr (List.mem_of_mem_filter hr') hh hh'] at hperm
    exact hperm (hp hu)
  · exact .inr hf

theorem command_some {now : Instant} {command : TorrentCommand}
    (h : (r.command session permits now).2 = some command) :
    r.reconcile session permits = some command := by
  unfold Records.command at h
  split at h
  · next hc =>
    split at h
    · cases h
    · rw [hc]
      exact h
  · cases h

/-- A command is given at some time: once a minute has passed since the last. -/
theorem command_given {command : TorrentCommand} (h : r.reconcile session permits = some command) :
    ∃ now, (r.command session permits now).2 = some command := by
  refine ⟨(r.lastCommand.map fun last => last.2 + commandRepeatAfter).getD 0, ?_⟩
  have hrep : r.repeats ((r.lastCommand.map fun last =>
      last.2 + commandRepeatAfter).getD 0) command = false := by
    unfold Records.repeats
    cases r.lastCommand with
    | none => rfl
    | some last => simp [Instant.durationSince]
  simp [Records.command, h, hrep]

theorem runsPermitted_of_earlier (hi : r.Indexed) (h : ∃ row ∈ r.records, row.dueBefore session permits) :
    r.RunsPermitted session permits := by
  intro now command hc row hr mam hash hrow hhash hu
  obtain hp | ⟨-, hn⟩ := reconcile_permitted hi (command_some hc) hr hrow hhash hu
  · exact hp
  · obtain ⟨row', hr', hdue⟩ := h
    rw [hn row' hr'] at hdue
    cases hdue

theorem runsPermitted_of_reopened (hi : r.Indexed) (h : r.ReopenedPermitted session permits) :
    r.RunsPermitted session permits := by
  intro now command hc row hr mam hash hrow hhash hu
  obtain hp | ⟨rfl, -⟩ := reconcile_permitted hi (command_some hc) hr hrow hhash hu
  · exact hp
  · obtain ⟨row', hr', torrent, hd, hh', ht, hun, hp, hf⟩ := mem_forceHashes.mp hhash
    obtain rfl := hi.unique hr hr' (by rw [hrow]; rfl) hh'
    refine h row hr mam hash torrent hd hrow ht ?_
    have hst : torrent.state = .stopped .incomplete := by
      simpa [Session.unfinished, ht, hp] using hu
    simp [Torrent.reopened, hst, hun, hp, hf]

theorem reopenedPermitted_of_runs (h : r.RunsPermitted session permits)
    (hn : ∀ row ∈ r.records, row.dueBefore session permits = false) :
    r.ReopenedPermitted session permits := by
  intro row hr mam hash torrent hd hrow ht hre
  simp only [Torrent.reopened, Bool.and_eq_true, beq_iff_eq, Bool.not_eq_true'] at hre
  obtain ⟨⟨⟨hst, hun⟩, hp⟩, hf⟩ := hre
  have hmem : hash ∈ r.forceHashes session :=
    mem_forceHashes.mpr ⟨row, hr, torrent, hd, by rw [hrow]; rfl, ht, hun, hp, hf⟩
  obtain ⟨now, hc⟩ := command_given (reconcile_forceStart hn (List.ne_nil_of_mem hmem))
  refine h now _ hc row hr mam hash hrow hmem ?_
  simp [Session.unfinished, ht, hst]

end

/-! ## Permission -/

/-- Registries that runs reach are indexed, and the commands of an indexed
registry respect the permission exactly when another change comes first or every
reopened torrent is permitted. -/
theorem commands_permitted_iff (r : Records) (session : Session) (permits : MamTorrentId → Bool) :
    (∀ is, ReadsDistinct is → (core.last is).registry = .loaded r → r.Indexed) ∧
    (r.Indexed → (r.RunsPermitted session permits ↔
      (∃ row ∈ r.records, row.dueBefore session permits) ∨ r.ReopenedPermitted session permits)) := by
  refine ⟨fun is h hr => registry_indexed h hr, fun hi => ⟨fun h => ?_, ?_⟩⟩
  · by_cases hn : ∃ row ∈ r.records, row.dueBefore session permits
    · exact .inl hn
    · simp only [not_exists, not_and, Bool.not_eq_true] at hn
      exact .inr (reopenedPermitted_of_runs h hn)
  · rintro (h | h)
    · exact runsPermitted_of_earlier hi h
    · exact runsPermitted_of_reopened hi h

def someHash : TorrentHash := ⟨List.replicate 40 ⟨10, by decide⟩, .inl rfl⟩

def someRow : TorrentRecord :=
  { id := .first
    identity := .linked (Nat.toPNat' 7) someHash
    origin := .bookmark
    desired := .active
    savePath := none
    deletion := .notAllowed
    observation := none }

def reopenedSession : Session :=
  -- qBittorrent reports the torrent complete some time ago, and stopped before its end now
  { version := .release { major := 5, minor := 2, patch := 0 }
    approval := .recommended
    preferences := { listenPort := none, interface := none, queue := none }
    torrents := (∅ : Std.ExtTreeMap TorrentHash Torrent).insert someHash
      { state := .stopped .incomplete
        progress := ⟨900, by decide⟩
        size := 10
        totalSize := 10
        downloaded := 9
        completedAt := some 0 }
    activity := .deciding .sync
    position := 1
    listing := .received
    pollsSincePreferences := 0 }

theorem someRow_distinct : DistinctHashes [someRow] := List.pairwise_singleton _ _

theorem someRow_records : (Records.new [someRow]).records = [someRow] := by decide +kernel

theorem reopened_permitted :
    (∃ records, (core.last [.after 0 (.startup (.start .resume)), .after 0 (.startup .storageOpened),
      .after 0 (.registry (.read [someRow]))]).registry = .loaded records ∧ records.Indexed) ∧
    (Records.new [someRow]).RunsPermitted reopenedSession fun mam => mam == 7 := by
  refine ⟨?_, ?_⟩
  · have hs : (core.last [.after 0 (.startup (.start .resume)), .after 0 (.startup .storageOpened),
        .after 0 (.registry (.read [someRow]))]).registry.records?.isSome := by decide +kernel
    obtain ⟨records, hr⟩ := Option.isSome_iff_exists.mp hs
    have hl : (core.last [.after 0 (.startup (.start .resume)), .after 0 (.startup .storageOpened),
        .after 0 (.registry (.read [someRow]))]).registry = .loaded records := by
      generalize (core.last _).registry = g at hr ⊢
      cases g with
      | loaded r => rw [Option.some.inj hr]
      | _ => cases hr
    refine ⟨records, hl, (commands_permitted_iff records reopenedSession fun _ => true).1 _ ?_ hl⟩
    intro i hi rows he
    simp only [List.mem_cons, List.not_mem_nil, or_false] at hi
    obtain rfl | rfl | rfl := hi
    · cases he
    · cases he
    · cases he
      exact someRow_distinct
  · refine ((commands_permitted_iff _ reopenedSession _).2 (new_indexed someRow_distinct)).mpr (.inr ?_)
    intro row hr mam hash torrent _ hrow _ _
    rw [someRow_records, List.mem_singleton] at hr
    rw [hr] at hrow
    cases hrow
    rfl

/-- Nothing is permitted, and the torrent is started all the same. -/
theorem reopened_force_started : reopenedSession.listed ∧
    ((Records.new [someRow]).command reopenedSession (fun _ => false) 0).2 =
    some (.forceStart [someHash]) ∧
    ¬ (Records.new [someRow]).RunsPermitted reopenedSession fun _ => false := by
  have hc : ((Records.new [someRow]).command reopenedSession (fun _ => false) 0).2 =
      some (.forceStart [someHash]) := by decide +kernel
  refine ⟨rfl, hc, fun h => ?_⟩
  have hp := h 0 _ hc someRow (by rw [someRow_records]; exact List.mem_singleton_self _) 7 someHash rfl
    (List.mem_singleton_self _) (by decide +kernel)
  cases hp

end Windlass
