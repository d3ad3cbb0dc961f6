import Windlass.CommandSound

/-!
# Reconciliation comes to an end

The registry chooses one command at a time. When qBittorrent carries each of them
out, no torrent is named twice by commands of one kind, so the commands end after
at most seven for each row, with nothing left to change.
-/

namespace Windlass

inductive CommandKind
  | remove | stop | selectAllFiles | add | start | forceStart | endForceStart
deriving DecidableEq

def CommandKind.all : List CommandKind :=
  [.remove, .stop, .selectAllFiles, .add, .start, .forceStart, .endForceStart]

theorem CommandKind.mem_all (kind : CommandKind) : kind ∈ CommandKind.all := by
  cases kind <;> simp [CommandKind.all]

def TorrentCommand.kind : TorrentCommand → CommandKind
  | .remove _ => .remove
  | .stop _ => .stop
  | .selectAllFiles _ => .selectAllFiles
  | .add .. => .add
  | .start _ => .start
  | .forceStart _ => .forceStart
  | .endForceStart _ => .endForceStart

def TorrentCommand.names : TorrentCommand → List TorrentHash
  | .remove hashes | .stop hashes | .start hashes | .forceStart hashes | .endForceStart hashes => hashes
  | .selectAllFiles hash | .add _ hash => [hash]

/-- The torrents that commands name, each with the kind of its command. -/
def named (commands : List TorrentCommand) : List (CommandKind × TorrentHash) :=
  commands.flatMap fun command => command.names.map fun hash => (command.kind, hash)

/-! ## Commands carried out -/

structure Torrent.Fresh (t : Torrent) : Prop where
  whole : t.totalSize ≤ t.size
  running : t.isStopped = false
  unforced : t.forceStart = .notForced
  unfinished : t.completedAt = none

/-- What becomes of the torrent under a hash when qBittorrent carries a command
out. A torrent that runs may do so in any state but a stopped one. -/
def TorrentCommand.Takes (command : TorrentCommand) (hash : TorrentHash)
    (before after : Option Torrent) : Prop :=
  if hash ∈ command.names then
    match command with
    | .remove _ => after = none
    | .stop _ => after = before.map fun torrent => { torrent with state := .stopped .incomplete }
    | .selectAllFiles _ => after = before.map fun torrent => { torrent with size := torrent.totalSize }
    | .add .. => ∃ torrent, after = some torrent ∧ torrent.Fresh
    | .start _ => ∃ state, (∀ completion, state ≠ .stopped completion) ∧
        after = before.map fun torrent => { torrent with state := state }
    | .forceStart _ => ∃ state, (∀ completion, state ≠ .stopped completion) ∧
        after = before.map fun torrent => { torrent with state := state, forceStart := .forced }
    | .endForceStart _ => after = before.map fun torrent => { torrent with forceStart := .notForced }
  else after = before

def Records.Obeys (r : Records) (permits : MamTorrentId → Bool) (session : Session)
    (commands : List TorrentCommand)
    (session' : Session) : Prop :=
  ∃ command torrents, commands = [command] ∧ r.reconcile session permits = some command ∧
    (∀ hash : TorrentHash, command.Takes hash session.torrents[hash]? torrents[hash]?) ∧
    session' = { session with torrents := torrents }

def Records.Obeyed (r : Records) (permits : MamTorrentId → Bool) :
    Session → List TorrentCommand → Session → Prop :=
  Reactive.Chain (r.Obeys permits)

/-! ## What a kind of command waits for -/

def CommandKind.desired : CommandKind → Desired
  | .remove => .removed
  | .stop => .held
  | .selectAllFiles | .add | .start | .forceStart | .endForceStart => .active

def CommandKind.Needs (kind : CommandKind) (torrent : Option Torrent) : Prop :=
  match kind with
  | .remove => torrent ≠ none
  | .stop => ∃ t, torrent = some t ∧ t.isStopped = false
  | .selectAllFiles => ∃ t, torrent = some t ∧ t.size < t.totalSize
  | .add => torrent = none
  | .start => ∃ t, torrent = some t ∧ t.isStopped
  | .forceStart => ∃ t, torrent = some t ∧ t.unsatisfied ∧ t.forceStart = .notForced
  | .endForceStart => ∃ t, torrent = some t ∧ t.unsatisfied = false ∧ t.forceStart = .forced

def CommandKind.Over (kind : CommandKind) (torrent : Option Torrent) : Prop :=
  match kind with
  | .remove => torrent = none
  | .stop => ∃ t, torrent = some t ∧ t.isStopped
  | .selectAllFiles => ∃ t, torrent = some t ∧ t.totalSize ≤ t.size
  | .add => torrent ≠ none
  | .start => ∃ t, torrent = some t ∧ t.isStopped = false
  | .forceStart => ∃ t, torrent = some t ∧ t.unsatisfied ∧ t.forceStart = .forced
  | .endForceStart => ∃ t, torrent = some t ∧ t.unsatisfied = false ∧ t.forceStart = .notForced

section
variable {kind : CommandKind} {command : TorrentCommand} {hash : TorrentHash}
  {before after : Option Torrent}

theorem CommandKind.Over.not_needs (h : kind.Over before) : ¬ kind.Needs before := by
  rcases before with _ | t
  · cases kind <;> simp [CommandKind.Over, CommandKind.Needs] at h ⊢
  · cases kind <;> simp [CommandKind.Over, CommandKind.Needs] at h ⊢
    · exact h
    · exact h
    · exact h
    · exact fun _ => by simp [h.2]
    · exact fun _ => by simp [h.2]

theorem isStopped_running {t : Torrent} {state : TorrentState}
    (h : ∀ completion, state ≠ .stopped completion)
    (ht : t.state = state) : t.isStopped = false := by
  unfold Torrent.isStopped
  rw [ht]
  split
  · next completion => exact absurd rfl (h completion)
  · rfl

theorem TorrentCommand.Takes.over (ht : command.Takes hash before after) (hm : hash ∈ command.names)
    (hn : command.kind.Needs before) : command.kind.Over after := by
  unfold TorrentCommand.Takes at ht
  rw [if_pos hm] at ht
  cases command with
  | remove => exact ht
  | stop =>
    obtain ⟨t, rfl, -⟩ := hn
    exact ⟨_, ht, rfl⟩
  | selectAllFiles =>
    obtain ⟨t, rfl, -⟩ := hn
    exact ⟨_, ht, le_rfl⟩
  | add =>
    obtain ⟨t, rfl, -⟩ := ht
    exact Option.some_ne_none t
  | start =>
    obtain ⟨t, rfl, -⟩ := hn
    obtain ⟨state, hrun, ht⟩ := ht
    exact ⟨_, ht, isStopped_running hrun rfl⟩
  | forceStart =>
    obtain ⟨t, rfl, hu, -⟩ := hn
    obtain ⟨state, -, ht⟩ := ht
    exact ⟨_, ht, hu, rfl⟩
  | endForceStart =>
    obtain ⟨t, rfl, hu, -⟩ := hn
    exact ⟨_, ht, hu, rfl⟩

/-- What is over for an active row stays over when its torrent keeps what decides
it. -/
theorem CommandKind.Over.of_torrent {t t' : Torrent} (h : kind.Over (some t))
    (hk : kind.desired = .active)
    (hstopped : t'.isStopped = false ∨ t'.isStopped = t.isStopped)
    (hwhole : t.totalSize ≤ t.size → t'.totalSize ≤ t'.size)
    (hu : t'.unsatisfied = t.unsatisfied)
    (hf : t'.forceStart = t.forceStart ∨ t'.unsatisfied = decide (t'.forceStart = .forced)) :
    kind.Over (some t') := by
  cases kind with
  | remove => cases hk
  | stop => cases hk
  | selectAllFiles =>
    obtain ⟨_, ⟨⟩, hw⟩ := h
    exact ⟨t', rfl, hwhole hw⟩
  | add => exact Option.some_ne_none t'
  | start =>
    obtain ⟨_, ⟨⟩, hs⟩ := h
    exact ⟨t', rfl, hstopped.elim id fun heq => heq.trans hs⟩
  | forceStart =>
    obtain ⟨_, ⟨⟩, hun, hforce⟩ := h
    rw [← hu] at hun
    refine ⟨t', rfl, hun, ?_⟩
    obtain hf | hf := hf
    · exact hf.trans hforce
    · rw [hun] at hf
      exact of_decide_eq_true hf.symm
  | endForceStart =>
    obtain ⟨_, ⟨⟩, hun, hforce⟩ := h
    rw [← hu] at hun
    refine ⟨t', rfl, hun, ?_⟩
    obtain hf | hf := hf
    · exact hf.trans hforce
    · rw [hun] at hf
      have hne := of_decide_eq_false hf.symm
      cases hforced : t'.forceStart with
      | notForced => rfl
      | forced => exact absurd hforced hne

/-- What is over stays over, whatever command for the same row comes next. -/
theorem CommandKind.Over.kept (h : kind.Over before) (ht : command.Takes hash before after)
    (hn : hash ∈ command.names → command.kind.Needs before ∧ command.kind.desired = kind.desired) :
    kind.Over after := by
  unfold TorrentCommand.Takes at ht
  split at ht
  · next hm =>
    obtain ⟨hneeds, hd⟩ := hn hm
    have hne : command.kind ≠ kind := by
      rintro rfl
      exact h.not_needs hneeds
    -- no command undoes what another for rows wanted alike has done
    cases command with
    | remove =>
      cases kind with
      | remove => exact absurd rfl hne
      | _ => cases hd
    | stop =>
      cases kind with
      | stop => exact absurd rfl hne
      | _ => cases hd
    | add =>
      cases hneeds
      cases kind with
      | add => exact absurd rfl hne
      | remove => cases hd
      | stop => cases hd
      | _ =>
        obtain ⟨t, hnone, -⟩ := h
        cases hnone
    | selectAllFiles =>
      obtain ⟨t, rfl, -⟩ := hneeds
      rw [ht]
      exact h.of_torrent hd.symm (.inr rfl) (fun _ => le_rfl) rfl (.inl rfl)
    | start =>
      obtain ⟨t, rfl, -⟩ := hneeds
      obtain ⟨state, hrun, ht⟩ := ht
      rw [ht]
      exact h.of_torrent hd.symm (.inl (isStopped_running hrun rfl)) id rfl (.inl rfl)
    | forceStart =>
      obtain ⟨t, rfl, hu, -⟩ := hneeds
      obtain ⟨state, hrun, ht⟩ := ht
      rw [ht]
      exact h.of_torrent hd.symm (.inl (isStopped_running hrun rfl)) id rfl (.inr hu)
    | endForceStart =>
      obtain ⟨t, rfl, hu, -⟩ := hneeds
      rw [ht]
      exact h.of_torrent hd.symm (.inr rfl) id rfl (.inr hu)
  · rw [ht]
    exact h

end

/-! ## The commands of the rows -/

section
variable {r : Records} {session : Session} {permits : MamTorrentId → Bool} {command : TorrentCommand}

theorem reconcile_chosen (h : r.reconcile session permits = some command) :
    command = .remove (r.removedHashes session) ∧ r.removedHashes session ≠ [] ∨
    command = .stop (r.runningHashes session) ∧ r.runningHashes session ≠ [] ∨
    (∃ hash, command = .selectAllFiles hash ∧ r.partialHash session permits = some hash) ∨
    r.missingCommand session permits = some command ∨
    command = .start (r.stoppedHashes session permits) ∧ r.stoppedHashes session permits ≠ [] ∨
    command = .forceStart (r.forceHashes session) ∧ r.forceHashes session ≠ [] ∨
    command = .endForceStart (r.releaseHashes session) ∧ r.releaseHashes session ≠ [] := by
  unfold Records.reconcile at h
  split at h
  · next hne => exact .inl ⟨(Option.some.inj h).symm, hne⟩
  · right
    split at h
    · next hne => exact .inl ⟨(Option.some.inj h).symm, hne⟩
    · right
      split at h
      · next hash hp => exact .inl ⟨hash, (Option.some.inj h).symm, hp⟩
      · right
        split at h
        · next hm => exact .inl (hm.trans h)
        · right
          split at h
          · next hne => exact .inl ⟨(Option.some.inj h).symm, hne⟩
          · right
            split at h
            · next hne => exact .inl ⟨(Option.some.inj h).symm, hne⟩
            · right
              split at h
              · next hne => exact ⟨(Option.some.inj h).symm, hne⟩
              · cases h

theorem missingCommand_add (h : r.missingCommand session permits = some command) :
    ∃ mam hash, command = .add mam hash := by
  unfold Records.missingCommand at h
  obtain ⟨row, -, h⟩ := List.exists_of_findSome?_eq_some h
  split at h
  · next mam hash _ =>
    split at h
    · cases h
      exact ⟨mam, hash, rfl⟩
    · cases h
  · cases h

theorem mem_present_filter {desired : Desired} {p : Torrent → Bool} {hash : TorrentHash}
    (h : hash ∈ ((r.present session desired).filter fun q => p q.2).map (·.1)) :
    ∃ row ∈ r.records, row.identity.hash = some hash ∧ row.desired = desired ∧
      ∃ torrent, session.torrents[hash]? = some torrent ∧ p torrent := by
  obtain ⟨⟨hash', torrent⟩, hq, rfl⟩ := List.mem_map.mp h
  obtain ⟨hmem, hp⟩ := List.mem_filter.mp hq
  obtain ⟨row, hr, hd, hh, ht⟩ := mem_present.mp hmem
  exact ⟨row, hr, hh, hd, torrent, ht, hp⟩

theorem size_lt_of_partial {t : Torrent} (h : t.isPartial) : t.size < t.totalSize := by
  unfold Torrent.isPartial at h
  rw [Bool.and_eq_true, decide_eq_true_eq, decide_eq_true_eq] at h
  exact h.2

theorem startable_stopped {row : TorrentRecord} {hash : TorrentHash}
    (h : Records.startable session permits row = some hash) :
    row.identity.hash = some hash ∧ ∃ torrent,
    session.torrents[hash]? = some torrent ∧ torrent.isStopped := by
  unfold Records.startable at h
  obtain ⟨hash', hh, h⟩ := Option.bind_eq_some_iff.mp h
  obtain ⟨torrent, ht, h⟩ := Option.bind_eq_some_iff.mp h
  split at h
  · next hs =>
    cases h
    simp only [Bool.and_eq_true] at hs
    exact ⟨hh, torrent, ht, hs.1.1⟩
  · cases h

theorem reconcile_needs (h : r.reconcile session permits = some command) {hash : TorrentHash}
    (hm : hash ∈ command.names) : ∃ row ∈ r.records, row.identity.hash = some hash ∧
      row.desired = command.kind.desired ∧ command.kind.Needs session.torrents[hash]? := by
  obtain ⟨rfl, -⟩ | ⟨rfl, -⟩ | ⟨hash', rfl, hp⟩ | hm' | ⟨rfl, -⟩ | ⟨rfl, -⟩ | ⟨rfl, -⟩ :=
    reconcile_chosen h
  · obtain ⟨row, hr, hh, hd, torrent, ht, -⟩ := mem_present_filter hm
    exact ⟨row, hr, hh, hd, by rw [ht]; exact Option.some_ne_none torrent⟩
  · obtain ⟨row, hr, hh, hd, torrent, ht, hrun⟩ :=
      mem_present_filter (p := fun t => t.completedAt.isNone && !t.isStopped) hm
    rw [Bool.and_eq_true, Bool.not_eq_true'] at hrun
    exact ⟨row, hr, hh, hd, torrent, ht, hrun.2⟩
  · obtain rfl := List.mem_singleton.mp hm
    unfold Records.partialHash at hp
    obtain ⟨row, hr, hp⟩ := List.exists_of_findSome?_eq_some hp
    obtain ⟨hash', hh, hp⟩ := Option.bind_eq_some_iff.mp hp
    obtain ⟨torrent, ht, hp⟩ := Option.bind_eq_some_iff.mp hp
    split at hp
    · next hc =>
      cases hp
      simp only [Bool.and_eq_true, beq_iff_eq] at hc
      exact ⟨row, hr, hh, hc.1.1, torrent, ht, size_lt_of_partial hc.1.2⟩
    · cases hp
  · unfold Records.missingCommand at hm'
    obtain ⟨row, hr, hm'⟩ := List.exists_of_findSome?_eq_some hm'
    split at hm'
    · next mam hash' hrow =>
      split at hm'
      · next hc =>
        cases hm'
        obtain rfl := List.mem_singleton.mp hm
        simp only [Bool.and_eq_true, beq_iff_eq, Bool.not_eq_true'] at hc
        exact ⟨row, hr, by rw [hrow]; rfl, hc.1.1.1,
          Std.ExtTreeMap.getElem?_eq_none_of_contains_eq_false hc.2⟩
      · cases hm'
    · cases hm'
  · unfold Records.stoppedHashes at hm
    obtain ⟨row, hr, hs⟩ := List.mem_filterMap.mp hm
    obtain ⟨hr, hd⟩ := List.mem_filter.mp hr
    obtain ⟨hh, hstopped⟩ := startable_stopped hs
    exact ⟨row, hr, hh, beq_iff_eq.mp hd, hstopped⟩
  · obtain ⟨row, hr, torrent, hd, hh, ht, hu, -, hf⟩ := mem_forceHashes.mp hm
    exact ⟨row, hr, hh, hd, torrent, ht, hu, hf⟩
  · obtain ⟨row, hr, hh, hd, torrent, ht, hrel⟩ :=
      mem_present_filter (p := fun t => !t.unsatisfied && t.forceStart == .forced) hm
    rw [Bool.and_eq_true, Bool.not_eq_true', beq_iff_eq] at hrel
    exact ⟨row, hr, hh, hd, torrent, ht, hrel⟩

theorem present_filter_nodup (hd : DistinctHashes r.records) {desired : Desired} {p : Torrent → Bool} :
    (((r.present session desired).filter fun q => p q.2).map (·.1)).Nodup := by
  refine List.pairwise_map.mpr (List.Pairwise.filter _ ?_)
  refine List.Pairwise.filterMap _ ?_ (List.Pairwise.filter _ hd)
  rintro row row' hne ⟨hash, torrent⟩ h ⟨hash', torrent'⟩ h' heq
  simp only [Option.bind_eq_some_iff, Option.map_eq_some_iff, Prod.mk.injEq] at h h'
  obtain ⟨_, hh, -, -, rfl, -⟩ := h
  obtain ⟨_, hh', -, -, rfl, -⟩ := h'
  dsimp only at heq
  subst heq
  exact hne _ hh hh'

theorem reconcile_names (hd : DistinctHashes r.records) (h : r.reconcile session permits = some command) :
    command.names ≠ [] ∧ command.names.Nodup := by
  obtain ⟨rfl, hne⟩ | ⟨rfl, hne⟩ | ⟨hash, rfl, -⟩ | hm | ⟨rfl, hne⟩ | ⟨rfl, hne⟩ | ⟨rfl, hne⟩ :=
    reconcile_chosen h
  · exact ⟨hne, present_filter_nodup hd⟩
  · exact ⟨hne, present_filter_nodup (p := fun t => t.completedAt.isNone && !t.isStopped) hd⟩
  · exact ⟨List.cons_ne_nil _ _, List.nodup_singleton hash⟩
  · obtain ⟨mam, hash, rfl⟩ := missingCommand_add hm
    exact ⟨List.cons_ne_nil _ _, List.nodup_singleton hash⟩
  · refine ⟨hne, List.Pairwise.filterMap _ ?_ (List.Pairwise.filter _ hd)⟩
    rintro row row' hdist hash hs hash' hs' rfl
    exact hdist hash (startable_stopped hs).1 (startable_stopped hs').1
  · exact ⟨hne, present_filter_nodup
      (p := fun t => t.unsatisfied && !t.isPartial && t.forceStart == .notForced) hd⟩
  · exact ⟨hne, present_filter_nodup (p := fun t => !t.unsatisfied && t.forceStart == .forced) hd⟩

end

/-! ## Chains of commands -/

section
variable {r : Records} {permits : MamTorrentId → Bool} {session session' : Session}
  {commands : List TorrentCommand}

theorem named_append (commands commands' : List TorrentCommand) :
    named (commands ++ commands') = named commands ++ named commands' := List.flatMap_append

theorem mem_named_singleton {command : TorrentCommand} {kind : CommandKind} {hash : TorrentHash} :
    (kind, hash) ∈ named [command] ↔ hash ∈ command.names ∧ command.kind = kind := by
  simp only [named, List.flatMap_cons, List.flatMap_nil, List.append_nil, List.mem_map, Prod.mk.injEq]
  constructor
  · rintro ⟨_, hm, rfl, rfl⟩
    exact ⟨hm, rfl⟩
  · rintro ⟨hm, rfl⟩
    exact ⟨hash, hm, rfl, rfl⟩

structure Records.Settling (r : Records) (commands : List TorrentCommand) (session : Session) : Prop where
  nodup : (named commands).Nodup
  through : ∀ kind hash, (kind, hash) ∈ named commands →
    ∃ row ∈ r.records, row.identity.hash = some hash ∧
    row.desired = kind.desired ∧ kind.Over session.torrents[hash]?

theorem distinct_row (hd : DistinctHashes r.records) {row row' : TorrentRecord} {hash : TorrentHash}
    (hr : row ∈ r.records) (hr' : row' ∈ r.records) (hh : row.identity.hash = some hash)
    (hh' : row'.identity.hash = some hash) : row = row' := by
  by_contra hne
  have hsymm : Std.Symm fun row row' : TorrentRecord =>
      ∀ hash, row.identity.hash = some hash → row'.identity.hash ≠ some hash :=
    ⟨fun _ _ h hash hh' hh => h hash hh hh'⟩
  exact hd.forall hr hr' hne hash hh hh'

theorem Records.Settling.step (hd : DistinctHashes r.records) (h : r.Settling commands session)
    {given : List TorrentCommand} (hs : r.Obeys permits session given session') :
    r.Settling (commands ++ given) session' := by
  obtain ⟨command, torrents, rfl, hc, htakes, rfl⟩ := hs
  have hneeds {kind : CommandKind} {hash : TorrentHash} {row : TorrentRecord} (hr : row ∈ r.records)
      (hh : row.identity.hash = some hash) (hdes : row.desired =
        kind.desired) (hm : hash ∈ command.names) :
      command.kind.Needs session.torrents[hash]? ∧ command.kind.desired = kind.desired := by
    obtain ⟨row', hr', hh', hd', hn⟩ := reconcile_needs hc hm
    rw [distinct_row hd hr' hr hh' hh] at hd'
    exact ⟨hn, hd'.symm.trans hdes⟩
  constructor
  · rw [named_append, List.nodup_append]
    refine ⟨h.nodup, ?_, ?_⟩
    · simp only [named, List.flatMap_cons, List.flatMap_nil, List.append_nil]
      exact (reconcile_names hd hc).2.map fun hash hash' heq => (Prod.mk.inj heq).2
    · rintro ⟨kind, hash⟩ hold ⟨kind', hash'⟩ hnew heq
      cases heq
      obtain ⟨hm, rfl⟩ := mem_named_singleton.mp hnew
      obtain ⟨row, hr, hh, hdes, hover⟩ := h.through _ hash hold
      exact hover.not_needs (hneeds hr hh hdes hm).1
  · intro kind hash hmem
    rw [named_append, List.mem_append] at hmem
    obtain hold | hnew := hmem
    · obtain ⟨row, hr, hh, hdes, hover⟩ := h.through kind hash hold
      exact ⟨row, hr, hh, hdes, hover.kept (htakes hash) (hneeds hr hh hdes)⟩
    · obtain ⟨hm, rfl⟩ := mem_named_singleton.mp hnew
      obtain ⟨row, hr, hh, hdes, hn⟩ := reconcile_needs hc hm
      exact ⟨row, hr, hh, hdes, (htakes hash).over hm hn⟩

theorem Records.Obeyed.settling (hd : DistinctHashes r.records)
    (h : r.Obeyed permits session commands session') :
    r.Settling commands session' := by
  induction h with
  | refl => exact ⟨List.nodup_nil, fun kind hash hm => by cases hm⟩
  | tail _ hs ih => exact ih.step hd hs

theorem Records.Obeyed.length_le_named (hd : DistinctHashes r.records)
    (h : r.Obeyed permits session commands session') : commands.length ≤ (named commands).length := by
  induction h with
  | refl => exact le_rfl
  | tail _ hs ih =>
    obtain ⟨command, torrents, rfl, hc, -⟩ := hs
    have hpos := List.length_pos_iff.mpr (reconcile_names hd hc).1
    rw [named_append, List.length_append, List.length_append]
    simp only [named, List.flatMap_cons, List.flatMap_nil, List.append_nil, List.length_map,
      List.length_singleton]
      at ih ⊢
    omega

theorem named_length_le (h : r.Settling commands session) :
    (named commands).length ≤ 7 * r.records.length := by
  have hsub : named commands ⊆ CommandKind.all ×ˢ r.records.filterMap (·.identity.hash) := by
    rintro ⟨kind, hash⟩ hm
    obtain ⟨row, hr, hh, -⟩ := h.through kind hash hm
    exact List.mem_product.mpr ⟨kind.mem_all, List.mem_filterMap.mpr ⟨row, hr, hh⟩⟩
  have hle := (h.nodup.subperm hsub).length_le
  have hrows := List.length_filterMap_le (fun row : TorrentRecord => row.identity.hash) r.records
  rw [List.length_product] at hle
  have hseven : CommandKind.all.length = 7 := rfl
  rw [hseven] at hle
  omega

/-- Commands are chosen one after another as long as the rows need a change. -/
theorem obeyed_upto {sessions : ℕ → Session} (hstep : ∀ n, r.reconcile (sessions n) permits = none ∨
    ∃ command, r.Obeys permits (sessions n) [command] (sessions (n + 1))) {n : ℕ}
    (hn : ∀ m < n, r.reconcile (sessions m) permits ≠ none) :
    ∃ commands, commands.length = n ∧ r.Obeyed permits (sessions 0) commands (sessions n) := by
  induction n with
  | zero => exact ⟨[], rfl, .refl _⟩
  | succ n ih =>
    obtain ⟨commands, hl, hc⟩ := ih fun m hm => hn m (by omega)
    obtain hnone | ⟨command, hs⟩ := hstep n
    · exact absurd hnone (hn n (by omega))
    · exact ⟨commands ++ [command], by simp [hl], hc.tail hs⟩

end

/-! ## A way to carry commands out -/

def TorrentCommand.change (command : TorrentCommand) (torrent : Torrent) : Option Torrent :=
  match command with
  | .remove _ => none
  | .stop _ => some { torrent with state := .stopped .incomplete }
  | .selectAllFiles _ => some { torrent with size := torrent.totalSize }
  | .add .. => some torrent
  | .start _ => some { torrent with state := .downloading }
  | .forceStart _ => some { torrent with state := .downloading, forceStart := .forced }
  | .endForceStart _ => some { torrent with forceStart := .notForced }

def TorrentCommand.carryOut (command : TorrentCommand) (torrents : Std.ExtTreeMap TorrentHash Torrent) :
    Std.ExtTreeMap TorrentHash Torrent :=
  match command with
  | .add _ hash => torrents.insert hash { state := .downloading }
  | command => torrents.filterMap fun hash torrent =>
      if hash ∈ command.names then command.change torrent else some torrent

theorem carryOut_takes (command : TorrentCommand) (torrents : Std.ExtTreeMap TorrentHash Torrent)
    (hash : TorrentHash) :
    command.Takes hash torrents[hash]? (command.carryOut torrents)[hash]? := by
  have hrun : ∀ completion, TorrentState.downloading ≠ .stopped completion := by
    intro completion h
    cases h
  have hfilter (command : TorrentCommand) : (torrents.filterMap fun hash torrent =>
      if hash ∈ command.names then command.change torrent else some torrent)[hash]? =
        if hash ∈ command.names then torrents[hash]?.bind command.change else torrents[hash]? := by
    rw [Std.ExtTreeMap.getElem?_filterMap']
    by_cases hm : hash ∈ command.names
    · simp only [hm, if_true]
    · simp only [hm, if_false, Option.bind_fun_some]
  unfold TorrentCommand.Takes
  by_cases hm : hash ∈ command.names
  · rw [if_pos hm]
    cases command with
    | add mam hash' =>
      obtain rfl := List.mem_singleton.mp hm
      exact ⟨{ state := .downloading }, by simp [TorrentCommand.carryOut], ⟨le_rfl, rfl, rfl, rfl⟩⟩
    | start hashes =>
      refine ⟨.downloading, hrun, ?_⟩
      simp only [TorrentCommand.carryOut, hfilter, if_pos hm]
      cases torrents[hash]? <;> rfl
    | forceStart hashes =>
      refine ⟨.downloading, hrun, ?_⟩
      simp only [TorrentCommand.carryOut, hfilter, if_pos hm]
      cases torrents[hash]? <;> rfl
    | _ =>
      simp only [TorrentCommand.carryOut, hfilter, if_pos hm]
      cases torrents[hash]? <;> rfl
  · rw [if_neg hm]
    cases command with
    | add mam hash' =>
      have hne : hash' ≠ hash := by
        rintro rfl
        exact hm (List.mem_singleton_self _)
      simp [TorrentCommand.carryOut, Std.ExtTreeMap.getElem?_insert, hne]
    | _ => simp only [TorrentCommand.carryOut, hfilter, if_neg hm]

def Records.driven (r : Records) (permits : MamTorrentId → Bool) (session : Session) : ℕ → Session
  | 0 => session
  | n + 1 =>
    let session := Records.driven r permits session n
    match r.reconcile session permits with
    | some command => { session with torrents := command.carryOut session.torrents }
    | none => session

theorem driven_obeys (r : Records) (permits : MamTorrentId → Bool) (session : Session) (n : ℕ) :
    r.reconcile (r.driven permits session n) permits = none ∨
      ∃ command, r.Obeys permits (r.driven permits session n) [command]
      (r.driven permits session (n + 1)) := by
  cases hc : r.reconcile (r.driven permits session n) permits with
  | none => exact .inl rfl
  | some command =>
    refine .inr ⟨command, command, _, rfl, hc, carryOut_takes command _, ?_⟩
    rw [Records.driven]
    simp only [hc]

/-! ## The end of reconciliation -/

/-- However qBittorrent carries the commands out, choosing the next as long as the
rows need a change ends after at most seven commands for each row, and no two
commands of one kind name the same torrent. From every session some way of
carrying them out gets there. -/
theorem reconcile_converges {r : Records} (hd : DistinctHashes r.records)
    (permits : MamTorrentId → Bool) :
    (∀ sessions : ℕ → Session,
      (∀ n, r.reconcile (sessions n) permits = none ∨
        ∃ command, r.Obeys permits (sessions n) [command] (sessions (n + 1))) →
      ∃ n ≤ 7 * r.records.length, r.reconcile (sessions n) permits = none) ∧
    (∀ session commands session', r.Obeyed permits session commands session' → (named commands).Nodup) ∧
    ∀ session, ∃ commands last,
    r.Obeyed permits session commands last ∧ r.reconcile last permits = none := by
  have hends : ∀ sessions : ℕ → Session,
      (∀ n, r.reconcile (sessions n) permits = none ∨
        ∃ command, r.Obeys permits (sessions n) [command] (sessions (n + 1))) →
      ∃ n ≤ 7 * r.records.length, r.reconcile (sessions n) permits = none := by
    intro sessions hstep
    by_contra hnone
    have hall : ∀ m < 7 * r.records.length + 1, r.reconcile (sessions m) permits ≠ none :=
      fun m hm hr => hnone ⟨m, by omega, hr⟩
    obtain ⟨commands, hl, hc⟩ := obeyed_upto hstep hall
    have hle := hc.length_le_named hd
    have hbound := named_length_le (hc.settling hd)
    omega
  refine ⟨hends, fun session commands session' h => (h.settling hd).nodup, fun session => ?_⟩
  obtain ⟨n, -, hn⟩ := hends (r.driven permits session) (driven_obeys r permits session)
  have hex : ∃ n, r.reconcile (r.driven permits session n) permits = none := ⟨n, hn⟩
  obtain ⟨commands, -, hc⟩ := obeyed_upto (driven_obeys r permits session) fun m hm => Nat.find_min hex hm
  exact ⟨commands, _, hc, Nat.find_spec hex⟩

def hashOf (n : Nat) : TorrentHash :=
  ⟨List.replicate 40 ⟨n % 16, Nat.mod_lt n (by decide)⟩, .inl List.length_replicate⟩

def rowFor (id : Nat) (desired : Desired) : TorrentRecord :=
  { someRow with id := id.toPNat', identity := .linked id.toPNat' (hashOf id), desired := desired }

def variedRows : List TorrentRecord :=
  [rowFor 1 .removed, rowFor 2 .held, rowFor 3 .active, rowFor 4 .active, rowFor 5 .active,
    rowFor 6 .active, rowFor 7 .active]

def variedSession : Session :=
  -- the torrents of the rows but the fourth, each in a state its row does not want
  let finished : Torrent := { state := .seeding, completedAt := some 0 }
  let seeded : Torrent := { finished with seedingTime := seedingTarget }
  { reopenedSession with
    torrents := Std.ExtTreeMap.ofList
      [(hashOf 1, seeded),
        (hashOf 2, { seeded with state := .downloading, completedAt := none }),
        (hashOf 3, { seeded with size := 5, totalSize := 10 }),
        (hashOf 5, { seeded with state := .stopped .incomplete }),
        (hashOf 6, finished),
        (hashOf 7, { seeded with forceStart := .forced })] }

/-- Seven rows get a command of every kind in turn, and then none. -/
theorem every_kind_carried_out :
    ((List.range 8).map fun n =>
      ((Records.new variedRows).reconcile ((Records.new variedRows).driven (fun _ =>
        true) variedSession n)
        fun _ => true).map TorrentCommand.kind) = CommandKind.all.map some ++ [none] ∧
    ∃ commands last, (Records.new variedRows).Obeyed (fun _ => true) variedSession commands last ∧
      (Records.new variedRows).reconcile last (fun _ => true) = none ∧ (named commands).Nodup := by
  have hrecords : (Records.new variedRows).records = variedRows := by decide +kernel
  have hhashes : variedRows.Pairwise fun row row' => row.identity.hash ≠ row'.identity.hash := by
    decide +kernel
  have hd : DistinctHashes (Records.new variedRows).records := by
    rw [hrecords]
    exact hhashes.imp fun hne hash h h' => hne (h.trans h'.symm)
  obtain ⟨-, hnames, hlast⟩ := reconcile_converges hd fun _ => true
  obtain ⟨commands, last, hc, hnone⟩ := hlast variedSession
  refine ⟨?_, commands, last, hc, hnone, hnames _ _ _ hc⟩
  decide +kernel

end Windlass
