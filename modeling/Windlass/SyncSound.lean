import Windlass.PreferencesSound
import Windlass.Mirror

/-!
# Mirroring qBittorrent's torrents

A session's torrents are a mirror of the server's: the first update lists them
all, a later one lists them all again or carries what changed. The machine
below runs the core beside the server, whose torrents stand at each event, and
keeps what the session's last update reported.
-/

namespace Windlass

open Reactive

/-! ## A torrent's fields -/

inductive TorrentField
  | name | state | progress | size | totalSize | downloaded | uploaded | ratio | seedingTime | addedAt | completedAt
  | contentPath | savePath | forceStart

abbrev TorrentField.Value : TorrentField → Type
  | .name | .contentPath | .savePath => Option NonEmpty
  | .state => TorrentState
  | .progress => Progress
  | .size | .totalSize | .downloaded | .uploaded => ByteSize
  | .ratio => Ratio
  | .seedingTime => Duration
  | .addedAt | .completedAt => Option SystemTime
  | .forceStart => ForceStart

def Torrent.get (t : Torrent) : ∀ f : TorrentField, f.Value
  | .name => t.name
  | .state => t.state
  | .progress => t.progress
  | .size => t.size
  | .totalSize => t.totalSize
  | .downloaded => t.downloaded
  | .uploaded => t.uploaded
  | .ratio => t.ratio
  | .seedingTime => t.seedingTime
  | .addedAt => t.addedAt
  | .completedAt => t.completedAt
  | .contentPath => t.contentPath
  | .savePath => t.savePath
  | .forceStart => t.forceStart

def TorrentUpdate.given (u : TorrentUpdate) : ∀ f : TorrentField, Option f.Value
  | .name => u.name
  | .state => u.state
  | .progress => u.progress
  | .size => u.size
  | .totalSize => u.totalSize
  | .downloaded => u.downloaded
  | .uploaded => u.uploaded
  | .ratio => u.ratio
  | .seedingTime => u.seedingTime
  | .addedAt => u.addedAt
  | .completedAt => u.completedAt
  | .contentPath => u.contentPath
  | .savePath => u.savePath
  | .forceStart => u.forceStart

theorem get_apply (t : Torrent) (u : TorrentUpdate) (f : TorrentField) :
    (t.apply u).get f = (u.given f).getD (t.get f) := by
  cases f <;> rfl

theorem torrent_ext {t t' : Torrent} (h : ∀ f, t.get f = t'.get f) : t = t' := by
  cases t
  cases t'
  simp only [Torrent.mk.injEq]
  exact ⟨h .name, h .state, h .progress, h .size, h .totalSize, h .downloaded, h .uploaded,
    h .ratio, h .seedingTime,
    h .addedAt, h .completedAt, h .contentPath, h .savePath, h .forceStart⟩

def torrentFields : Mirror.Fields TorrentField TorrentField.Value Torrent TorrentUpdate where
  get := Torrent.get
  given := TorrentUpdate.given
  blank := {}
  patch := Torrent.apply
  get_patch := get_apply
  ext _ _ := torrent_ext

/-! ## One update -/

abbrev Torrents := Std.ExtTreeMap TorrentHash Torrent

theorem apply_torrents (s : Session) (u : SyncUpdate) : (s.apply u).torrents =
    Mirror.drop (torrentFields.merge (if u.scope =
      .full then ∅ else s.torrents) u.torrents) u.removed := by
  unfold Session.apply
  split <;> rfl

theorem apply_listing (s : Session) (u : SyncUpdate) :
    (s.apply u).listing = if u.scope = .full then .received else s.listing := by
  unfold Session.apply
  split <;> rfl

/-- What the update reports of the server's torrents, to a session that was last
told `seen`: all of them, or at least what changed since. -/
inductive Reports (seen : Option Torrents) (server : Torrents) (u : SyncUpdate) : Prop
  | full (scope : u.scope = .full) (carries : Mirror.Carries torrentFields ∅ server u.torrents u.removed)
  | changes (old : Torrents) (told : seen = some old) (scope : u.scope = .changes)
      (carries : Mirror.Carries torrentFields old server u.torrents u.removed)

theorem Reports.again {server : Torrents} {u : SyncUpdate} (h : Reports none server u)
    (seen : Option Torrents) :
    Reports seen server u := by
  cases h with
  | full scope carries => exact .full scope carries
  | changes old told => cases told

def Torrent.whole (t : Torrent) : TorrentUpdate where
  name := some t.name
  state := some t.state
  progress := some t.progress
  size := some t.size
  totalSize := some t.totalSize
  downloaded := some t.downloaded
  uploaded := some t.uploaded
  ratio := some t.ratio
  seedingTime := some t.seedingTime
  addedAt := some t.addedAt
  completedAt := some t.completedAt
  contentPath := some t.contentPath
  savePath := some t.savePath
  forceStart := some t.forceStart

theorem given_whole (t : Torrent) (f : TorrentField) : t.whole.given f = some (t.get f) := by
  cases f <;> rfl

/-- The update of a server that gives changed torrents whole. -/
def SyncUpdate.between (position : SyncPosition) (seen : Option Torrents) (server : Torrents) :
    SyncUpdate where
  position := position
  scope := if seen.isSome then .changes else .full
  torrents := Mirror.changed Torrent.whole (seen.getD ∅) server
  removed := Mirror.gone (seen.getD ∅) server

theorem between_reports (position : SyncPosition) (seen : Option Torrents) (server : Torrents) :
    Reports seen server (.between position seen server) := by
  have hcarries := Mirror.changed_carries torrentFields Torrent.whole (seen.getD ∅) server given_whole
  cases seen with
  | none => exact .full rfl hcarries
  | some old => exact .changes old rfl rfl hcarries

structure Session.Mirrors (s : Session) (seen : Option Torrents) : Prop where
  torrents : s.torrents = seen.getD ∅
  listing : s.listing = if seen.isSome then .received else .awaited

theorem Session.Mirrors.listed {s : Session} {seen : Option Torrents} (h : s.Mirrors seen) :
    s.listed = seen.isSome := by
  unfold Session.listed
  rw [h.listing]
  cases seen <;> rfl

theorem apply_mirrors {s : Session} {seen : Option Torrents} {server : Torrents} {u : SyncUpdate}
    (h : s.Mirrors seen)
    (hu : Reports seen server u) : (s.apply u).Mirrors (some server) := by
  cases hu with
  | full scope carries =>
    refine ⟨?_, ?_⟩
    · rw [apply_torrents, if_pos scope]
      exact Mirror.merge_carried torrentFields carries
    · rw [apply_listing, if_pos scope]
      rfl
  | changes old told scope carries =>
    have hchanges : u.scope ≠ .full := by rw [scope]; nofun
    refine ⟨?_, ?_⟩
    · rw [apply_torrents, if_neg hchanges, h.torrents, told]
      exact Mirror.merge_carried torrentFields carries
    · rw [apply_listing, if_neg hchanges, h.listing, told]
      rfl

/-! ## qBittorrent through a step -/

def Qbittorrent.Mirrors (q : Qbittorrent) (seen : Option Torrents) : Prop :=
  ∀ s, q = .connected s → s.Mirrors seen

def Qbittorrent.connects : Qbittorrent → Event → Bool
  | .connecting, .qbittorrent (.connected ..) => true
  | _, _ => false

def Qbittorrent.merges : Qbittorrent → Event → Option SyncUpdate
  | .connected session, .qbittorrent (.synced update) =>
    if session.activity = .syncing then some update else none
  | _, _ => none

/-- What the session was last told, with the server's torrents as they are. -/
def Qbittorrent.told (q : Qbittorrent) (event : Event) (server : Torrents)
    (seen : Option Torrents) : Option Torrents :=
  if q.connects event then none else if (q.merges event).isSome then some server else seen

theorem connects_iff {q : Qbittorrent} {event : Event} : q.connects event = true ↔
    q = .connecting ∧ ∃ version preferences, event = .qbittorrent (.connected version preferences) := by
  constructor
  · intro h
    unfold Qbittorrent.connects at h
    split at h
    · exact ⟨rfl, _, _, rfl⟩
    · cases h
  · rintro ⟨rfl, version, preferences, rfl⟩
    rfl

theorem merges_iff {q : Qbittorrent} {event : Event} {u : SyncUpdate} : q.merges event = some u ↔
    ∃ s, q = .connected s ∧ event = .qbittorrent (.synced u) ∧ s.activity = .syncing := by
  constructor
  · intro h
    unfold Qbittorrent.merges at h
    split at h
    · split at h
      · next ha =>
        cases h
        exact ⟨_, rfl, rfl, ha⟩
      · cases h
    · cases h
  · rintro ⟨s, rfl, rfl, ha⟩
    exact if_pos ha

theorem event_apart {q : Qbittorrent} {event : Event}
    (hc : ∀ version preferences, q = .connecting → event ≠ .qbittorrent (.connected version preferences))
    (hm : ∀ s u, q = .connected s → event ≠ .qbittorrent (.synced u)) :
    q.connects event = false ∧ q.merges event = none := by
  refine ⟨?_, ?_⟩
  · rw [← Bool.not_eq_true]
    intro h
    obtain ⟨hq, version, preferences, he⟩ := connects_iff.mp h
    exact hc version preferences hq he
  · by_contra h
    obtain ⟨update, h⟩ := Option.ne_none_iff_exists'.mp h
    obtain ⟨session, hq, he, -⟩ := merges_iff.mp h
    exact hm session update hq he

def Qbittorrent.list (q : Qbittorrent) : Option (Torrents × Listing) :=
  q.session.map fun s => (s.torrents, s.listing)

section
variable {q : Qbittorrent} {seen : Option Torrents}

theorem mirrors_iff : q.Mirrors seen ↔
    ∀ l ∈ q.list, l = (seen.getD ∅, if seen.isSome then Listing.received else .awaited) := by
  constructor
  · intro h l hl
    obtain ⟨s, hs, rfl⟩ := Option.map_eq_some_iff.mp hl
    cases q with
    | connected session =>
      cases hs
      obtain ⟨ht, hl⟩ := h s rfl
      rw [ht, hl]
    | _ => cases hs
  · rintro h s rfl
    obtain ⟨ht, hl⟩ := Prod.mk.inj (h _ rfl)
    exact ⟨ht, hl⟩

theorem connected_of_list {l : Torrents × Listing} (h : q.list = some l) :
    ∃ s, q = .connected s ∧ s.torrents = l.1 ∧ s.listing = l.2 := by
  obtain ⟨s, hs, rfl⟩ := Option.map_eq_some_iff.mp h
  cases q with
  | connected session =>
    cases hs
    exact ⟨s, rfl, rfl, rfl⟩
  | _ => cases hs

theorem setPreferences_list {s s' : Session} {wanted : Wanted} {out : List Action}
    (h : s.setPreferences wanted = some (s', out)) :
    s'.torrents = s.torrents ∧ s'.listing = s.listing := by
  unfold Session.setPreferences at h
  split at h
  · cases h
    exact ⟨rfl, rfl⟩
  · split at h
    · cases h
      exact ⟨rfl, rfl⟩
    · cases h

theorem deciding_connected {s : Session} {after : DecidingAfter} (h : q.deciding = some (s, after)) :
    q = .connected s := by
  unfold Qbittorrent.deciding at h
  split at h
  · split at h
    · cases h
      rfl
    · cases h
  · cases h

theorem decide_list {ρ : Type} (now : ClockReading) (timers : Timers) (wanted : Wanted) (registry : ρ)
    (command : ρ → Session → ρ × Option TorrentCommand) :
    (q.decide now timers wanted registry command).1.list = q.list := by
  unfold Qbittorrent.decide
  split
  · rfl
  · next hd =>
    rw [deciding_connected hd]
    split
    · next hs =>
      obtain ⟨ht, hl⟩ := setPreferences_list hs
      simp only [Qbittorrent.list, Qbittorrent.session, Option.map_some, ht, hl]
    · split
      · rfl
      · split
        · rfl
        · split <;> rfl

theorem followPreferences_list (wanted : Wanted) : (q.followPreferences wanted).1.list = q.list := by
  unfold Qbittorrent.followPreferences
  split
  · split
    · split
      · next hs =>
        obtain ⟨ht, hl⟩ := setPreferences_list hs
        simp only [Qbittorrent.list, Qbittorrent.session, Option.map_some, ht, hl]
      · rfl
    · rfl
  · rfl

theorem timerExpired_list (id : TimerId) : (q.timerExpired id).1.list = q.list := by
  unfold Qbittorrent.timerExpired
  split
  · split <;> rfl
  · split <;> rfl
  · rfl

/-- What an event does to the list: a session begins with none, an update is
merged, and else the list stays or the session ends. -/
theorem handle_list (now : ClockReading) (e : QbittorrentEvent) (timers : Timers) :
    (q.connects (.qbittorrent e) = true ∧ (q.handle now e timers).1.list = some (∅, .awaited)) ∨
    (∃ s u, q = .connected s ∧ q.merges (.qbittorrent e) = some u ∧
      (q.handle now e timers).1.list = some ((s.apply u).torrents, (s.apply u).listing)) ∨
    (q.connects (.qbittorrent e) = false ∧ q.merges (.qbittorrent e) = none ∧
      ((q.handle now e timers).1.list = q.list ∨ (q.handle now e timers).1.list = none)) := by
  unfold Qbittorrent.handle
  split
  case h_2 => exact .inl ⟨rfl, rfl⟩
  case h_3 session update =>
    split
    · next ha => exact .inr (.inl ⟨session, update, rfl, if_pos ha, rfl⟩)
    · next ha => exact .inr (.inr ⟨rfl, if_neg ha, .inl rfl⟩)
  case h_1 => exact .inr (.inr ⟨rfl, rfl, .inl rfl⟩)
  case h_4 | h_5 | h_6 | h_7 =>
    refine .inr (.inr ⟨rfl, rfl, .inl ?_⟩)
    split <;> rfl
  case h_14 hconnected hsynced _ _ _ _ _ _ _ _ _ _ =>
    obtain ⟨hc, hm⟩ := @event_apart q (.qbittorrent e)
      (fun version preferences hq he => hconnected version preferences hq (Event.qbittorrent.inj he))
      (fun session update hq he => hsynced session update hq (Event.qbittorrent.inj he))
    exact .inr (.inr ⟨hc, hm, .inl rfl⟩)
  all_goals exact .inr (.inr ⟨rfl, rfl, .inr rfl⟩)

/-! ## The core -/

theorem list_of_event {c : Core} (now : ClockReading) (event : Event) :
    (c.handle now event).1.qbittorrent.list = ((c.note event).dispatch now event).1.qbittorrent.list := by
  rw [handle_qbittorrent_state]
  simp only [Core.decideQbittorrent]
  rw [followPreferences_list, decide_list, commanding_qbittorrent]

theorem core_list (c : Core) (now : ClockReading) (event : Event) :
    (c.qbittorrent.connects event = true ∧ (c.handle now event).1.qbittorrent.list = some (∅, .awaited)) ∨
    (∃ s u, c.qbittorrent = .connected s ∧ c.qbittorrent.merges event = some u ∧
      (c.handle now event).1.qbittorrent.list = some ((s.apply u).torrents, (s.apply u).listing)) ∨
    (c.qbittorrent.connects event = false ∧ c.qbittorrent.merges event = none ∧
      ((c.handle now event).1.qbittorrent.list = c.qbittorrent.list ∨
        (c.handle now event).1.qbittorrent.list = none)) := by
  rw [list_of_event, dispatch_qbittorrent]
  split
  · next e => exact handle_list now e (c.note (.qbittorrent e)).timers
  · next id =>
    obtain ⟨hc, hm⟩ := @event_apart c.qbittorrent (.timerExpired .qbittorrentPoll id)
      (fun _ _ _ => nofun) (fun _ _ _ => nofun)
    exact .inr (.inr ⟨hc, hm, .inl (timerExpired_list id)⟩)
  · next hq _ =>
    obtain ⟨hc, hm⟩ := @event_apart c.qbittorrent event (fun _ _ _ => hq _) (fun _ _ _ => hq _)
    exact .inr (.inr ⟨hc, hm, .inl rfl⟩)

end

/-! ## Beside the server -/

structure Watched where
  core : Core
  seen : Option Torrents

/-- The core handles each event while the server's torrents stand as given. -/
def watched : Machine Watched (TimedEvent × Torrents) Action where
  init := { core := core.init, seen := none }
  step w i :=
    ({ core := (core.step w.core i.1).1, seen := w.core.qbittorrent.told i.1.event i.2 w.seen },
      (core.step w.core i.1).2)

theorem step_mirrors {w : Watched} {i : TimedEvent} {server : Torrents}
    (hw : w.core.qbittorrent.Mirrors w.seen)
    (hu : ∀ u, w.core.qbittorrent.merges i.event = some u → Reports w.seen server u) :
    (core.step w.core i).1.qbittorrent.Mirrors (w.core.qbittorrent.told i.event server w.seen) := by
  rw [core_step]
  unfold Qbittorrent.told
  obtain ⟨hc, hl⟩ | ⟨s, u, hq, hm, hl⟩ | ⟨hc, hm, hl⟩ := core_list w.core i.occurredAt i.event
  · rw [if_pos hc, mirrors_iff, hl]
    rintro l ⟨⟩
    rfl
  · have hc : w.core.qbittorrent.connects i.event ≠ true := by rw [hq]; nofun
    obtain ⟨ht, hl'⟩ := apply_mirrors (hw s hq) (hu u hm)
    rw [if_neg hc, hm, Option.isSome_some, if_pos rfl, mirrors_iff, hl]
    rintro l ⟨⟩
    rw [ht, hl']
  · rw [if_neg (by rw [hc]; nofun), hm, if_neg nofun, mirrors_iff]
    rw [mirrors_iff] at hw
    obtain hl | hl := hl
    · rwa [hl]
    · rw [hl]
      nofun

theorem step_connects {c : Core} {i : TimedEvent} (hc : c.qbittorrent.connects i.event = true) :
    ∃ s, (core.step c i).1.qbittorrent = .connected s ∧ s.torrents = ∅ ∧ s.listed = false := by
  rw [core_step]
  obtain ⟨-, hl⟩ | ⟨s, u, hq, -⟩ | ⟨hc', -⟩ := core_list c i.occurredAt i.event
  · obtain ⟨s, hs, ht, hl'⟩ := connected_of_list hl
    refine ⟨s, hs, ht, ?_⟩
    unfold Session.listed
    rw [hl']
    rfl
  · obtain ⟨hq', -⟩ := connects_iff.mp hc
    rw [hq] at hq'
    cases hq'
  · rw [hc] at hc'
    cases hc'

theorem step_merges {w : Watched} {i : TimedEvent} {server : Torrents} {u : SyncUpdate}
    (hw : w.core.qbittorrent.Mirrors w.seen) (hm : w.core.qbittorrent.merges i.event = some u)
    (hu : Reports w.seen server u) :
    ∃ s, (core.step w.core i).1.qbittorrent = .connected s ∧ s.torrents = server ∧ s.listed = true := by
  rw [core_step]
  obtain ⟨hc, -⟩ | ⟨s, u', hq, hm', hl⟩ | ⟨-, hm', -⟩ := core_list w.core i.occurredAt i.event
  · obtain ⟨hq, -⟩ := connects_iff.mp hc
    obtain ⟨s, hq', -⟩ := merges_iff.mp hm
    rw [hq] at hq'
    cases hq'
  · rw [hm] at hm'
    cases hm'
    have hs := apply_mirrors (hw s hq) hu
    obtain ⟨s', hs', ht, hl'⟩ := connected_of_list hl
    refine ⟨s', hs', ht.trans hs.torrents, ?_⟩
    unfold Session.listed
    rw [hl', hs.listing]
    rfl
  · rw [hm] at hm'
    cases hm'

/-- Each update merged on the way reports the server's torrents as they stand. -/
def Reported (tr : List (Reactive.Entry Watched (TimedEvent × Torrents) Action)) : Prop :=
  ∀ e ∈ tr, ∀ u, e.before.core.qbittorrent.merges e.input.1.event = some u →
  Reports e.before.seen e.input.2 u

theorem last_mirrors {is : List (TimedEvent × Torrents)} (h : Reported (watched.run is)) :
    (watched.last is).core.qbittorrent.Mirrors (watched.last is).seen := by
  have hinit : Core.new.qbittorrent.Mirrors none := by
    intro s hs
    have hq : Core.new.qbittorrent = .disabled := rfl
    rw [hq] at hs
    cases hs
  refine run_invariant watched (I := fun _ w => w.core.qbittorrent.Mirrors w.seen)
    (H := Reported) ?_ hinit ?_ is h
  · exact fun tr e h e' he' => h e' (List.mem_append_left _ he')
  · intro tr w i hw htr
    exact @step_mirrors w i.1 i.2 hw (htr _ (List.mem_append_right _ (List.mem_singleton_self _)))

/-- Where every session's first update lists all the server's torrents, and each
later one lists them all or carries at least what changed, a session's torrents
are the server's as it was last told of them, and listed once it was. A session
begins with none, and after each update has the server's torrents of the moment. -/
theorem torrents_mirrored {is : List (TimedEvent × Torrents)} (h : Reported (watched.run is)) :
    ∀ e ∈ watched.run is,
      (∀ s, e.after.core.qbittorrent = .connected s →
        s.torrents = e.after.seen.getD ∅ ∧ s.listed = e.after.seen.isSome) ∧
      (e.before.core.qbittorrent.connects e.input.1.event = true →
        ∃ s, e.after.core.qbittorrent = .connected s ∧ s.torrents = ∅ ∧ s.listed = false) ∧
      (∀ u, e.before.core.qbittorrent.merges e.input.1.event = some u →
        ∃ s, e.after.core.qbittorrent = .connected s ∧ s.torrents = e.input.2 ∧ s.listed = true) := by
  intro e he
  obtain ⟨pre, post, hsplit⟩ := List.append_of_mem he
  obtain ⟨js, i, ks, his, hpre, rfl, -⟩ := run_split watched hsplit
  have hbefore := @last_mirrors js fun e' he' => by
    refine h e' ?_
    rw [hsplit, hpre]
    exact List.mem_append_left _ he'
  have hafter := @step_mirrors (watched.last js) i.1 i.2 hbefore (h _ he)
  refine ⟨fun s hs => ?_, fun hc => ?_, fun u hm => ?_⟩
  · have hs' := hafter s hs
    exact ⟨hs'.torrents, hs'.listed⟩
  · exact @step_connects (watched.last js).core i.1 hc
  · exact @step_merges (watched.last js) i.1 i.2 u hbefore hm (h _ he u hm)

def bothTorrents : Torrents :=
  (Std.ExtTreeMap.insert ∅ someHash {}).insert otherHash { state := .downloading }

def otherTorrent : Torrents := Std.ExtTreeMap.insert ∅ otherHash { state := .seeding }

def synced (seconds : Nat) (position : SyncPosition) (seen : Option Torrents) (server : Torrents) :
    TimedEvent × Torrents :=
  (.after seconds (.qbittorrent (.synced (.between position seen server))), server)

def listedEvents : List (TimedEvent × Torrents) :=
  (connectedEvents []).map (·, ∅) ++ [synced 0 1 none bothTorrents,
    (.after 2 (.timerExpired .qbittorrentPoll 0), otherTorrent)]

def returnEvents : List (TimedEvent × Torrents) :=
  -- qBittorrent goes away, and has no torrents when it is back
  [(.after 3 (.qbittorrent (.syncFailed .unreachable)), otherTorrent),
    (.after 7 (.timerExpired .qbittorrentPoll 3), ∅),
    (.after 7 (.qbittorrent (.connected (.release { major := 5, minor := 2, patch := 0 })
      { listenPort := none, interface := none, queue := none })), ∅)]

theorem relisted_reported : Reported (watched.run
    (listedEvents ++ synced 2 2 bothTorrents otherTorrent :: (returnEvents ++ [synced 8 1 none ∅]))) := by
  have hfull {w : Watched} {is : List (TimedEvent × Torrents)}
      (h : ∀ i ∈ is, ∀ u, i.1.event = .qbittorrent (.synced u) → u = .between 1 none i.2) :
      Reported (watched.trace w is) := by
    intro e he u hm
    obtain ⟨s, -, hevent, -⟩ := merges_iff.mp hm
    have hinput : e.input ∈ is := trace_inputs watched w is ▸ List.mem_map_of_mem he
    rw [h e.input hinput u hevent]
    exact (between_reports 1 none e.input.2).again e.before.seen
  have hseen : (watched.last listedEvents).seen = some bothTorrents := by
    have hlist : (watched.last listedEvents).seen.map (·.toList) = some bothTorrents.toList := by
      decide +kernel
    obtain ⟨m, hm, hl⟩ := Option.map_eq_some_iff.mp hlist
    rw [hm, Std.ExtTreeMap.toList_inj.mp hl]
  have hbefore : Reported (watched.run listedEvents) := by
    refine hfull ?_
    simp [listedEvents, connectedEvents, synced, TimedEvent.after]
  have hafter : ∀ i ∈ returnEvents ++ [synced 8 1 none ∅], ∀ u,
      i.1.event = .qbittorrent (.synced u) → u = .between 1 none i.2 := by
    simp [returnEvents, synced, TimedEvent.after]
  have hrun := trace_append watched watched.init listedEvents
    (synced 2 2 bothTorrents otherTorrent :: (returnEvents ++ [synced 8 1 none ∅]))
  intro e he u hm
  rw [Machine.run, hrun] at he
  obtain he | he := List.mem_append.mp he
  · exact hbefore e he u hm
  · obtain rfl | he := List.mem_cons.mp he
    · obtain ⟨s, -, hevent, -⟩ := merges_iff.mp hm
      have hu : u = .between 2 bothTorrents otherTorrent := by
        cases hevent
        rfl
      rw [hu]
      have hreports := between_reports 2 (some bothTorrents) otherTorrent
      have hreported : Reports (watched.last listedEvents).seen otherTorrent
          (.between 2 bothTorrents otherTorrent) := by
        rwa [hseen]
      exact hreported
    · exact hfull hafter e he u hm

theorem relisted_torrents : ∃ s, (watched.last (listedEvents ++ synced 2 2 bothTorrents otherTorrent ::
    (returnEvents ++ [synced 8 1 none ∅]))).core.qbittorrent = .connected s ∧ s.torrents = ∅ ∧
    s.listed = true := by
  have hmerges : (watched.last
    (listedEvents ++ synced 2 2 bothTorrents otherTorrent :: returnEvents)).core.qbittorrent.merges
      (synced 8 1 none ∅).1.event = some (.between 1 none ∅) := by decide +kernel
  have hlast : watched.entry (watched.last
    (listedEvents ++ synced 2 2 bothTorrents otherTorrent :: returnEvents))
      (synced 8 1 none ∅) ∈ watched.run (listedEvents ++ synced 2 2 bothTorrents otherTorrent ::
        (returnEvents ++ [synced 8 1 none ∅])) := by
    rw [run_stretch]
    simp
  obtain ⟨s, hs⟩ := (torrents_mirrored relisted_reported _ hlast).2.2 _ hmerges
  refine ⟨s, ?_⟩
  have happend : listedEvents ++ synced 2 2 bothTorrents otherTorrent ::
    (returnEvents ++ [synced 8 1 none ∅]) =
      listedEvents ++ synced 2 2 bothTorrents otherTorrent :: returnEvents ++ [synced 8 1 none ∅] := by
    rw [List.append_assoc, List.cons_append]
  rw [happend, last_snoc]
  exact hs

end Windlass
