import Mathlib

/-!
# Plain values

The values that settings, timers, port forwarding, the tunnel, qBittorrent and
the torrent registry are made of. Times are counted in nanoseconds, and clocks hold
a signed 64-bit number of seconds, so adding to them can fail. Steps and
connections, which the source counts in 64 bits, are natural numbers:
`counters_fit` bounds them in every run. Timers, sizes and counts that come from
outside keep the source's saturation.
-/

namespace Windlass

/-! ## Durations and clocks -/

abbrev Duration := Nat

def Duration.fromSecs (n : Nat) : Duration := n * 1000000000

def Duration.fromMins (n : Nat) : Duration := Duration.fromSecs (n * 60)

def Duration.fromHours (n : Nat) : Duration := Duration.fromMins (n * 60)

def Duration.asSecs (d : Duration) : Nat := d / 1000000000

/-- A monotonic clock reading. -/
abbrev Instant := Nat

def Instant.latest : Instant := 2 ^ 63 * 1000000000 - 1

def Instant.checkedAdd (t : Instant) (d : Duration) : Option Instant :=
  if t + d ≤ Instant.latest then some (t + d) else none

def Instant.durationSince (t earlier : Instant) : Duration := t - earlier

/-- A calendar time, counted from 1970. -/
abbrev SystemTime := Int

def SystemTime.latest : SystemTime := 2 ^ 63 * 1000000000 - 1

def SystemTime.checkedAdd (t : SystemTime) (d : Duration) : Option SystemTime :=
  if t + d ≤ SystemTime.latest then some (t + d) else none

def SystemTime.durationSince (t earlier : SystemTime) : Option Duration :=
  if earlier ≤ t then some (t - earlier).toNat else none

structure ClockReading where
  monotonic : Instant
  wall : SystemTime
deriving DecidableEq

theorem Instant.checkedAdd_eq_some {t u : Instant} {d : Duration} :
    t.checkedAdd d = some u ↔ t + d ≤ Instant.latest ∧ u = t + d := by
  unfold Instant.checkedAdd
  split <;> simp_all [eq_comm]

theorem SystemTime.checkedAdd_eq_some {t u : SystemTime} {d : Duration} :
    t.checkedAdd d = some u ↔ t + d ≤ SystemTime.latest ∧ u = t + d := by
  unfold SystemTime.checkedAdd
  split <;> simp_all [eq_comm]

theorem Instant.add_le_of_durationSince {t earlier d : Nat} (hd : 0 < d)
    (h : d ≤ Instant.durationSince t earlier) :
    earlier + d ≤ t := by
  unfold Instant.durationSince at h
  omega

theorem Instant.le_add_of_durationSince {t earlier : Instant} {d : Duration}
    (h : t.durationSince earlier ≤ d) :
    t ≤ earlier + d :=
  Nat.sub_le_iff_le_add'.mp h

/-! ## Saturating counters -/

def u16Max : Nat := 2 ^ 16 - 1

def u32Max : Nat := 2 ^ 32 - 1

def u64Max : Nat := 2 ^ 64 - 1

def satAdd (max a b : Nat) : Nat := min (a + b) max

def satMul (max a b : Nat) : Nat := min (a * b) max

/-- Attempts that failed in a row since the last success. -/
abbrev FailureCount := Nat

def FailureCount.none : FailureCount := 0

def FailureCount.afterAnother (n : FailureCount) : FailureCount := satAdd u32Max n 1

def FailureCount.any (n : FailureCount) : Bool := 0 < n

/-! ## Identities -/

/-- Identities are compared the same way in every map. -/
instance transCmp_pnat : Std.TransCmp (compare : ℕ+ → ℕ+ → Ordering) := inferInstance

/-! ## Timers and startup -/

inductive TimerName
  | qbittorrentPoll | portLease | tunnelCheck | notificationGrace | notificationRetry | mam
deriving DecidableEq

abbrev TimerId := Nat

structure Deadline where
  at' : Instant
  after : Duration
deriving DecidableEq

structure Timers where
  next : TimerId
deriving DecidableEq

def Timers.new : Timers := { next := 0 }

def Timers.schedule (t : Timers) (now : Instant) (after : Duration) : Timers × TimerId × Deadline :=
  ({ next := satAdd u64Max t.next 1 }, t.next, { at' := (now.checkedAdd after).getD now, after := after })

inductive StartupMode
  | initialise | resume
deriving DecidableEq

inductive StartupEvent
  | start (mode : StartupMode) | storageOpened | storageOpenFailed
deriving DecidableEq

/-! ## Settings -/

abbrev EntryCount := Nat

def EntryCount.plus (n : EntryCount) (count : Nat) : EntryCount := satAdd u64Max n count

def EntryCount.minus (n other : EntryCount) : EntryCount := n - other

structure HistoryLimit where
  entries : Nat
  valid : 100 ≤ entries ∧ entries ≤ 1000000
deriving DecidableEq

instance : Inhabited HistoryLimit := ⟨⟨10000, by decide⟩⟩

def HistoryLimit.trimTarget (l : HistoryLimit) : EntryCount := l.entries * 9 / 10

def HistoryLimit.isExceededBy (l : HistoryLimit) (retained : EntryCount) : Bool := l.entries < retained

abbrev Points := Nat

def Points.plus (p other : Points) : Points := satAdd u64Max p other

def Points.less (p other : Points) : Points := p - other

def Points.times (p : Points) (count : Nat) : Points := satMul u64Max p count

structure PointsReserve where
  points : Points
  valid : points ≤ 100000000
deriving DecidableEq

instance : Inhabited PointsReserve := ⟨⟨20000, by decide⟩⟩

abbrev TorrentCount := Nat

def TorrentCount.counting {α : Type} (torrents : List α) : TorrentCount := min torrents.length u32Max

def TorrentCount.plus (n other : TorrentCount) : TorrentCount := satAdd u32Max n other

structure DownloadingLimit where
  torrents : Nat
  valid : 1 ≤ torrents ∧ torrents ≤ 100
deriving DecidableEq

def DownloadingLimit.isReachedBy (l : DownloadingLimit) (downloading : TorrentCount) : Bool :=
  l.torrents ≤ downloading

structure ActiveLimit where
  torrents : Nat
  valid : 1 ≤ torrents ∧ torrents ≤ 1000
deriving DecidableEq

/-- Downloading torrents are active, so the active limit is never below the
downloading one. -/
structure TorrentLimits where
  downloading : DownloadingLimit
  active : ActiveLimit
  valid : downloading.torrents ≤ active.torrents
deriving DecidableEq

instance : Inhabited TorrentLimits := ⟨⟨⟨5, by decide⟩, ⟨10, by decide⟩, by decide⟩⟩

/-! ## Texts -/

def isAsciiGraphic (c : Char) : Bool := 33 ≤ c.toNat && c.toNat ≤ 126

def isCookieCharacter (c : Char) : Bool :=
  isAsciiGraphic c && c != ';' && c != ',' && c != '"' && c != '\\'

def isNameCharacter (c : Char) : Bool := c.isAlphanum || c == '-' || c == '_'

structure ApiCookie where
  value : String
  valid : value.toList ≠ [] ∧ value.toList.all isCookieCharacter
deriving DecidableEq

structure NtfyTopic where
  value : String
  valid : value.toList ≠ [] ∧ value.utf8ByteSize ≤ 64 ∧ value.toList.all isNameCharacter
deriving DecidableEq

/-- Any text but the empty one. -/
structure NonEmpty where
  text : String
  valid : text ≠ ""
deriving DecidableEq

abbrev TorrentName := NonEmpty

abbrev SavePath := NonEmpty

abbrev ContentPath := NonEmpty

/-! ## The network -/

inductive IpAddr
  | v4 (bits : BitVec 32)
  | v6 (bits : BitVec 128)
deriving DecidableEq

structure HttpStatus where
  code : Nat
deriving DecidableEq

structure Port where
  number : Nat
  valid : 0 < number ∧ number ≤ u16Max
deriving DecidableEq

inductive NatPmpRefusal
  | unsupportedVersion | notAuthorized | networkFailure | outOfResources | unsupportedOpcode
deriving DecidableEq

inductive MappingFailure
  | noResponse
  | refused (reason : NatPmpRefusal)
  | malformed
deriving DecidableEq

inductive PortForwardingEvent
  | enable
  | mapped (tcp udp : Port) (lifetime : Duration)
  | mappingFailed (reason : MappingFailure)
deriving DecidableEq

structure VpnServer where
  name : String
  valid : 1 ≤ name.utf8ByteSize ∧ name.utf8ByteSize ≤ 64 ∧ name.toList.all isNameCharacter
deriving DecidableEq

inductive ExitIpFailure
  | unreachable
  | rejected (status : HttpStatus)
  | malformed
deriving DecidableEq

structure VpnSwitch where
  server : VpnServer
  at' : SystemTime
deriving DecidableEq

inductive TunnelEvent
  | enable (servers : List VpnServer) (current : Option VpnServer)
  | exitIpObserved (ip : IpAddr)
  | exitIpCheckFailed (reason : ExitIpFailure)
  | lastSwitchRead (lastSwitch : Option VpnSwitch)
  | lastSwitchReadFailed
  | switchSaved
  | switchSaveFailed
  | switched
  | switchFailed
deriving DecidableEq

/-! ## The pause preference and history -/

inductive MamRequestMode
  | paused | enabled
deriving DecidableEq

inductive MamPauseEvent
  | set (mode : MamRequestMode)
  | delete
  | read (mode : Option MamRequestMode)
  | readFailed
  | written
  | writeFailed
  | deleted
  | deleteFailed
deriving DecidableEq

inductive HistoryEvent
  | opened (retained : EntryCount)
  | openFailed
  | trimmed (retained : EntryCount)
  | trimFailed
  | entriesLost (count : EntryCount) (since until' : SystemTime)
deriving DecidableEq

/-! ## Torrents in qBittorrent -/

abbrev ByteSize := Nat

/-- An upload ratio in thousandths. -/
abbrev Ratio := Nat

def Ratio.of (uploaded downloaded : ByteSize) : Option Ratio :=
  if downloaded = 0 then none else some (min (uploaded * 1000 / downloaded) u64Max)

/-- Download progress in tenths of a percent. -/
abbrev Progress := { permille : Nat // permille ≤ 1000 }

theorem zero_permille : 0 ≤ 1000 := by decide

structure ClientVersion where
  major : Nat
  minor : Nat
  patch : Nat
deriving DecidableEq

inductive MamApproval
  | recommended | allowed | discouraged | notAllowed
deriving DecidableEq

def ClientVersion.le (v w : ClientVersion) : Bool :=
  v.major < w.major ||
    (v.major == w.major && (v.minor < w.minor || (v.minor == w.minor && v.patch ≤ w.patch)))

def ClientVersion.mamApproval (v : ClientVersion) : MamApproval :=
  let within (low high : ClientVersion) : Bool := low.le v && v.le high
  if v.major = 5 ∧ v.minor = 2 then .recommended
  else if within ⟨5, 0, 1⟩ ⟨5, 2, u32Max⟩ then .allowed
  else if within ⟨4, 5, 2⟩ ⟨4, 6, 7⟩ || within ⟨4, 3, 4⟩ ⟨4, 4, 5⟩ then .discouraged
  else .notAllowed

inductive ReportedVersion
  | release (version : ClientVersion)
  | unrecognised (text : String)
deriving DecidableEq

def ReportedVersion.toRelease : ReportedVersion → Option ClientVersion
  | .release version => some version
  | .unrecognised _ => none

def ReportedVersion.mamApproval (v : ReportedVersion) : MamApproval :=
  (v.toRelease.map ClientVersion.mamApproval).getD .notAllowed

/-- An info hash: 40 hexadecimal digits for v1, 64 for v2, ordered as text. -/
structure TorrentHash where
  digits : List (Fin 16)
  valid : digits.length = 40 ∨ digits.length = 64
deriving DecidableEq

instance : Ord TorrentHash := ⟨compareOn TorrentHash.digits⟩

instance : Std.TransOrd TorrentHash := inferInstanceAs (Std.TransCmp (compareOn TorrentHash.digits))

instance : Std.LawfulEqOrd TorrentHash where
  eq_of_compare {a b} h := by
    have : a.digits = b.digits := Std.LawfulEqOrd.eq_of_compare (α := List (Fin 16)) h
    cases a; cases b; simp_all

inductive Completion
  | complete | incomplete
deriving DecidableEq

inductive ForceStart
  | notForced | forced
deriving DecidableEq

inductive TorrentState
  | fetchingMetadata | downloading | downloadStalled | downloadQueued | seeding | seedStalled | seedQueued
  | stopped (completion : Completion)
  | checking | moving | missingFiles | error | unknown
deriving DecidableEq

structure Torrent where
  name : Option TorrentName := none
  state : TorrentState := .unknown
  progress : Progress := ⟨0, zero_permille⟩
  size : ByteSize := 0
  totalSize : ByteSize := 0
  downloaded : ByteSize := 0
  uploaded : ByteSize := 0
  ratio : Ratio := 0
  seedingTime : Duration := 0
  addedAt : Option SystemTime := none
  completedAt : Option SystemTime := none
  contentPath : Option ContentPath := none
  savePath : Option SavePath := none
  forceStart : ForceStart := .notForced
deriving DecidableEq

structure TorrentUpdate where
  name : Option (Option TorrentName) := none
  state : Option TorrentState := none
  progress : Option Progress := none
  size : Option ByteSize := none
  totalSize : Option ByteSize := none
  downloaded : Option ByteSize := none
  uploaded : Option ByteSize := none
  ratio : Option Ratio := none
  seedingTime : Option Duration := none
  addedAt : Option (Option SystemTime) := none
  completedAt : Option (Option SystemTime) := none
  contentPath : Option (Option ContentPath) := none
  savePath : Option (Option SavePath) := none
  forceStart : Option ForceStart := none
deriving DecidableEq

def Torrent.apply (t : Torrent) (update : TorrentUpdate) : Torrent where
  name := update.name.getD t.name
  state := update.state.getD t.state
  progress := update.progress.getD t.progress
  size := update.size.getD t.size
  totalSize := update.totalSize.getD t.totalSize
  downloaded := update.downloaded.getD t.downloaded
  uploaded := update.uploaded.getD t.uploaded
  ratio := update.ratio.getD t.ratio
  seedingTime := update.seedingTime.getD t.seedingTime
  addedAt := update.addedAt.getD t.addedAt
  completedAt := update.completedAt.getD t.completedAt
  contentPath := update.contentPath.getD t.contentPath
  savePath := update.savePath.getD t.savePath
  forceStart := update.forceStart.getD t.forceStart

/-- A torrent's identity on MAM. -/
abbrev MamTorrentId := ℕ+

inductive TorrentCommand
  | start (hashes : List TorrentHash)
  | selectAllFiles (hash : TorrentHash)
  | remove (hashes : List TorrentHash)
  | stop (hashes : List TorrentHash)
  | forceStart (hashes : List TorrentHash)
  | endForceStart (hashes : List TorrentHash)
  | add (mam : MamTorrentId) (hash : TorrentHash)
deriving DecidableEq

abbrev SyncPosition := Nat

inductive SyncScope
  | changes | full
deriving DecidableEq

structure SyncUpdate where
  position : SyncPosition
  scope : SyncScope
  torrents : List (TorrentHash × TorrentUpdate)
  removed : List TorrentHash
deriving DecidableEq

inductive Queueing
  | on | off
deriving DecidableEq

inductive QueueLimit
  | unlimited
  | at' (count : TorrentCount)
deriving DecidableEq

inductive IdleTorrents
  | counted | notCounted
deriving DecidableEq

structure QueuePreferences where
  queueing : Queueing
  maxDownloading : QueueLimit
  maxActive : QueueLimit
  maxSeeding : QueueLimit
  idle : IdleTorrents
deriving DecidableEq

def QueuePreferences.forLimits (limits : TorrentLimits) : QueuePreferences where
  queueing := .on
  maxDownloading := .at' limits.downloading.torrents
  maxActive := .at' limits.active.torrents
  maxSeeding := .at' limits.active.torrents
  idle := .notCounted

structure QbittorrentPreferences where
  listenPort : Option Port
  interface : Option String
  queue : Option QueuePreferences
deriving DecidableEq

inductive QbittorrentFailure
  | unreachable
  | rejected (status : HttpStatus)
  | malformed
deriving DecidableEq

inductive QbittorrentEvent
  | enable
  | connected (version : ReportedVersion) (preferences : QbittorrentPreferences)
  | connectFailed (reason : QbittorrentFailure)
  | synced (update : SyncUpdate)
  | syncFailed (reason : QbittorrentFailure)
  | preferencesRead (preferences : QbittorrentPreferences)
  | preferencesReadFailed (reason : QbittorrentFailure)
  | listenPortSet
  | listenPortSetFailed (reason : QbittorrentFailure)
  | queueSet
  | queueSetFailed (reason : QbittorrentFailure)
  | commandDone
  | commandFailed (reason : QbittorrentFailure)
deriving DecidableEq

/-! ## Registry rows -/

abbrev RecordId := ℕ+

def RecordId.first : RecordId := ⟨1, Nat.one_pos⟩

def RecordId.after (id : RecordId) : RecordId :=
  ⟨satAdd u64Max id 1, by simp [satAdd, u64Max]⟩

inductive Identity
  | mam (id : MamTorrentId)
  | client (hash : TorrentHash)
  | linked (mam : MamTorrentId) (hash : TorrentHash)
deriving DecidableEq

def Identity.hash : Identity → Option TorrentHash
  | .mam _ => none
  | .client hash => some hash
  | .linked _ hash => some hash

def Identity.mamId : Identity → Option MamTorrentId
  | .mam id => some id
  | .client _ => none
  | .linked id _ => some id

inductive Origin
  | bookmark | redownload | adopted
deriving DecidableEq

inductive Desired
  | queued | snatched | active | held | removed
deriving DecidableEq

structure Observation where
  torrent : Torrent
  lastSeen : SystemTime
deriving DecidableEq

inductive ContentDeletion
  | allowed | notAllowed
deriving DecidableEq

structure TorrentRecord where
  id : RecordId
  identity : Identity
  origin : Origin
  desired : Desired
  savePath : Option SavePath
  deletion : ContentDeletion
  observation : Option Observation
deriving DecidableEq

inductive RegistryEvent
  | redownload (id : RecordId)
  | read (records : List TorrentRecord)
  | readFailed
  | saved
  | saveFailed
deriving DecidableEq

/-- A download Windlass added, as the guard over running downloads sees it. -/
structure Download where
  mam : MamTorrentId
  hash : TorrentHash
  desired : Desired
  completion : Completion
  addedAt : Option SystemTime
deriving DecidableEq

def Download.isDownloading (d : Download) : Bool :=
  d.desired == .active && d.completion == .incomplete

end Windlass
