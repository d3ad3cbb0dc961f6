import Windlass.Event

/-!
# Settings, the pause preference, startup and history

`core/settings.rs`, `core/mam_pause.rs`, `core/startup.rs` and
`core/history.rs`: the parts of the core whose actions are storage operations.
-/

namespace Windlass

/-! ## One setting -/

inductive SettingPersistence (α : Type)
  | idle
  | pending (value : α)
  | failed
deriving DecidableEq

structure Setting (α : Type) where
  saved : α
  requested : α
  persistence : SettingPersistence α
deriving DecidableEq

section
variable {α : Type} [DecidableEq α]

def Setting.loaded (saved requested : α) : Setting α :=
  { saved := saved, requested := requested, persistence := .idle }

def Setting.request (s : Setting α) (value : α) : Setting α × Option α :=
  match s.persistence with
  | .pending _ => ({ s with requested := value }, none)
  | _ =>
    if value = s.saved then ({ s with requested := value, persistence := .idle }, none)
    else ({ s with requested := value, persistence := .pending value }, some value)

def Setting.complete (s : Setting α) (succeeded : Bool) : Setting α × Option α :=
  match s.persistence with
  | .pending pending =>
    let s' : Setting α :=
      { s with
        saved := if succeeded then pending else s.saved
        persistence := if succeeded then .idle else .failed }
    if pending = s.requested then (s', none) else s'.request s.requested
  | _ => (s, none)

/-- Saving a replacement failed: the saved value stays in use, unless the owner
asked for another meanwhile. -/
def Setting.replacementFailed (s : Setting α) : Setting α × Option α :=
  match s.persistence with
  | .pending pending =>
    if pending = s.requested then ({ s with requested := s.saved, persistence := .idle }, none)
    else s.complete false
  | _ => s.complete false

end

/-! ## The dashboard's settings -/

structure Settings where
  historyLimit : Setting HistoryLimit
  apiCookie : Setting (Option ApiCookie)
  ntfyTopic : Setting (Option NtfyTopic)
  pointsReserve : Setting PointsReserve
  torrentLimits : Setting TorrentLimits
deriving DecidableEq

def Settings.usableApiCookie (s : Settings) : Option ApiCookie :=
  match s.apiCookie.persistence with
  | .idle => s.apiCookie.saved
  | _ => none

inductive SettingsState
  | unread
  | reading
  | loaded (settings : Settings)
  | readFailed
deriving DecidableEq

def SettingsState.toLoaded : SettingsState → Option Settings
  | .loaded settings => some settings
  | .unread | .reading | .readFailed => none

def SettingsState.pointsReserve (s : SettingsState) : Option Points :=
  s.toLoaded.map fun settings => settings.pointsReserve.saved.points

def SettingsState.torrentLimits (s : SettingsState) : Option TorrentLimits :=
  s.toLoaded.map fun settings => settings.torrentLimits.saved

def SettingsState.historyLimit (s : SettingsState) : Option HistoryLimit :=
  s.toLoaded.map fun settings => settings.historyLimit.saved

def SettingsState.startReading (_ : SettingsState) : SettingsState × List Action :=
  (.reading, [.readSettings])

/-- Changes are refused until settings load. -/
def SettingsState.change (s : SettingsState) (apply : Settings → Settings × Option Action) :
    SettingsState × List Action :=
  match s with
  | .loaded settings => (.loaded (apply settings).1, (apply settings).2.toList)
  | s => (s, [])

def Settings.changeHistoryLimit (f : Setting HistoryLimit → Setting HistoryLimit × Option HistoryLimit)
    (s : Settings) : Settings × Option Action :=
  ({ s with historyLimit := (f s.historyLimit).1 }, (f s.historyLimit).2.map .writeHistoryLimit)

def Settings.changeApiCookie
    (f : Setting (Option ApiCookie) → Setting (Option ApiCookie) × Option (Option ApiCookie))
    (s : Settings) : Settings × Option Action :=
  ({ s with apiCookie := (f s.apiCookie).1 }, (f s.apiCookie).2.map .writeApiCookie)

def Settings.changeNtfyTopic
    (f : Setting (Option NtfyTopic) → Setting (Option NtfyTopic) × Option (Option NtfyTopic))
    (s : Settings) : Settings × Option Action :=
  ({ s with ntfyTopic := (f s.ntfyTopic).1 }, (f s.ntfyTopic).2.map .writeNtfyTopic)

def Settings.changePointsReserve
    (f : Setting PointsReserve → Setting PointsReserve × Option PointsReserve)
    (s : Settings) : Settings × Option Action :=
  ({ s with pointsReserve := (f s.pointsReserve).1 }, (f s.pointsReserve).2.map .writePointsReserve)

def Settings.changeTorrentLimits
    (f : Setting TorrentLimits → Setting TorrentLimits × Option TorrentLimits)
    (s : Settings) : Settings × Option Action :=
  ({ s with torrentLimits := (f s.torrentLimits).1 }, (f s.torrentLimits).2.map .writeTorrentLimits)

def SettingsState.handle (s : SettingsState) : SettingsEvent → SettingsState × List Action
  | .read historyLimit apiCookie ntfyTopic pointsReserve torrentLimits =>
    match s with
    | .reading =>
      let limit := historyLimit.getD default
      let reserve := pointsReserve.getD default
      let limits := torrentLimits.getD default
      (.loaded
        { historyLimit := Setting.loaded limit limit
          apiCookie := Setting.loaded apiCookie apiCookie
          ntfyTopic := Setting.loaded ntfyTopic ntfyTopic
          pointsReserve := Setting.loaded reserve reserve
          torrentLimits := Setting.loaded limits limits }, [])
    | s => (s, [])
  | .readFailed =>
    match s with
    | .reading => (.readFailed, [])
    | s => (s, [])
  | .setHistoryLimit limit => s.change (Settings.changeHistoryLimit fun x => x.request limit)
  | .historyLimitWritten => s.change (Settings.changeHistoryLimit fun x => x.complete true)
  | .historyLimitWriteFailed => s.change (Settings.changeHistoryLimit fun x => x.complete false)
  | .setApiCookie cookie => s.change (Settings.changeApiCookie fun x => x.request (some cookie))
  | .clearApiCookie => s.change (Settings.changeApiCookie fun x => x.request none)
  | .apiCookieWritten => s.change (Settings.changeApiCookie fun x => x.complete true)
  | .apiCookieWriteFailed => s.change (Settings.changeApiCookie fun x => x.complete false)
  | .setNtfyTopic topic => s.change (Settings.changeNtfyTopic fun x => x.request (some topic))
  | .clearNtfyTopic => s.change (Settings.changeNtfyTopic fun x => x.request none)
  | .ntfyTopicWritten => s.change (Settings.changeNtfyTopic fun x => x.complete true)
  | .ntfyTopicWriteFailed => s.change (Settings.changeNtfyTopic fun x => x.complete false)
  | .setPointsReserve reserve => s.change (Settings.changePointsReserve fun x => x.request reserve)
  | .pointsReserveWritten => s.change (Settings.changePointsReserve fun x => x.complete true)
  | .pointsReserveWriteFailed => s.change (Settings.changePointsReserve fun x => x.complete false)
  | .setTorrentLimits limits => s.change (Settings.changeTorrentLimits fun x => x.request limits)
  | .torrentLimitsWritten => s.change (Settings.changeTorrentLimits fun x => x.complete true)
  | .torrentLimitsWriteFailed => s.change (Settings.changeTorrentLimits fun x => x.complete false)
  | .rotatedApiCookieWritten => s.change (Settings.changeApiCookie fun x => x.complete true)
  | .rotatedApiCookieWriteFailed => s.change (Settings.changeApiCookie fun x => x.replacementFailed)

/-- Save a cookie MAM issued in place of the saved one. -/
def SettingsState.rotate (s : SettingsState) (cookie : ApiCookie) : SettingsState × List Action :=
  s.change fun settings =>
    ({ settings with apiCookie := (settings.apiCookie.request (some cookie)).1 },
      (settings.apiCookie.request (some cookie)).2.join.map .writeRotatedApiCookie)

/-! ## The pause preference -/

inductive MamPreferenceUpdate
  | set (mode : MamRequestMode)
  | delete
deriving DecidableEq

def MamPreferenceUpdate.stored : MamPreferenceUpdate → Option MamRequestMode
  | .set mode => some mode
  | .delete => none

def MamPreferenceUpdate.mode : MamPreferenceUpdate → MamRequestMode
  | .set mode => mode
  | .delete => .paused

def MamPreferenceUpdate.action : MamPreferenceUpdate → Action
  | .set mode => .writeMamRequestMode mode
  | .delete => .deleteMamRequestMode

inductive MamPreferencePersistence
  | idle
  | pending (update : MamPreferenceUpdate)
  | failed
deriving DecidableEq

inductive MamRequestsStatus
  | starting | startupFailed | running | paused | pausePending | pauseNotSaved | resumePending
  | resumeNotSaved
deriving DecidableEq

structure MamPreferenceState where
  saved : Option MamRequestMode
  requested : MamPreferenceUpdate
  effective : MamRequestMode
  persistence : MamPreferencePersistence
deriving DecidableEq

inductive MamPreferenceCompletion
  | written | writeFailed | deleted | deleteFailed
deriving DecidableEq

/-- The actual in-memory state of the core. -/
inductive State
  | notStarted
  | openingStorage (requested : Option MamPreferenceUpdate)
  | readingMamPreference (requested : Option MamPreferenceUpdate)
  | ready (preference : MamPreferenceState)
  | failed
deriving DecidableEq

def MamPreferenceState.status (p : MamPreferenceState) : MamRequestsStatus :=
  match p.requested.mode, p.persistence with
  | .paused, .pending _ => .pausePending
  | .paused, .failed => .pauseNotSaved
  | .enabled, .pending _ => .resumePending
  | .enabled, .failed => .resumeNotSaved
  | _, .idle =>
    match p.effective with
    | .paused => .paused
    | .enabled => .running

def State.mamRequests : State → MamRequestsStatus
  | .notStarted | .openingStorage _ | .readingMamPreference _ => .starting
  | .failed => .startupFailed
  | .ready preference => preference.status

def MamPreferenceState.updateMamPreference (p : MamPreferenceState) (change : MamPreferenceUpdate) :
    MamPreferenceState × List Action :=
  let p : MamPreferenceState :=
    { p with
      requested := change
      effective := if change.mode = .paused then .paused else p.effective }
  match p.persistence with
  | .pending _ => (p, [])
  | _ =>
    if change.stored = p.saved then ({ p with effective := change.mode, persistence := .idle }, [])
    else ({ p with persistence := .pending change }, [change.action])

def MamPreferenceState.succeeds (pending : MamPreferenceUpdate) (completion : MamPreferenceCompletion) :
    Option Bool :=
  match pending, completion with
  | .set _, .written | .delete, .deleted => some true
  | .set _, .writeFailed | .delete, .deleteFailed => some false
  | _, _ => none

def MamPreferenceState.complete (p : MamPreferenceState) (completion : MamPreferenceCompletion) :
    MamPreferenceState × List Action :=
  match p.persistence with
  | .pending pending =>
    match MamPreferenceState.succeeds pending completion with
    | none => (p, [])
    | some success =>
      let p' : MamPreferenceState :=
        { p with
          saved := if success then pending.stored else p.saved
          persistence := if success then .idle else .failed
          effective := if success && pending == p.requested then pending.mode else .paused }
      if pending ≠ p.requested then p'.updateMamPreference p.requested else (p', [])
  | _ => (p, [])

def State.updateMamPreference (s : State) (change : MamPreferenceUpdate) : State × List Action :=
  match s with
  | .openingStorage _ => (.openingStorage (some change), [])
  | .readingMamPreference _ => (.readingMamPreference (some change), [])
  | .ready preference =>
    (.ready (preference.updateMamPreference change).1, (preference.updateMamPreference change).2)
  | .notStarted => (.notStarted, [])
  | .failed => (.failed, [])

def State.completeMamPreference (s : State) (completion : MamPreferenceCompletion) :
    State × List Action :=
  match s with
  | .ready preference => (.ready (preference.complete completion).1, (preference.complete completion).2)
  | s => (s, [])

def State.loaded (s : State) (saved : Option MamRequestMode) : State × List Action :=
  match s with
  | .readingMamPreference requested =>
    let mode := saved.getD .paused
    let ready : State := .ready
      { saved := saved
        requested := .set mode
        effective := if requested.isSome then .paused else mode
        persistence := .idle }
    match requested with
    | none => (ready, [])
    | some change => ready.updateMamPreference change
  | s => (s, [])

def State.handleMamPause (s : State) : MamPauseEvent → State × List Action
  | .set mode => s.updateMamPreference (.set mode)
  | .delete => s.updateMamPreference .delete
  | .read mode => s.loaded mode
  | .readFailed =>
    match s with
    | .readingMamPreference _ => (.failed, [])
    | s => (s, [])
  | .written => s.completeMamPreference .written
  | .writeFailed => s.completeMamPreference .writeFailed
  | .deleted => s.completeMamPreference .deleted
  | .deleteFailed => s.completeMamPreference .deleteFailed

/-! ## Startup -/

def State.handleStartup (s : State) : StartupEvent → State × List Action
  | .start mode =>
    match s with
    | .notStarted => (.openingStorage none, [.openStorage mode])
    | s => (s, [])
  | .storageOpened =>
    match s with
    | .openingStorage requested => (.readingMamPreference requested, [.readMamRequestMode])
    | s => (s, [])
  | .storageOpenFailed =>
    match s with
    | .openingStorage _ => (.failed, [])
    | s => (s, [])

/-! ## History -/

/-- The position of a handled event in the process's processing order. -/
abbrev Step := Nat

def Step.strictlyAfter (step earlier : Step) : Nat := step - earlier - 1

inductive Trim
  | idle
  | pending (step : Step)
  | failed
deriving DecidableEq

inductive HistoryState
  | closed
  | opening (step : Step)
  | open' (retained : EntryCount) (trim : Trim)
  | unavailable
deriving DecidableEq

def HistoryState.openStorage (_ : HistoryState) (step : Step) : HistoryState × List Action :=
  (.opening step, [.openHistory])

def HistoryState.handle (h : HistoryState) (step : Step) (event : HistoryEvent) : HistoryState :=
  match h, event with
  | .opening requested, .opened retained => .open' (retained.plus (step.strictlyAfter requested)) .idle
  | .open' _ (.pending requested), .trimmed retained =>
    .open' (retained.plus (step.strictlyAfter requested)) .idle
  | .opening _, .openFailed => .unavailable
  | .open' retained (.pending _), .trimFailed => .open' retained .failed
  | .open' retained trim, .entriesLost count _ _ => .open' (retained.minus count) trim
  | h, _ => h

def HistoryState.afterStep (h : HistoryState) (step : Step) (limit : Option HistoryLimit) :
    HistoryState × List Action :=
  match h with
  | .open' retained trim =>
    let retained := retained.plus 1
    match limit with
    | some limit =>
      if trim = .idle ∧ limit.isExceededBy retained then
        (.open' retained (.pending step), [.trimHistory limit.trimTarget])
      else (.open' retained trim, [])
    | none => (.open' retained trim, [])
  | h => (h, [])

end Windlass
