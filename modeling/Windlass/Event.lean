import Windlass.Api

/-!
# Notices, events and actions

What the core tells the owner (`Notice`), the inputs it handles (`Event`) and
the effects it asks the shell for (`Action`).
-/

namespace Windlass

/-! ## Notices -/

inductive SettingName
  | mamRequests | historyLimit | apiCookie | ntfyTopic | pointsReserve
deriving DecidableEq

inductive SwitchBlock
  | until' (at' : SystemTime)
  | lastSwitchUnknown
  | noOtherServer
deriving DecidableEq

/-- A notice's place in the log, counting from 1 across restarts. -/
abbrev NoticeId := ℕ+

def NoticeId.first : NoticeId := ⟨1, Nat.one_pos⟩

def NoticeId.following (id : NoticeId) : NoticeId :=
  ⟨satAdd u64Max id 1, by simp [satAdd, u64Max]⟩

inductive Urgency
  | urgent | normal
deriving DecidableEq

inductive ClientWarning
  | given | notGiven
deriving DecidableEq

inductive NotFreeOutcome
  | stopped | finishedFirst
deriving DecidableEq

inductive Reach
  | push | dashboard
deriving DecidableEq

inductive Notice
  | started (mode : StartupMode)
  | startupFailed
  | vpnProtectionLost (failures : FailureCount)
  | vpnProtectionRestored (exitIp : IpAddr) (server : Option VpnServer)
  | failoverStarted (server : VpnServer)
  | failoverSucceeded (server : VpnServer)
  | failoverFailed (server : VpnServer)
  | failoverBlocked (reason : SwitchBlock)
  | forwardedPortLost
  | forwardedPortRestored (port : Port)
  | qbittorrentUnreachable (reason : QbittorrentFailure)
  | qbittorrentReachable
  | qbittorrentVersionNotAllowed (version : ReportedVersion)
  | qbittorrentVersionAllowed (version : ReportedVersion)
  | torrentErrors (count : TorrentCount)
  | torrentErrorsCleared
  | filesMissing (count : TorrentCount)
  | filesMissingCleared
  | torrentsMissing (count : TorrentCount)
  | torrentsMissingCleared
  | registryNotSaved
  | registrySaved
  | registryUnreadable
  | settingNotSaved (setting : SettingName)
  | historyUnavailable
  | historyEntriesLost (count : EntryCount)
  | test
  | mamSessionRejected (rejection : SessionRejection)
  | mamSessionAccepted
  | seedboxNotRegistered
  | seedboxRegistered (ip : IpAddr)
  | mamIpUnknown (failures : FailureCount)
  | mamIpKnown
  | mamStateUnreadable
  | ratioLow (ratio : Ratio) (urgency : Urgency)
  | ratioRestored
  | ratioUsed (counted : ByteSize)
  | ratioUseChecked
  | unsatisfiedNearLimit (count : UnsatisfiedCount) (limit : UnsatisfiedLimit)
  | unsatisfiedBelowLimit
  | unsatisfiedNotSeeding (count : TorrentCount)
  | unsatisfiedSeeding
  | mamFlagged (partials : Partials) (trackerErrors flagged : TorrentCount)
  | mamFlagsCleared
  | mamMessages (count : NoticeCount) (clientWarning : ClientWarning)
  | downloadsHeld (hold : Hold)
  | downloadsResumed
  | noWedgesLeft
  | pointsBelowReserve (points reserve : Points)
  | vipEnding (until' : SystemTime)
  | downloadsRefused
  | seedingBehind (count : TorrentCount)
  | seedingOnTrack
  | purchaseMade (purchase : Purchase) (points : Points)
  | purchaseRefused (purchase : Purchase)
  | purchaseUncertain (purchase : Purchase)
  | wedgeNotSpent
  | downloadNotFree (outcome : NotFreeOutcome)
  | wedgedMidDownload
  | purchaseSettled (purchase : Purchase) (sale : Sale)
  | purchaseNeedsChecking (purchase : Purchase)
  | mamClientNotListed (standing : ClientStanding)
  | mamClientListed
  | notConnectable (findings : Findings)
  | connectableAgain
  | mamVisitReminder
deriving DecidableEq

/-- Something that went back to normal or went as planned is only on the
dashboard; everything else is pushed. -/
def Notice.reach : Notice → Reach
  | .started _ | .vpnProtectionRestored .. | .failoverStarted _ | .failoverSucceeded _
  | .forwardedPortRestored _ | .qbittorrentReachable | .qbittorrentVersionAllowed _
  | .torrentErrorsCleared | .filesMissingCleared | .torrentsMissingCleared | .registrySaved
  | .mamSessionAccepted | .seedboxRegistered _ | .mamIpKnown | .ratioRestored | .ratioUseChecked
  | .unsatisfiedBelowLimit | .unsatisfiedSeeding | .mamFlagsCleared | .downloadsResumed
  | .seedingOnTrack | .purchaseMade .. | .wedgedMidDownload | .purchaseSettled ..
  | .mamClientListed | .connectableAgain => .dashboard
  | _ => .push

structure Logged where
  id : NoticeId
  at' : SystemTime
  notice : Notice
  reach : Reach
deriving DecidableEq

structure Push where
  entry : Option NoticeId
  notice : Notice
deriving DecidableEq

inductive DeliveryFailure
  | unreachable
  | rejected (status : HttpStatus)
deriving DecidableEq

inductive NotificationEvent
  | sendTest
  | delivered
  | deliveryFailed (reason : DeliveryFailure)
  | logRead (last : Option NoticeId)
  | logReadFailed
  | saved
  | saveFailed
deriving DecidableEq

/-! ## Events -/

inductive SettingsEvent
  | read (historyLimit : Option HistoryLimit) (apiCookie : Option ApiCookie)
      (ntfyTopic : Option NtfyTopic)
      (pointsReserve : Option PointsReserve) (torrentLimits : Option TorrentLimits)
  | readFailed
  | setHistoryLimit (limit : HistoryLimit)
  | historyLimitWritten
  | historyLimitWriteFailed
  | setApiCookie (cookie : ApiCookie)
  | clearApiCookie
  | apiCookieWritten
  | apiCookieWriteFailed
  | setNtfyTopic (topic : NtfyTopic)
  | clearNtfyTopic
  | ntfyTopicWritten
  | ntfyTopicWriteFailed
  | setPointsReserve (reserve : PointsReserve)
  | pointsReserveWritten
  | pointsReserveWriteFailed
  | setTorrentLimits (limits : TorrentLimits)
  | torrentLimitsWritten
  | torrentLimitsWriteFailed
  | rotatedApiCookieWritten
  | rotatedApiCookieWriteFailed
deriving DecidableEq

inductive Event
  | startup (event : StartupEvent)
  | mamPause (event : MamPauseEvent)
  | settings (event : SettingsEvent)
  | history (event : HistoryEvent)
  | timerExpired (name : TimerName) (id : TimerId)
  | portForwarding (event : PortForwardingEvent)
  | qbittorrent (event : QbittorrentEvent)
  | registry (event : RegistryEvent)
  | tunnel (event : TunnelEvent)
  | notification (event : NotificationEvent)
  | mam (event : MamEvent)

/-- An event paired with its occurrence time. -/
structure TimedEvent where
  occurredAt : ClockReading
  event : Event

/-! ## Actions -/

inductive Action
  | openStorage (mode : StartupMode)
  | readMamRequestMode
  | writeMamRequestMode (mode : MamRequestMode)
  | deleteMamRequestMode
  | readSettings
  | writeHistoryLimit (limit : HistoryLimit)
  | writeApiCookie (cookie : Option ApiCookie)
  | openHistory
  | trimHistory (keep : EntryCount)
  | startTimer (name : TimerName) (id : TimerId) (deadline : Deadline)
  | requestPortMapping (lifetime : Duration)
  | connectQbittorrent
  | syncQbittorrent (position : SyncPosition)
  | readQbittorrentPreferences
  | setQbittorrentListenPort (port : Port)
  | qbittorrentCommand (command : TorrentCommand)
  | readTorrentRegistry
  | saveTorrents (records : List TorrentRecord)
  | checkExitIp
  | readLastVpnSwitch
  | saveVpnSwitch (switch : VpnSwitch)
  | switchVpnServer (server : VpnServer)
  | writeNtfyTopic (topic : Option NtfyTopic)
  | sendNotification (topic : NtfyTopic) (push : Push)
  | readNoticeLog
  | saveNotice (entry : Logged) (forgetThrough : Option NoticeId)
  | writePointsReserve (reserve : PointsReserve)
  | setQbittorrentQueue (queue : QueuePreferences)
  | writeTorrentLimits (limits : TorrentLimits)
  | writeRotatedApiCookie (cookie : ApiCookie)
  | readMamState
  | saveRegistrationAttempt (at' : SystemTime)
  | saveRatioGuard (guard : SavedRatioGuard)
  | saveReminder (at' : SystemTime)
  | mamRequest (request : MamRequest) (cookie : Option ApiCookie)
deriving DecidableEq

/-- The part of the core that asks for an action. -/
inductive Part
  | startup | mamPause | settings | history | portForwarding | qbittorrent | registry | tunnel
  | notifications | mam
deriving DecidableEq

def TimerName.part : TimerName → Part
  | .qbittorrentPoll => .qbittorrent
  | .portLease => .portForwarding
  | .tunnelCheck => .tunnel
  | .notificationGrace | .notificationRetry => .notifications
  | .mam => .mam

def Action.part : Action → Part
  | .openStorage _ | .readMamRequestMode => .startup
  | .writeMamRequestMode _ | .deleteMamRequestMode => .mamPause
  | .readSettings | .writeHistoryLimit _ | .writeApiCookie _ | .writeNtfyTopic _
  | .writePointsReserve _ | .writeTorrentLimits _ | .writeRotatedApiCookie _ => .settings
  | .openHistory | .trimHistory _ => .history
  | .startTimer name _ _ => name.part
  | .requestPortMapping _ => .portForwarding
  | .connectQbittorrent | .syncQbittorrent _ | .readQbittorrentPreferences
  | .setQbittorrentListenPort _ | .setQbittorrentQueue _ | .qbittorrentCommand _ => .qbittorrent
  | .readTorrentRegistry | .saveTorrents _ => .registry
  | .checkExitIp | .readLastVpnSwitch | .saveVpnSwitch _ | .switchVpnServer _ => .tunnel
  | .sendNotification .. | .readNoticeLog | .saveNotice .. => .notifications
  | .readMamState | .saveRegistrationAttempt _ | .saveRatioGuard _ | .saveReminder _
  | .mamRequest .. => .mam

end Windlass
