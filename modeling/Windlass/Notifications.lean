import Windlass.Mam

/-!
# Notifications

`core/notifications.rs`: lasting conditions with their grace periods, the notice
log, and the delivery of one push at a time.
-/

namespace Windlass

def seedingDeadlineWarning : Duration := Duration.fromHours (20 * 24)

def outboxLimit : Nat := 50

def logKept : Nat := 1000

def retryFirst : Duration := Duration.fromSecs 30

def retryMax : Duration := Duration.fromMins 10

/-! ## Conditions -/

/-- A lasting condition worth telling the user about. -/
inductive Condition
  | vpnProtection | failoverBlocked | forwardedPort | qbittorrentReachable | qbittorrentVersion
  | torrentErrors | filesMissing | torrentsMissing | registrySave | mamSession | seedboxRegistration
  | mamIp | ratio | unsatisfiedLimit | unsatisfiedNotSeeding | mamFlags | mamMessages | downloadsHeld
  | wedges | pointsReserve | vipEnding | downloadsRefused | seedingBehind | mamClient | connectable
  | purchaseUnresolved
deriving DecidableEq

instance : Ord Condition := ⟨compareOn Condition.ctorIdx⟩

instance : Std.TransOrd Condition := inferInstanceAs (Std.TransCmp (compareOn Condition.ctorIdx))

instance : Std.LawfulEqOrd Condition where
  eq_of_compare {a b} h := by
    have hi : a.ctorIdx = b.ctorIdx := Std.LawfulEqOrd.eq_of_compare (α := Nat) h
    cases a <;> cases b <;> first | rfl | exact absurd hi (by decide)

/-- How long the condition must hold before the user is told. -/
def Condition.grace : Condition → Duration
  | .mamIp => Duration.fromMins 15
  | .unsatisfiedNotSeeding | .downloadsHeld => Duration.fromMins 30
  | .registrySave => Duration.fromMins 2
  | .forwardedPort | .qbittorrentReachable | .torrentErrors => Duration.fromMins 5
  | .filesMissing | .torrentsMissing => Duration.fromMins 10
  | _ => 0

inductive Status
  | active (notice : Notice)
  | clear (notice : Option Notice)
  | unchanged
deriving DecidableEq

inductive Phase
  | pending (since : Instant)
  | raised
deriving DecidableEq

inductive Delivery
  | idle
  | sending (push : Push)
  | retrying (push : Push) (timer : TimerId)
deriving DecidableEq

inductive NoticeLog
  | waiting (notices : List (SystemTime × Notice))
  | ready (next : NoticeId)
  | unavailable
deriving DecidableEq

structure Outcome where
  at' : SystemTime
  failure : Option DeliveryFailure
deriving DecidableEq

structure Notifications where
  conditions : Std.ExtTreeMap Condition Phase
  log : NoticeLog
  outbox : List Push
  delivery : Delivery
  lastOutcome : Option Outcome
  dropped : Nat
  failures : FailureCount
  graceTimer : Option (TimerId × Instant)
  mode : Option StartupMode

def Notifications.new : Notifications :=
  { conditions := ∅
    log := .waiting []
    outbox := []
    delivery := .idle
    lastOutcome := none
    dropped := 0
    failures := FailureCount.none
    graceTimer := none
    mode := none }

inductive Startup
  | starting | ready | failed
deriving DecidableEq

/-- The parts of core state that one-off notices compare across a step. -/
structure Glance where
  failover : Option Failover
  current : Option VpnServer
  startup : Startup
deriving DecidableEq

/-- The core state that lasting conditions are read from. -/
structure ConditionFacts where
  tunnel : Tunnel
  portForwarding : PortForwarding
  qbittorrent : Qbittorrent
  registry : Registry
  mam : Mam
  reserve : Option Points

/-! ## One-off notices -/

def noticeReported : Event → Option Notice
  | .mamPause .writeFailed | .mamPause .deleteFailed => some (.settingNotSaved .mamRequests)
  | .settings .historyLimitWriteFailed => some (.settingNotSaved .historyLimit)
  | .settings .apiCookieWriteFailed => some (.settingNotSaved .apiCookie)
  | .settings .ntfyTopicWriteFailed => some (.settingNotSaved .ntfyTopic)
  | .settings .pointsReserveWriteFailed => some (.settingNotSaved .pointsReserve)
  | .mam .stateReadFailed => some .mamStateUnreadable
  | .history .openFailed => some .historyUnavailable
  | .history (.entriesLost count _ _) => some (.historyEntriesLost count)
  | .registry .readFailed => some .registryUnreadable
  | .notification .sendTest => some .test
  | _ => none

/-- Notices for what an event reports, taken before it is handled. -/
def Notifications.reported (n : Notifications) (event : Event) : Notifications × List Notice :=
  (match event with
   | .startup (.start mode) => { n with mode := some mode }
   | _ => n, (noticeReported event).toList)

def failoverEnded (before after : Option Failover) : Option VpnServer :=
  match before, after with
  | some (.saving switch), none => some switch.server
  | some (.switching server), none => some server
  | _, _ => none

/-- Notices for what changed in this step. -/
def Notifications.changed (n : Notifications) (before after : Glance) : List Notice :=
  (match before.startup, after.startup with
   | .starting, .ready | .failed, .ready => (n.mode.map Notice.started).toList
   | .starting, .failed | .ready, .failed => [.startupFailed]
   | _, _ => []) ++
  (match before.failover, after.failover with
   | none, some (.saving switch) => [.failoverStarted switch.server]
   | _, _ => []) ++
  (match failoverEnded before.failover after.failover with
   | some server =>
     [if after.current = some server then .failoverSucceeded server else .failoverFailed server]
   | none => [])

/-! ## The log and the outbox -/

def Notifications.enqueue (n : Notifications) (push : Push) : Notifications :=
  if outboxLimit ≤ n.outbox.length then
    { n with outbox := n.outbox.tail ++ [push], dropped := satAdd u64Max n.dropped 1 }
  else { n with outbox := n.outbox ++ [push] }

def NoticeId.forgetThrough (id : NoticeId) : Option NoticeId :=
  if h : logKept < id then some ⟨id - logKept, Nat.sub_pos_of_lt h⟩ else none

def Notifications.push (n : Notifications) (entry : Option NoticeId) (notice : Notice) : Notifications :=
  if notice.reach = .push then n.enqueue { entry := entry, notice := notice } else n

/-- Give a notice its place in the log, and queue it for pushing if urgent. -/
def Notifications.record (n : Notifications) (at' : SystemTime) (notice : Notice) :
    Notifications × Option Action :=
  match n.log with
  | .waiting waiting => ({ n with log := .waiting (waiting ++ [(at', notice)]) }, none)
  | .ready next =>
    ({ n with log := .ready next.following }.push (some next) notice,
      some (.saveNotice { id := next, at' := at', notice := notice,
                          reach := notice.reach } next.forgetThrough))
  | .unavailable => (n.push none notice, none)

def Notifications.recordAll (n : Notifications) (notices : List (SystemTime × Notice)) :
    Notifications × List Action :=
  notices.foldl
    (fun (n, actions) (at', notice) =>
      ((n.record at' notice).1, actions ++ (n.record at' notice).2.toList))
    (n, [])

/-- Storage cannot be used: waiting notices are pushed without an entry. -/
def Notifications.logUnavailable (n : Notifications) : Notifications :=
  match n.log with
  | .waiting waiting => ({ n with log := .unavailable }.recordAll waiting).1
  | _ => { n with log := .unavailable }

/-! ## Delivery -/

/-- Waits of 30 seconds, then 1, 2, 4, and 8 minutes, then 10. -/
def retryAfter (failures : FailureCount) : Duration :=
  min (retryFirst * min (2 ^ (failures - 1)) u32Max) retryMax

def Notifications.handle (n : Notifications) (now : ClockReading) (event : NotificationEvent)
    (timers : Timers) :
    Notifications × Timers × List Action :=
  match event with
  | .logRead last =>
    match n.log with
    | .waiting waiting =>
      let (n, actions) := { n with log := .ready (last.elim .first NoticeId.following) }.recordAll waiting
      (n, timers, actions)
    | _ => (n, timers, [])
  | .logReadFailed => (n.logUnavailable, timers, [])
  | .delivered =>
    match n.delivery with
    | .sending _ =>
      ({ n with
         delivery := .idle
         failures := FailureCount.none
         lastOutcome := some { at' := now.wall, failure := none } }, timers, [])
    | _ => (n, timers, [])
  | .deliveryFailed reason =>
    match n.delivery with
    | .sending push =>
      let failures := n.failures.afterAnother
      let (timers, timer, deadline) := timers.schedule now.monotonic (retryAfter failures)
      ({ n with
         failures := failures
         lastOutcome := some { at' := now.wall, failure := some reason }
         delivery := .retrying push timer }, timers, [.startTimer .notificationRetry timer deadline])
    | _ => (n, timers, [])
  | .sendTest | .saved | .saveFailed => (n, timers, [])

/-- A failed delivery whose retry is due is sent again. -/
def Notifications.timerExpired (n : Notifications) (id : TimerId) : Notifications :=
  let n : Notifications :=
    if n.graceTimer.any fun (timer, _) => timer == id then { n with graceTimer := none } else n
  match n.delivery with
  | .retrying push timer =>
    if timer = id then { n with outbox := push :: n.outbox, delivery := .idle } else n
  | _ => n

/-- Push the oldest waiting notice once settings name a topic; without one,
pushes are discarded. -/
def Notifications.send (n : Notifications) (settings : SettingsState) : Notifications × List Action :=
  let discarded : Notifications :=
    { n with
      outbox := []
      delivery :=
        match n.delivery with
        | .retrying .. => .idle
        | delivery => delivery }
  match settings with
  | .unread | .reading => (n, [])
  | .readFailed => (discarded, [])
  | .loaded settings =>
    match settings.ntfyTopic.saved with
    | none => (discarded, [])
    | some topic =>
      match n.delivery, n.outbox with
      | .idle, push :: outbox =>
        ({ n with outbox := outbox, delivery := .sending push }, [.sendNotification topic push])
      | _, _ => (n, [])

/-! ## Lasting conditions -/

def Status.counted (count : Option TorrentCount) (raised : TorrentCount → Notice)
    (cleared : Notice) : Status :=
  match count with
  | some 0 => .clear (some cleared)
  | some count => .active (raised count)
  | none => .unchanged

section
variable (now : SystemTime) (facts : ConditionFacts)

def ConditionFacts.listed : Option Session := facts.qbittorrent.session.filter Session.listed

def ConditionFacts.count (state : TorrentState) : Option TorrentCount :=
  facts.listed.map fun session =>
    TorrentCount.counting (session.torrents.values.filter fun torrent => torrent.state == state)

def ConditionFacts.missing : Option TorrentCount :=
  match facts.registry with
  | .loaded records =>
    facts.listed.map fun session =>
      TorrentCount.counting
        (((records.records.filter fun record => record.desired == .active).filterMap fun record =>
          record.identity.hash).filter fun hash => !session.torrents.contains hash)
  | _ => none

/-- Active torrents completed 20 or more days ago with less than the seeding
target seeded. -/
def ConditionFacts.seedingBehind : Option TorrentCount :=
  match facts.registry with
  | .loaded records =>
    some (TorrentCount.counting
      (((records.records.filter fun record => record.desired == .active).filterMap (·.observation)).filter
        fun observation =>
          observation.torrent.seedingTime < seedingTarget &&
            observation.torrent.completedAt.any fun completed =>
              (now.durationSince completed).any fun since => seedingDeadlineWarning ≤ since))
  | _ => none

/-- VPN protection clears only on a successful check. -/
def ConditionFacts.vpnProtection : Status :=
  match facts.tunnel.watch with
  | none => .clear none
  | some watch =>
    if failuresBeforeSwitch ≤ watch.failures then .active (.vpnProtectionLost watch.failures)
    else
      match watch.protection with
      | .available exitIp _ => .clear (some (.vpnProtectionRestored exitIp watch.current))
      | .unknown | .unavailable _ => .unchanged

def SwitchAllowance.block : SwitchAllowance → Option SwitchBlock
  | .now => none
  | .after at' => some (.until' at')
  | .unknown => some .lastSwitchUnknown
  | .noAlternative => some .noOtherServer

def ConditionFacts.failoverBlocked : Status :=
  match facts.tunnel.watch with
  | none => .clear none
  | some watch =>
    match (facts.tunnel.switchAllowance now).block with
    | some reason =>
      if failuresBeforeSwitch ≤ watch.failures ∧
        watch.failover = none then .active (.failoverBlocked reason)
      else .clear none
    | none => .clear none

/-- A switch drops the lease on purpose, so a missing port then changes
nothing. -/
def ConditionFacts.forwardedPort : Status :=
  match facts.portForwarding with
  | .disabled => .clear none
  | .enabled (some lease) .. => .clear (some (.forwardedPortRestored lease.tcp))
  | .enabled none .. =>
    if facts.tunnel.watch.any fun watch =>
      watch.failover.isSome then .unchanged else .active .forwardedPortLost

/-- What the account's latest reading says, once there is one. -/
def Status.read (mam : Mam) (active : Option Notice) (cleared : Option Notice) : Status :=
  match mam.account.data, active with
  | none, _ => .unchanged
  | some _, some notice => .active notice
  | some _, none => .clear cleared

def MamNotices.messages? (n : MamNotices) : Option Notice :=
  if n.total = 0 then none
  else some (.mamMessages n.total (if n.aboutToDropClient = 0 then .notGiven else .given))

def ConditionFacts.pointsBelowReserve : Option Notice :=
  facts.mam.account.data.bind fun data => facts.reserve.bind fun reserve =>
    if data.points < reserve then some (.pointsBelowReserve data.points reserve) else none

/-- A condition's state in this step. -/
def ConditionFacts.status : Condition → Status
  | .vpnProtection => facts.vpnProtection
  | .failoverBlocked => facts.failoverBlocked now
  | .forwardedPort => facts.forwardedPort
  | .qbittorrentReachable =>
    match facts.qbittorrent with
    | .disabled => .clear none
    | .connecting => .unchanged
    | .unreachable reason _ => .active (.qbittorrentUnreachable reason)
    | .connected _ => .clear (some .qbittorrentReachable)
  | .qbittorrentVersion =>
    match facts.qbittorrent.session with
    | none => .unchanged
    | some session =>
      if session.approval = .notAllowed then .active (.qbittorrentVersionNotAllowed session.version)
      else .clear (some (.qbittorrentVersionAllowed session.version))
  | .torrentErrors => .counted (facts.count .error) .torrentErrors .torrentErrorsCleared
  | .filesMissing => .counted (facts.count .missingFiles) .filesMissing .filesMissingCleared
  | .torrentsMissing => .counted facts.missing .torrentsMissing .torrentsMissingCleared
  | .registrySave =>
    match facts.registry with
    | .loaded records =>
      if records.saveFailed then .active .registryNotSaved else .clear (some .registrySaved)
    | _ => .unchanged
  | .seedingBehind => .counted (facts.seedingBehind now) .seedingBehind .seedingOnTrack
  | .mamSession =>
    match facts.mam.session with
    | .rejected rejection _ _ => .active (.mamSessionRejected rejection)
    | .verified _ => .clear (some .mamSessionAccepted)
    | .unverified => .unchanged
  | .seedboxRegistration =>
    match facts.mam.seedbox.status with
    | .failed (.mam (.tooSoon _)) _ | .unconfirmed => .unchanged
    | .failed .. => .active .seedboxNotRegistered
    | .confirmed ip _ => .clear (some (.seedboxRegistered ip))
  | .mamIp =>
    if facts.mam.network.failures.any then .active (.mamIpUnknown facts.mam.network.failures)
    else if facts.mam.network.current.isSome then .clear (some .mamIpKnown)
    else .unchanged
  | .ratio =>
    .read facts.mam (facts.mam.account.ratioLow.map fun (ratio, urgency) => .ratioLow ratio urgency)
      (some .ratioRestored)
  | .unsatisfiedLimit =>
    .read facts.mam
      (facts.mam.account.unsatisfiedNearLimit.map fun (count, limit) => .unsatisfiedNearLimit count limit)
      (some .unsatisfiedBelowLimit)
  | .unsatisfiedNotSeeding =>
    .read facts.mam
      ((facts.mam.account.notSeedingUnsatisfied.filter fun count =>
        count != 0).map .unsatisfiedNotSeeding)
      (some .unsatisfiedSeeding)
  | .mamFlags =>
    .read facts.mam
      ((facts.mam.account.attention.filter Attention.any).map fun attention =>
        .mamFlagged attention.partials attention.trackerErrors attention.flagged)
      (some .mamFlagsCleared)
  | .mamMessages =>
    .read facts.mam ((facts.mam.account.data.bind (·.notices)).bind MamNotices.messages?) none
  | .downloadsHeld =>
    match facts.mam.acquisition.hold with
    | some .mamUnavailable => .unchanged
    | some hold => .active (.downloadsHeld hold)
    | none => .clear (some .downloadsResumed)
  | .wedges => if facts.mam.acquisition.hold = some .noWedge then .active .noWedgesLeft else .clear none
  | .pointsReserve => .read facts.mam facts.pointsBelowReserve none
  | .vipEnding => .read facts.mam ((facts.mam.account.vipEnding now).map .vipEnding) none
  | .mamClient =>
    match facts.mam.client with
    | .unknown | .noneListed => .unchanged
    | .listed => .clear (some .mamClientListed)
    | standing => .active (.mamClientNotListed standing)
  | .purchaseUnresolved =>
    match facts.mam.account.unresolvedPurchase with
    | some purchase => .active (.purchaseNeedsChecking purchase)
    | none => .clear none
  | .connectable =>
    match facts.mam.connectability with
    | .fine => .clear (some .connectableAgain)
    | .repaired .. => .unchanged
    | .unresolved _ findings => .active (.notConnectable findings)
  | .downloadsRefused =>
    if facts.mam.acquisition.refused.isSome then .active .downloadsRefused else .clear none

/-- The conditions in the order they are assessed. -/
def assessed : List Condition :=
  [.vpnProtection, .failoverBlocked, .forwardedPort, .qbittorrentReachable, .qbittorrentVersion,
    .torrentErrors, .filesMissing, .torrentsMissing, .registrySave, .seedingBehind, .mamSession,
    .seedboxRegistration, .mamIp, .ratio, .unsatisfiedLimit, .unsatisfiedNotSeeding, .mamFlags,
    .mamMessages, .downloadsHeld, .wedges, .pointsReserve, .vipEnding, .mamClient, .purchaseUnresolved,
    .connectable, .downloadsRefused]

/-- Read every lasting condition from core state. -/
def assess : List (Condition × Status) :=
  assessed.map fun condition => (condition, facts.status now condition)

end

/-! ## After each step -/

/-- Follow a condition; the notice to give, if any. -/
def Notifications.track (n : Notifications) (now : Instant) (condition : Condition) (status : Status) :
    Notifications × Option Notice :=
  match n.conditions[condition]?, status with
  | none, .active notice =>
    if condition.grace = 0 then
      ({ n with conditions := n.conditions.insert condition .raised }, some notice)
    else ({ n with conditions := n.conditions.insert condition (.pending now) }, none)
  | some (.pending since), .active notice =>
    if condition.grace ≤ now.durationSince since then
      ({ n with conditions := n.conditions.insert condition .raised }, some notice)
    else (n, none)
  | some (.pending _), .clear _ => ({ n with conditions := n.conditions.erase condition }, none)
  | some .raised, .clear notice => ({ n with conditions := n.conditions.erase condition }, notice)
  | _, _ => (n, none)

def Notifications.trackAll (n : Notifications) (now : Instant) (statuses : List (Condition × Status)) :
    Notifications × List Notice :=
  statuses.foldl
    (fun (n, notices) (condition, status) =>
      ((n.track now condition status).1, notices ++ (n.track now condition status).2.toList)) (n, [])

def Phase.due (condition : Condition) : Phase → Option Instant
  | .pending since => since.checkedAdd condition.grace
  | .raised => none

def Notifications.graceDue (n : Notifications) : Option Instant :=
  minOf (n.conditions.toList.map fun (condition, phase) => phase.due condition)

/-- Wake the core when the earliest pending condition's grace ends. -/
def Notifications.scheduleGrace (n : Notifications) (now : Instant) (timers : Timers) :
    Notifications × Timers × List Action :=
  match n.graceDue with
  | none => (n, timers, [])
  | some due =>
    if n.graceTimer.any fun (_, at') => at' == due then (n, timers, [])
    else
      let (timers, id, deadline) := timers.schedule now (due.durationSince now)
      ({ n with graceTimer := some (id, due) }, timers, [.startTimer .notificationGrace id deadline])

/-- Track lasting conditions, queue notices, and start the next delivery. -/
def Notifications.afterStep (n : Notifications) (now : ClockReading) (happened : List Notice)
    (facts : ConditionFacts) (settings : SettingsState) (timers : Timers) :
    Notifications × Timers × List Action :=
  let (n, notices) := n.trackAll now.monotonic (assess now.wall facts)
  let (n, recorded) := n.recordAll ((notices ++ happened).map fun notice => (now.wall, notice))
  let (n, timers, grace) := n.scheduleGrace now.monotonic timers
  let (n, sent) := n.send settings
  (n, timers, recorded ++ grace ++ sent)

end Windlass
