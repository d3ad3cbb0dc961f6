import Windlass.Settings

/-!
# Port forwarding, the tunnel and qBittorrent

`core/port_forwarding.rs`, `core/tunnel.rs` and `core/qbittorrent.rs`. Each
function returns the new state, the timer allocator when it schedules one, and
the actions it asks for.
-/

namespace Windlass

/-! ## Port forwarding -/

def leaseLifetime : Duration := Duration.fromMins 1

def leaseRetryAfter : Duration := Duration.fromSecs 5

structure Lease where
  tcp : Port
  udp : Port
  renewedAt : SystemTime
  expires : Instant
deriving DecidableEq

inductive LeaseRequest
  | outstanding
  | waiting (timer : TimerId)
deriving DecidableEq

inductive PortForwarding
  | disabled
  | enabled (lease : Option Lease) (request : LeaseRequest) (failures : FailureCount)
      (lastFailure : Option MappingFailure)
deriving DecidableEq

def PortForwarding.forwardedPort : PortForwarding → Option Port
  | .enabled (some lease) .. => some lease.tcp
  | .enabled none .. | .disabled => none

def PortForwarding.retry (lease : Option Lease) (failures : FailureCount) (now : ClockReading)
    (reason : MappingFailure) (timers : Timers) : PortForwarding × Timers × List Action :=
  let (timers, id, deadline) := timers.schedule now.monotonic leaseRetryAfter
  (.enabled lease (.waiting id) failures.afterAnother (some reason), timers,
    [.startTimer .portLease id deadline])

def PortForwarding.handle (p : PortForwarding) (now : ClockReading) (event : PortForwardingEvent)
    (timers : Timers) : PortForwarding × Timers × List Action :=
  match p, event with
  | .disabled, .enable =>
    (.enabled none .outstanding FailureCount.none none, timers, [.requestPortMapping leaseLifetime])
  | .enabled lease .outstanding failures _, .mapped tcp udp lifetime =>
    if lifetime ≠ 0 then
      let lease : Lease :=
        { tcp := tcp
          udp := udp
          renewedAt := now.wall
          expires := (now.monotonic.checkedAdd lifetime).getD now.monotonic }
      let (timers, id, deadline) := timers.schedule now.monotonic (lifetime * 3 / 4)
      (.enabled (some lease) (.waiting id) FailureCount.none none, timers,
        [.startTimer .portLease id deadline])
    else PortForwarding.retry lease failures now .malformed timers
  | .enabled lease .outstanding failures _, .mappingFailed reason =>
    PortForwarding.retry lease failures now reason timers
  | p, _ => (p, timers, [])

def PortForwarding.timerExpired (p : PortForwarding) (id : TimerId) : PortForwarding × List Action :=
  match p with
  | .enabled lease (.waiting timer) failures lastFailure =>
    if timer = id then
      (.enabled lease .outstanding failures lastFailure, [.requestPortMapping leaseLifetime])
    else (p, [])
  | p => (p, [])

/-- Forget the lease and ask for a new one now: the gateway changed. -/
def PortForwarding.renew : PortForwarding → PortForwarding × List Action
  | .enabled _ (.waiting _) failures lastFailure =>
    (.enabled none .outstanding failures lastFailure, [.requestPortMapping leaseLifetime])
  | .enabled _ request failures lastFailure => (.enabled none request failures lastFailure, [])
  | .disabled => (.disabled, [])

def PortForwarding.expire (p : PortForwarding) (now : Instant) : PortForwarding :=
  match p with
  | .enabled (some lease) request failures lastFailure =>
    if lease.expires ≤ now then .enabled none request failures lastFailure else p
  | p => p

/-! ## The tunnel -/

def checkInterval : Duration := Duration.fromMins 15

def checkRetryAfter : Duration := Duration.fromMins 1

def failuresBeforeSwitch : FailureCount := 3

def switchSpacing : Duration := Duration.fromHours 1

def suspicionSpacing : Duration := Duration.fromSecs 30

inductive Protection
  | unknown
  | available (exitIp : IpAddr) (checkedAt : SystemTime)
  | unavailable (since : SystemTime)
deriving DecidableEq

def Protection.isAvailable : Protection → Bool
  | .available .. => true
  | .unknown | .unavailable _ => false

def Protection.exitIp : Protection → Option IpAddr
  | .available exitIp _ => some exitIp
  | .unknown | .unavailable _ => none

inductive Check
  | outstanding
  | waiting (timer : TimerId)
  | switching
deriving DecidableEq

inductive LastSwitch
  | unread
  | reading
  | known (last : Option VpnSwitch)
  | readFailed
deriving DecidableEq

inductive Failover
  | saving (switch : VpnSwitch)
  | switching (server : VpnServer)
deriving DecidableEq

inductive SwitchAllowance
  | now
  | after (at' : SystemTime)
  | unknown
  | noAlternative
deriving DecidableEq

structure Watch where
  servers : List VpnServer
  current : Option VpnServer
  protection : Protection
  check : Check
  failures : FailureCount
  lastFailure : Option ExitIpFailure
  failover : Option Failover
  lastCheck : Instant
deriving DecidableEq

structure Tunnel where
  lastSwitch : LastSwitch
  watch : Option Watch
deriving DecidableEq

def Tunnel.new : Tunnel := { lastSwitch := .unread, watch := none }

def Tunnel.startReading (t : Tunnel) : Tunnel × List Action :=
  ({ t with lastSwitch := .reading }, [.readLastVpnSwitch])

def Tunnel.current (t : Tunnel) : Option VpnServer := t.watch.bind Watch.current

/-- The server after the current one, in configured order: the list turned to
start after the current server, searched once around. -/
def Watch.nextServer (w : Watch) : Option VpnServer :=
  let start :=
    match w.current.bind fun current => w.servers.findIdx? (· == current) with
    | some position => position + 1
    | none => 0
  (w.servers.rotateLeft start).find? fun server => some server ≠ w.current

def Watch.checkNow (w : Watch) (now : ClockReading) : Watch × List Action :=
  ({ w with check := .outstanding, lastCheck := now.monotonic }, [.checkExitIp])

def Watch.wait (w : Watch) (now : ClockReading) (timers : Timers) (after : Duration) :
    Watch × Timers × List Action :=
  let (timers, id, deadline) := timers.schedule now.monotonic after
  ({ w with check := .waiting id }, timers, [.startTimer .tunnelCheck id deadline])

def Watch.failOver (w : Watch) (now : ClockReading) (server : VpnServer) : Watch × List Action :=
  let switch : VpnSwitch := { server := server, at' := now.wall }
  ({ w with check := .switching, failover := some (.saving switch) }, [.saveVpnSwitch switch])

def Tunnel.switchAllowance (t : Tunnel) (now : SystemTime) : SwitchAllowance :=
  if (t.watch.bind Watch.nextServer).isNone then .noAlternative
  else
    match t.lastSwitch with
    | .known none => .now
    | .known (some last) =>
      let allowed := (last.at'.checkedAdd switchSpacing).getD last.at'
      if allowed ≤ now then .now else .after allowed
    | .unread | .reading | .readFailed => .unknown

/-- A failed check: switch after enough failures when allowed, or check again
soon. -/
def Tunnel.checkFailed (t : Tunnel) (watch : Watch) (now : ClockReading) (reason : ExitIpFailure)
    (timers : Timers) : Tunnel × Timers × List Action :=
  let watch : Watch :=
    { watch with
      protection :=
        match watch.protection with
        | .unavailable since => .unavailable since
        | _ => .unavailable now.wall
      failures := watch.failures.afterAnother
      lastFailure := some reason }
  match (if failuresBeforeSwitch ≤ watch.failures ∧
      t.switchAllowance now.wall = .now then watch.nextServer
    else none) with
  | some server =>
    let (watch, actions) := watch.failOver now server
    ({ t with watch := some watch }, timers, actions)
  | none =>
    let (watch, timers, actions) := watch.wait now timers checkRetryAfter
    ({ t with watch := some watch }, timers, actions)

def Tunnel.handle (t : Tunnel) (now : ClockReading) (event : TunnelEvent) (timers : Timers) :
    Tunnel × Timers × List Action :=
  match t.watch, event with
  | none, .enable servers current =>
    let watch : Watch :=
      { servers := servers
        current := current
        protection := .unknown
        check := .outstanding
        failures := FailureCount.none
        lastFailure := none
        failover := none
        lastCheck := now.monotonic }
    ({ t with watch := some watch }, timers, [.checkExitIp])
  | _, .lastSwitchRead lastSwitch =>
    (if t.lastSwitch = .reading then { t with lastSwitch := .known lastSwitch } else t, timers, [])
  | _, .lastSwitchReadFailed =>
    (if t.lastSwitch = .reading then { t with lastSwitch := .readFailed } else t, timers, [])
  | some watch, .exitIpObserved ip =>
    if watch.check = .outstanding then
      let watch : Watch :=
        { watch with
          protection := .available ip now.wall
          failures := FailureCount.none
          lastFailure := none }
      let (watch, timers, actions) := watch.wait now timers checkInterval
      ({ t with watch := some watch }, timers, actions)
    else (t, timers, [])
  | some watch, .exitIpCheckFailed reason =>
    if watch.check = .outstanding then t.checkFailed watch now reason timers else (t, timers, [])
  | some watch, .switchSaved =>
    match watch.failover with
    | some (.saving switch) =>
      ({ lastSwitch := .known (some switch)
         watch := some { watch with failover := some (.switching switch.server) } }, timers,
        [.switchVpnServer switch.server])
    | _ => (t, timers, [])
  | some watch, .switched =>
    match watch.failover with
    | some (.switching server) =>
      let watch : Watch :=
        { watch with
          failover := none
          current := some server
          protection := .unknown
          failures := FailureCount.none
          lastFailure := none }
      let (watch, actions) := watch.checkNow now
      ({ t with watch := some watch }, timers, actions)
    | _ => (t, timers, [])
  | some watch, .switchSaveFailed | some watch, .switchFailed =>
    if watch.failover.isSome then
      let (watch, timers, actions) := { watch with failover := none }.wait now timers checkRetryAfter
      ({ t with watch := some watch }, timers, actions)
    else (t, timers, [])
  | _, _ => (t, timers, [])

def Tunnel.timerExpired (t : Tunnel) (now : ClockReading) (id : TimerId) : Tunnel × List Action :=
  match t.watch with
  | some watch =>
    if watch.check = .waiting id then
      ({ t with watch := some (watch.checkNow now).1 }, (watch.checkNow now).2)
    else (t, [])
  | none => (t, [])

/-- Something suggests the tunnel fails: check it now, unless a check is
running, a switch is in progress, or a check started moments ago. -/
def Tunnel.suspect (t : Tunnel) (now : ClockReading) : Tunnel × List Action :=
  match t.watch with
  | some watch =>
    match watch.check with
    | .waiting _ =>
      if suspicionSpacing ≤ now.monotonic.durationSince watch.lastCheck then
        ({ t with watch := some (watch.checkNow now).1 }, (watch.checkNow now).2)
      else (t, [])
    | _ => (t, [])
  | none => (t, [])

/-! ## qBittorrent -/

def pollInterval : Duration := Duration.fromSecs 10

/-- Polls since qBittorrent's preferences were last read. -/
abbrev Polls := Nat

def pollsPerPreferencesRead : Polls := 6

def Polls.plusOne (n : Polls) : Polls := satAdd 255 n 1

structure Wanted where
  listenPort : Option Port
  queue : Option QueuePreferences
deriving DecidableEq

inductive DecidingAfter
  | sync | other
deriving DecidableEq

inductive Activity
  | waiting (timer : TimerId)
  | syncing
  | readingPreferences
  | settingListenPort (port : Port)
  | settingQueue
  | commanding
  | deciding (after : DecidingAfter)
deriving DecidableEq

inductive Listing
  | awaited | received
deriving DecidableEq

structure Session where
  version : ReportedVersion
  approval : MamApproval
  preferences : QbittorrentPreferences
  torrents : Std.ExtTreeMap TorrentHash Torrent
  activity : Activity
  position : SyncPosition
  listing : Listing
  pollsSincePreferences : Polls

inductive Qbittorrent
  | disabled
  | connecting
  | unreachable (reason : QbittorrentFailure) (retry : TimerId)
  | connected (session : Session)

def Session.listed (s : Session) : Bool := s.listing == .received

def Session.apply (s : Session) (update : SyncUpdate) : Session :=
  let s : Session :=
    if update.scope = .full then { s with torrents := ∅, listing := .received } else s
  let torrents := update.torrents.foldl
    (fun torrents (hash, changes) =>
      torrents.insert hash ((torrents[hash]?.getD {}).apply changes)) s.torrents
  let torrents := update.removed.foldl (fun torrents hash => torrents.erase hash) torrents
  { s with torrents := torrents, position := update.position }

/-- Change the first setting that differs from what Windlass wants: the listen
port, then the queue, which is left alone when qBittorrent does not report it. -/
def Session.setPreferences (s : Session) (wanted : Wanted) : Option (Session × List Action) :=
  match wanted.listenPort.filter fun port => s.preferences.listenPort ≠ some port with
  | some port => some ({ s with activity := .settingListenPort port }, [.setQbittorrentListenPort port])
  | none =>
    match wanted.queue.filter fun queue => s.preferences.queue.any (· ≠ queue) with
    | some queue => some ({ s with activity := .settingQueue }, [.setQbittorrentQueue queue])
    | none => none

def Session.wait (s : Session) (now : ClockReading) (timers : Timers) : Session × Timers × List Action :=
  let (timers, id, deadline) := timers.schedule now.monotonic pollInterval
  ({ s with activity := .waiting id }, timers, [.startTimer .qbittorrentPoll id deadline])

def Qbittorrent.failed (now : ClockReading) (reason : QbittorrentFailure) (timers : Timers) :
    Qbittorrent × Timers × List Action :=
  let (timers, retry, deadline) := timers.schedule now.monotonic pollInterval
  (.unreachable reason retry, timers, [.startTimer .qbittorrentPoll retry deadline])

def Qbittorrent.handle (q : Qbittorrent) (now : ClockReading) (event : QbittorrentEvent)
    (timers : Timers) :
    Qbittorrent × Timers × List Action :=
  match q, event with
  | .disabled, .enable => (.connecting, timers, [.connectQbittorrent])
  | .connecting, .connected version preferences =>
    (.connected
      { version := version
        approval := version.mamApproval
        preferences := preferences
        torrents := ∅
        activity := .syncing
        position := 0
        listing := .awaited
        pollsSincePreferences := 0 }, timers, [.syncQbittorrent 0])
  | .connected session, .synced update =>
    if session.activity = .syncing then
      let session := session.apply update
      (.connected
        { session with
          pollsSincePreferences := session.pollsSincePreferences.plusOne
          activity := .deciding .sync }, timers, [])
    else (q, timers, [])
  | .connected session, .commandDone =>
    if session.activity = .commanding then
      (.connected { session with activity := .deciding .other }, timers, [])
    else (q, timers, [])
  | .connected session, .preferencesRead preferences =>
    if session.activity = .readingPreferences then
      let (session, timers, actions) :=
        { session with preferences := preferences, pollsSincePreferences := 0 }.wait now timers
      (.connected session, timers, actions)
    else (q, timers, [])
  | .connected session, .listenPortSet =>
    match session.activity with
    | .settingListenPort _ =>
      (.connected { session with activity := .readingPreferences }, timers, [.readQbittorrentPreferences])
    | _ => (q, timers, [])
  | .connected session, .queueSet =>
    if session.activity = .settingQueue then
      (.connected { session with activity := .readingPreferences }, timers, [.readQbittorrentPreferences])
    else (q, timers, [])
  | .connecting, .connectFailed reason | .connected _, .syncFailed reason
  | .connected _, .preferencesReadFailed reason | .connected _, .listenPortSetFailed reason
  | .connected _, .queueSetFailed reason | .connected _, .commandFailed reason =>
    Qbittorrent.failed now reason timers
  | q, _ => (q, timers, [])

def Qbittorrent.timerExpired (q : Qbittorrent) (id : TimerId) : Qbittorrent × List Action :=
  match q with
  | .unreachable _ retry => if retry = id then (.connecting, [.connectQbittorrent]) else (q, [])
  | .connected session =>
    if session.activity = .waiting id then
      (.connected { session with activity := .deciding .other }, [])
    else (q, [])
  | q => (q, [])

def Qbittorrent.session : Qbittorrent → Option Session
  | .connected session => some session
  | .disabled | .connecting | .unreachable .. => none

def Qbittorrent.deciding (q : Qbittorrent) : Option (Session × DecidingAfter) :=
  match q with
  | .connected session =>
    match session.activity with
    | .deciding after => some (session, after)
    | _ => none
  | _ => none

/-- Choose the next request: the listen port and queue first, then an update, or
after one a registry command, preferences, or the next poll. The command may
change the registry `ρ` it is read from. -/
def Qbittorrent.decide {ρ : Type} (q : Qbittorrent) (now : ClockReading) (timers : Timers)
    (wanted : Wanted)
    (registry : ρ) (command : ρ → Session → ρ × Option TorrentCommand) :
    Qbittorrent × Timers × ρ × List Action :=
  match q.deciding with
  | none => (q, timers, registry, [])
  | some (session, after) =>
    match session.setPreferences wanted with
    | some (session, actions) => (.connected session, timers, registry, actions)
    | none =>
      match after with
      | .other =>
        (.connected { session with activity := .syncing }, timers, registry,
          [.syncQbittorrent session.position])
      | .sync =>
        match command registry session with
        | (registry, some command) =>
          (.connected { session with activity := .commanding }, timers, registry,
            [.qbittorrentCommand command])
        | (registry, none) =>
          if pollsPerPreferencesRead ≤ session.pollsSincePreferences then
            (.connected { session with activity := .readingPreferences }, timers, registry,
              [.readQbittorrentPreferences])
          else
            let (session, timers, actions) := session.wait now timers
            (.connected session, timers, registry, actions)

def Qbittorrent.followPreferences (q : Qbittorrent) (wanted : Wanted) : Qbittorrent × List Action :=
  match q with
  | .connected session =>
    match session.activity with
    | .waiting _ =>
      match session.setPreferences wanted with
      | some (session, actions) => (.connected session, actions)
      | none => (q, [])
    | _ => (q, [])
  | q => (q, [])

end Windlass
