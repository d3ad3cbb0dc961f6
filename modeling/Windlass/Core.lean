import Windlass.Reactive
import Windlass.Notifications

/-!
# The core

`core/machine.rs`: every event is one step. The part of the core it is for
handles it; then the registry follows qBittorrent, MAM work chooses its next
request, qBittorrent its next command, and notifications look at the result.
-/

namespace Windlass

structure Core where
  state : State
  settings : SettingsState
  history : HistoryState
  portForwarding : PortForwarding
  qbittorrent : Qbittorrent
  registry : Registry
  tunnel : Tunnel
  mam : Mam
  notifications : Notifications
  timers : Timers
  step : Step

def Core.new : Core :=
  { state := .notStarted
    settings := .unread
    history := .closed
    portForwarding := .disabled
    qbittorrent := .disabled
    registry := .unread
    tunnel := Tunnel.new
    mam := Mam.new
    notifications := Notifications.new
    timers := Timers.new
    step := 0 }

section
variable (c : Core) (now : ClockReading)

/-! ## Handling the event -/

/-- Once storage opens, every stored part of the state is read. -/
def Core.startReading : Core × List Action :=
  ({ c with
     settings := c.settings.startReading.1
     history := (c.history.openStorage c.step).1
     registry := c.registry.startReading.1
     tunnel := c.tunnel.startReading.1
     mam := c.mam.startReading.1 },
    c.settings.startReading.2 ++ (c.history.openStorage c.step).2 ++ c.registry.startReading.2 ++
      c.tunnel.startReading.2 ++ c.mam.startReading.2 ++ [.readNoticeLog])

def State.isOpeningStorage : State → Bool
  | .openingStorage _ => true
  | _ => false

def State.isReadingMamPreference : State → Bool
  | .readingMamPreference _ => true
  | _ => false

def Core.handleStartup (event : StartupEvent) : Core × List Action :=
  let opening := c.state.isOpeningStorage
  let (state, started) := c.state.handleStartup event
  let c : Core := { c with state := state }
  let (c, reading) := if opening && state.isReadingMamPreference then c.startReading else (c, [])
  let c : Core :=
    if state = .failed then { c with notifications := c.notifications.logUnavailable } else c
  (c, started ++ reading)

def Core.handleMamPause (event : MamPauseEvent) : Core × List Action :=
  ({ c with state := (c.state.handleMamPause event).1 }, (c.state.handleMamPause event).2)

def Core.handleSettings (event : SettingsEvent) : Core × List Action :=
  ({ c with settings := (c.settings.handle event).1 }, (c.settings.handle event).2)

def Core.timerExpired (name : TimerName) (id : TimerId) : Core × List Action :=
  match name with
  | .portLease =>
    ({ c with portForwarding := (c.portForwarding.timerExpired id).1 },
      (c.portForwarding.timerExpired id).2)
  | .qbittorrentPoll =>
    ({ c with qbittorrent := (c.qbittorrent.timerExpired id).1 }, (c.qbittorrent.timerExpired id).2)
  | .tunnelCheck =>
    ({ c with tunnel := (c.tunnel.timerExpired now id).1 }, (c.tunnel.timerExpired now id).2)
  | .notificationGrace | .notificationRetry =>
    ({ c with notifications := c.notifications.timerExpired id }, [])
  | .mam => ({ c with mam := c.mam.timerExpired id }, [])

/-- A failed mapping suggests that the tunnel fails. -/
def Core.handlePortForwarding (event : PortForwardingEvent) : Core × List Action :=
  let (portForwarding, timers, actions) := c.portForwarding.handle now event c.timers
  let (tunnel, suspected) :=
    match event with
    | .mappingFailed _ => c.tunnel.suspect now
    | _ => (c.tunnel, [])
  ({ c with portForwarding := portForwarding, tunnel := tunnel, timers := timers }, actions ++ suspected)

def Core.handleQbittorrent (event : QbittorrentEvent) : Core × List Action :=
  let (qbittorrent, timers, actions) := c.qbittorrent.handle now event c.timers
  ({ c with qbittorrent := qbittorrent, timers := timers }, actions)

def Core.handleRegistry (event : RegistryEvent) : Core × List Action :=
  ({ c with registry := (c.registry.handle now.monotonic event).1 },
    (c.registry.handle now.monotonic event).2)

/-- A new server has a new gateway, forwarded port, and exit IP. -/
def Core.handleTunnel (event : TunnelEvent) : Core × List Action :=
  let (tunnel, timers, actions) := c.tunnel.handle now event c.timers
  let moved := event = .switched ∧ tunnel.current ≠ c.tunnel.current
  ({ c with
     tunnel := tunnel
     timers := timers
     portForwarding := if moved then c.portForwarding.renew.1 else c.portForwarding
     mam := if moved then c.mam.vpnSwitched else c.mam },
    actions ++ if moved then c.portForwarding.renew.2 else [])

def Core.handleNotification (event : NotificationEvent) : Core × List Action :=
  let (notifications, timers, actions) := c.notifications.handle now event c.timers
  ({ c with notifications := notifications, timers := timers }, actions)

/-- A new cookie MAM issued is saved through settings. -/
def Core.handleMam (event : MamEvent) : Core × List Action :=
  let (mam, registry, actions, rotated) := c.mam.handle now event c.registry
  let (settings, saved) :=
    match rotated with
    | some cookie => c.settings.rotate cookie
    | none => (c.settings, [])
  ({ c with mam := mam, registry := registry, settings := settings }, actions ++ saved)

def Core.dispatch (event : Event) : Core × List Action :=
  match event with
  | .startup event => c.handleStartup event
  | .mamPause event => c.handleMamPause event
  | .settings event => c.handleSettings event
  | .history event => ({ c with history := c.history.handle c.step event }, [])
  | .timerExpired name id => c.timerExpired now name id
  | .portForwarding event => c.handlePortForwarding now event
  | .qbittorrent event => c.handleQbittorrent now event
  | .registry event => c.handleRegistry now event
  | .tunnel event => c.handleTunnel now event
  | .notification event => c.handleNotification now event
  | .mam event => c.handleMam now event

def Core.expireLease : Core := { c with portForwarding := c.portForwarding.expire now.monotonic }

/-- After a sync, the registry follows what qBittorrent reports. -/
def Core.observe : Core × List Action :=
  match c.qbittorrent.deciding with
  | some (session, .sync) =>
    ({ c with registry := (c.registry.observe now session).1 }, (c.registry.observe now session).2)
  | _ => (c, [])

/-! ## Deciding -/

def Core.context : Context where
  requests := c.state.mamRequests
  protection :=
    if c.tunnel.watch.any fun watch => watch.protection.isAvailable then .isProtected else .isUnprotected
  cookie := c.settings.toLoaded.bind Settings.usableApiCookie
  requestedCookie := c.settings.toLoaded.bind fun settings => settings.apiCookie.requested
  reserve := c.settings.pointsReserve
  readiness :=
    if c.qbittorrent.session.any fun session => session.listed &&
      session.approval != .notAllowed then .ready
    else .notReady
  clientVersion := c.qbittorrent.session.bind fun session => session.version.toRelease
  connection :=
    { listenPort := c.qbittorrent.session.bind fun session => session.preferences.listenPort
      forwardedPort := c.portForwarding.forwardedPort
      tunnelIp := c.tunnel.watch.bind fun watch => watch.protection.exitIp
      interface := c.qbittorrent.session.bind fun session => session.preferences.interface }
  downloadingLimit := (c.settings.torrentLimits.getD default).downloading
  registry := c.registry

/-- Let MAM work choose its next request from the rest of the core's state. -/
def Core.decideMam : Core × List Action :=
  let decided := c.mam.decide now c.context c.timers
  ({ c with mam := decided.1, timers := decided.2.1 }, decided.2.2)

/-- Ask for a new forwarded-port lease when MAM work wants one, once. -/
def Core.renewLease : Core × List Action :=
  let c' : Core := { c with mam := { c.mam with lease := .notRequested } }
  if c.mam.lease = .requested then
    ({ c' with portForwarding := c.portForwarding.renew.1 }, c.portForwarding.renew.2)
  else (c', [])

def Core.wanted : Wanted where
  listenPort := c.portForwarding.forwardedPort
  queue := c.settings.torrentLimits.map QueuePreferences.forLimits

def Core.decideQbittorrent : Core × List Action :=
  let decided := c.qbittorrent.decide now c.timers c.wanted c.registry fun registry session =>
    registry.command now.monotonic c.mam.permitsDownload session
  let followed := decided.1.followPreferences c.wanted
  ({ c with qbittorrent := followed.1, timers := decided.2.1, registry := decided.2.2.1 },
    decided.2.2.2 ++ followed.2)

def Core.trimHistory : Core × List Action :=
  ({ c with history := (c.history.afterStep c.step c.settings.historyLimit).1 },
    (c.history.afterStep c.step c.settings.historyLimit).2)

/-! ## Notices -/

def Core.glance : Glance where
  failover := c.tunnel.watch.bind (·.failover)
  current := c.tunnel.current
  startup :=
    match c.state with
    | .failed => .failed
    | .ready _ => .ready
    | _ => .starting

def Core.conditionFacts : ConditionFacts where
  tunnel := c.tunnel
  portForwarding := c.portForwarding
  qbittorrent := c.qbittorrent
  registry := c.registry
  mam := c.mam
  reserve := c.settings.pointsReserve

def Core.notify (before : Glance) (reported : List Notice) : Core × List Action :=
  let notices := reported ++ c.notifications.changed before c.glance ++ c.mam.notices
  let taken : Core := { c with mam := { c.mam with notices := [] } }
  let told := c.notifications.afterStep now notices taken.conditionFacts c.settings c.timers
  ({ taken with notifications := told.1, timers := told.2.1 }, told.2.2)

/-! ## One step -/

/-- The step is counted and the event noted before it is handled. -/
def Core.note (event : Event) : Core :=
  { c with step := c.step + 1, notifications := (c.notifications.reported event).1 }

/-- The core once the event is handled and the registry follows qBittorrent. -/
def Core.receive (event : Event) : Core × List Action :=
  let handled := (c.note event).dispatch now event
  let observed := (handled.1.expireLease now).observe now
  (observed.1, handled.2 ++ observed.2)

/-- The core once every part has decided what to do next. -/
def Core.decide : Core × List Action :=
  let asked := c.decideMam now
  let renewed := asked.1.renewLease
  let commanded := renewed.1.decideQbittorrent now
  let trimmed := commanded.1.trimHistory
  (trimmed.1, asked.2 ++ renewed.2 ++ commanded.2 ++ trimmed.2)

/-- Handle one input and return effects for the shell to execute. -/
def Core.handle (event : Event) : Core × List Action :=
  let received := c.receive now event
  let decided := received.1.decide now
  let notified := decided.1.notify now (c.note event).glance (c.notifications.reported event).2
  (notified.1, received.2 ++ decided.2 ++ notified.2)

end

def core : Reactive.Machine Core TimedEvent Action where
  init := Core.new
  step c e := c.handle e.occurredAt e.event

theorem core_step (c : Core) (i : TimedEvent) : core.step c i = c.handle i.occurredAt i.event := rfl

@[simp] theorem entry_before (c : Core) (i : TimedEvent) : (core.entry c i).before = c := rfl

@[simp] theorem entry_input (c : Core) (i : TimedEvent) : (core.entry c i).input = i := rfl

@[simp] theorem entry_after (c : Core) (i : TimedEvent) :
    (core.entry c i).after = (c.handle i.occurredAt i.event).1 := rfl

@[simp] theorem entry_out (c : Core) (i : TimedEvent) :
    (core.entry c i).out = (c.handle i.occurredAt i.event).2 := rfl

/-- Monotonic clock readings never go back during the run. -/
def Steady (run : List (Reactive.Entry Core TimedEvent Action)) : Prop :=
  run.Pairwise fun e f => e.input.occurredAt.monotonic ≤ f.input.occurredAt.monotonic

theorem steady_iff {is : List TimedEvent} :
    Steady (core.run is) ↔ is.Pairwise fun i j => i.occurredAt.monotonic ≤ j.occurredAt.monotonic := by
  unfold Steady
  conv_rhs => rw [← Reactive.trace_inputs core core.init is]
  rw [List.pairwise_map]
  rfl

/-- On a steady clock, what happens at a later time is a later step. -/
theorem Steady.after {pre post : List (Reactive.Entry Core TimedEvent Action)}
    {e f : Reactive.Entry Core TimedEvent Action} (h : Steady (pre ++ e :: post))
    (hf : f ∈ pre ++ e :: post)
    (hlt : e.input.occurredAt.monotonic < f.input.occurredAt.monotonic) : f ∈ post := by
  rw [List.mem_append, List.mem_cons] at hf
  obtain hf | rfl | hf := hf
  · exact absurd ((List.pairwise_append.mp h).2.2 f hf e List.mem_cons_self) (not_le.mpr hlt)
  · exact absurd hlt (lt_irrefl _)
  · exact hf

end Windlass
