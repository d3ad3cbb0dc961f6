import Windlass.Parts

/-!
# One step of the core

What a step leaves alone, where it changes the work with MAM, and which of its
stages can ask MAM for something.
-/

namespace Windlass

/-! ## Requests and saved attempts among the actions -/

def Action.request? : Action → Option (MamRequest × Option ApiCookie)
  | .mamRequest request cookie => some (request, cookie)
  | _ => none

def Action.attempt? : Action → Option SystemTime
  | .saveRegistrationAttempt at' => some at'
  | _ => none

def requests (out : List Action) : List (MamRequest × Option ApiCookie) := out.filterMap Action.request?

def attempts (out : List Action) : List SystemTime := out.filterMap Action.attempt?

@[simp] theorem requests_nil : requests [] = [] := rfl

@[simp] theorem attempts_nil : attempts [] = [] := rfl

@[simp] theorem requests_append (out out' : List Action) :
    requests (out ++ out') = requests out ++ requests out' :=
  List.filterMap_append

@[simp] theorem attempts_append (out out' : List Action) :
    attempts (out ++ out') = attempts out ++ attempts out' :=
  List.filterMap_append

theorem mem_requests {out : List Action} {request : MamRequest} {cookie : Option ApiCookie} :
    (request, cookie) ∈ requests out ↔ .mamRequest request cookie ∈ out := by
  unfold requests
  rw [List.mem_filterMap]
  constructor
  · rintro ⟨a, ha, hr⟩
    cases a <;> simp_all [Action.request?]
  · exact fun h => ⟨_, h, rfl⟩

/-- Nothing is asked of MAM, and no registration attempt is saved. -/
def Quiet (out : List Action) : Prop := ∀ a ∈ out, a.request? = none ∧ a.attempt? = none

@[simp] theorem quiet_nil : Quiet [] := by simp [Quiet]

@[simp] theorem quiet_cons {a : Action} {out : List Action} :
    Quiet (a :: out) ↔ (a.request? = none ∧ a.attempt? = none) ∧ Quiet out := by simp [Quiet]

@[simp] theorem quiet_append {out out' : List Action} : Quiet (out ++ out') ↔ Quiet out ∧ Quiet out' := by
  unfold Quiet
  simp only [List.mem_append, or_imp]
  exact forall_and

theorem Quiet.requests {out : List Action} (h : Quiet out) : requests out = [] := by
  simp only [Windlass.requests, List.filterMap_eq_nil_iff]
  exact fun a ha => (h a ha).1

theorem Quiet.attempts {out : List Action} (h : Quiet out) : attempts out = [] := by
  simp only [Windlass.attempts, List.filterMap_eq_nil_iff]
  exact fun a ha => (h a ha).2

theorem Emits.quiet {part : Part} {out : List Action} (h : Emits part out) (hp : part ≠ .mam) :
    Quiet out := by
  intro a ha
  have := h a ha
  cases a <;> simp_all [Action.part, Action.request?, Action.attempt?]

/-! ## Answers only keep the books -/

/-- Only rows and the ratio guard are saved. -/
def Books (out : List Action) : Prop := ∀ a ∈ out, a.part = .registry ∨ ∃ guard, a = .saveRatioGuard guard

@[simp] theorem books_nil : Books [] := by simp [Books]

@[simp] theorem books_append {out out' : List Action} : Books (out ++ out') ↔ Books out ∧ Books out' := by
  unfold Books
  simp only [List.mem_append, or_imp]
  exact forall_and

theorem Emits.books {out : List Action} (h : Emits .registry out) : Books out := fun a ha => .inl (h a ha)

theorem Books.quiet {out : List Action} (h : Books out) : Quiet out := by
  intro a ha
  obtain hr | ⟨guard, rfl⟩ := h a ha
  · cases a <;> simp_all [Action.part, Action.request?, Action.attempt?]
  · exact ⟨rfl, rfl⟩

section
variable (m : Mam) (now : ClockReading) (registry : Registry)

theorem followDownloads_books : Books (m.followDownloads now registry).2.2 :=
  (followDownloads_emits m now registry).books

theorem fetched_emits (id : MamTorrentId) (wedge : Wedge) (result : Except MamFailure MamReply) :
    Emits .registry (m.fetched now id wedge result registry).2.2 := by
  unfold Mam.fetched
  dsimp only
  split
  · split
    · exact registry_change_emits registry fun records => save_emits _ _
    · exact followDownloads_emits _ now registry
  all_goals simp

theorem listed_emits (page : BookmarkPage) : Emits .registry (m.listed now page registry).2.2 := by
  unfold Mam.listed
  dsimp only
  split
  · simp only [emits_append]
    refine ⟨⟨snatchedAll_emits _ _ _, save_emits _ _⟩, ?_⟩
    generalize Registry.loaded _ = registry
    exact followDownloads_emits _ now registry
  · simp

theorem torrentAnswered_emits (id : MamTorrentId) (result : Except MamFailure MamReply) :
    Emits .registry (m.torrentAnswered now id result registry).2.2 := by
  unfold Mam.torrentAnswered
  split
  · simp only [emits_append]
    refine ⟨?_, followDownloads_emits _ now _⟩
    split
    · exact registry_change_emits registry fun records => save_emits _ _
    · simp
  all_goals simp

theorem seen_books (seen : Seen) : Books seen.actions := by
  cases seen <;> simp [Books, Seen.actions]

theorem applyAnswer_books (request : MamRequest) (result : Except MamFailure MamReply) (current : Bool) :
    Books (m.applyAnswer now request result current registry).2.2 := by
  unfold Mam.applyAnswer
  split
  · simp
  · exact (fetched_emits m now registry _ _ _).books
  · simp
  · simp
  · unfold Mam.userDataAnswered
    split
    · simp only [books_append]
      exact ⟨seen_books _, followDownloads_books _ now registry⟩
    all_goals simp
  · unfold Mam.historyAnswered
    split
    · exact followDownloads_books _ now registry
    all_goals simp
  · exact (torrentAnswered_emits m now registry _ _).books
  · unfold Mam.bookmarksAnswered
    split
    · exact (listed_emits m now registry _).books
    all_goals simp
  · simp

/-- The only event after which something is sent at once is a saved attempt. -/
theorem mam_handle_books {event : MamEvent} (h : event ≠ .registrationAttemptSaved) :
    Books (m.handle now event registry).2.2.1 := by
  cases event with
  | registrationAttemptSaved => exact absurd rfl h
  | ratioUseChecked =>
    simp only [Mam.handle, Mam.ratioUseChecked]
    split
    · intro a ha
      obtain rfl | ha := List.mem_cons.mp ha
      · exact .inr ⟨_, rfl⟩
      · exact followDownloads_books _ now registry a ha
    · simp
  | answered result rotated =>
    simp only [Mam.handle, Mam.requestAnswered]
    split
    · exact applyAnswer_books _ now registry _ _ _
    · simp
  | _ => simp [Mam.handle]

end

/-! ## What the event changes -/

/-- Changes of MAM work that no MAM event makes. -/
inductive Mam.Nudged (m : Mam) : Mam → Prop
  | same : Mam.Nudged m m
  | switched : Mam.Nudged m m.vpnSwitched
  | reading : Mam.Nudged m m.startReading.1
  | woken (id : TimerId) : Mam.Nudged m (m.timerExpired id)

section
variable (c : Core) (now : ClockReading)

theorem handleStartup_eq (event : StartupEvent) :
    (c.handleStartup event).1.mam = c.mam ∧ (c.handleStartup event).1.settings = c.settings ∧
        (c.handleStartup event).1.registry = c.registry ∨
      c.state.isOpeningStorage ∧ (c.handleStartup event).1.state.isReadingMamPreference ∧
        (c.handleStartup event).1.mam = c.mam.startReading.1 ∧
        (c.handleStartup event).1.settings = c.settings.startReading.1 ∧
        (c.handleStartup event).1.registry = c.registry.startReading.1 := by
  unfold Core.handleStartup
  dsimp only
  by_cases h : (c.state.isOpeningStorage && (c.state.handleStartup event).1.isReadingMamPreference) = true
  · rw [if_pos h]
    rw [Bool.and_eq_true] at h
    right
    split
    · exact ⟨h.1, h.2, rfl, rfl, rfl⟩
    · exact ⟨h.1, h.2, rfl, rfl, rfl⟩
  · rw [if_neg h]
    left
    split
    · exact ⟨rfl, rfl, rfl⟩
    · exact ⟨rfl, rfl, rfl⟩

theorem handleStartup_state (event : StartupEvent) :
    (c.handleStartup event).1.state = (c.state.handleStartup event).1 := by
  unfold Core.handleStartup Core.startReading
  dsimp only
  split <;> split <;> rfl

theorem dispatch_nudged {event : Event} (h : ∀ e, event ≠ .mam e) :
    c.mam.Nudged (c.dispatch now event).1.mam := by
  cases event with
  | startup event =>
    obtain ⟨hm, -⟩ | ⟨-, -, hm, -⟩ := handleStartup_eq c event
    · exact hm ▸ .same
    · exact hm ▸ .reading
  | timerExpired name id =>
    cases name with
    | mam => exact .woken id
    | _ => exact .same
  | tunnel event =>
    simp only [Core.dispatch, Core.handleTunnel]
    split
    · exact .switched
    · exact .same
  | mam event => exact absurd rfl (h event)
  | _ => exact .same

theorem dispatch_mam_eq (event : MamEvent) :
    (c.dispatch now (.mam event)).1.mam = (c.mam.handle now event c.registry).1 := rfl

theorem handleMam_quiet {event : MamEvent} (h : event ≠ .registrationAttemptSaved) :
    Quiet (c.handleMam now event).2 := by
  simp only [Core.handleMam, quiet_append]
  refine ⟨(mam_handle_books c.mam now c.registry h).quiet, ?_⟩
  split
  · exact (settings_rotate_emits _ _).quiet (by decide)
  · simp

theorem handleStartup_quiet (event : StartupEvent) : Quiet (c.handleStartup event).2 := by
  have h := (startup_emits c.state event).quiet (by decide)
  simp only [Core.handleStartup, quiet_append]
  refine ⟨h, ?_⟩
  split
  · simp [Core.startReading, SettingsState.startReading, HistoryState.openStorage, Registry.startReading,
      Tunnel.startReading, Mam.startReading, Action.request?, Action.attempt?]
  · simp

theorem dispatch_quiet {event : Event} (h : event ≠ .mam .registrationAttemptSaved) :
    Quiet (c.dispatch now event).2 := by
  cases event with
  | startup event => exact handleStartup_quiet c event
  | mamPause event => exact (mamPause_emits c.state event).quiet (by decide)
  | settings event => exact (settings_handle_emits c.settings event).quiet (by decide)
  | history event => exact quiet_nil
  | timerExpired name id =>
    cases name with
    | portLease => exact (portForwarding_timerExpired_emits c.portForwarding id).quiet (by decide)
    | qbittorrentPoll => exact (qbittorrent_timerExpired_emits c.qbittorrent id).quiet (by decide)
    | tunnelCheck => exact (tunnel_timerExpired_emits c.tunnel now id).quiet (by decide)
    | _ => exact quiet_nil
  | portForwarding event =>
    simp only [Core.dispatch, Core.handlePortForwarding, quiet_append]
    refine ⟨(portForwarding_handle_emits c.portForwarding now event c.timers).quiet (by decide), ?_⟩
    split
    · exact (tunnel_suspect_emits c.tunnel now).quiet (by decide)
    · simp
  | qbittorrent event =>
    exact (qbittorrent_handle_emits c.qbittorrent now event c.timers).quiet (by decide)
  | registry event => exact (registry_handle_emits c.registry now.monotonic event).quiet (by decide)
  | tunnel event =>
    simp only [Core.dispatch, Core.handleTunnel, quiet_append]
    refine ⟨(tunnel_handle_emits c.tunnel now event c.timers).quiet (by decide), ?_⟩
    split
    · exact (renew_emits c.portForwarding).quiet (by decide)
    · simp
  | notification event =>
    exact (notifications_handle_emits c.notifications now event c.timers).quiet (by decide)
  | mam event => exact handleMam_quiet c now fun he => h (he ▸ rfl)

/-- The parts that may ask for actions when the event is handled. -/
def Event.parts : Event → List Part
  | .startup _ => [.startup, .settings, .history, .registry, .tunnel, .mam, .notifications]
  | .mamPause _ => [.mamPause]
  | .settings _ => [.settings]
  | .history _ => []
  | .timerExpired name _ => [name.part]
  | .portForwarding _ => [.portForwarding, .tunnel]
  | .qbittorrent _ => [.qbittorrent]
  | .registry _ => [.registry]
  | .tunnel _ => [.tunnel, .portForwarding]
  | .notification _ => [.notifications]
  | .mam _ => [.mam, .registry, .settings]

theorem mam_handle_parts (m : Mam) (registry : Registry) (event : MamEvent) {a : Action}
    (ha : a ∈ (m.handle now event registry).2.2.1) : a.part ∈ [Part.mam, .registry] := by
  by_cases he : event = .registrationAttemptSaved
  · subst he
    simp only [Mam.handle, Mam.registrationAttemptSaved] at ha
    split at ha
    · split at ha
      · cases ha
      · rw [List.mem_singleton.mp ha]
        simp [Action.part]
    · cases ha
  · obtain hr | ⟨guard, rfl⟩ := mam_handle_books m now registry he a ha
    · simp [hr]
    · simp [Action.part]

theorem handleMam_parts (event : MamEvent) {a : Action} (ha : a ∈ (c.handleMam now event).2) :
    a.part ∈ (Event.mam event).parts := by
  simp only [Core.handleMam, List.mem_append] at ha
  obtain ha | ha := ha
  · have hp := mam_handle_parts now c.mam c.registry event ha
    simp only [List.mem_cons, List.not_mem_nil, or_false] at hp
    obtain hp | hp := hp <;> simp [Event.parts, hp]
  · split at ha
    · rw [settings_rotate_emits _ _ a ha]
      simp [Event.parts]
    · cases ha

theorem handleStartup_parts (event : StartupEvent) {a : Action} (ha : a ∈ (c.handleStartup event).2) :
    a.part ∈ (Event.startup event).parts := by
  simp only [Core.handleStartup, List.mem_append] at ha
  obtain ha | ha := ha
  · rw [startup_emits _ _ a ha]
    simp [Event.parts]
  · split at ha
    · simp only [Core.startReading, SettingsState.startReading, HistoryState.openStorage,
        Registry.startReading,
        Tunnel.startReading, Mam.startReading, List.mem_append, List.mem_singleton] at ha
      obtain ((((rfl | rfl) | rfl) | rfl) | rfl) | rfl := ha <;> simp [Event.parts, Action.part]
    · cases ha

/-- An action asked for by the event's handling belongs to one of its parts. -/
theorem dispatch_parts {event : Event} {a : Action} (ha : a ∈ (c.dispatch now event).2) :
    a.part ∈ event.parts := by
  have hin {part : Part} {out : List Action} (h : Emits part out) (hm : a ∈ out)
      (hp : part ∈ event.parts) :
      a.part ∈ event.parts := by
    rw [h a hm]
    exact hp
  cases event with
  | startup event => exact handleStartup_parts c event ha
  | mamPause event => exact hin (mamPause_emits c.state event) ha (by simp [Event.parts])
  | settings event => exact hin (settings_handle_emits c.settings event) ha (by simp [Event.parts])
  | history event => cases ha
  | timerExpired name id =>
    cases name with
    | portLease =>
      exact hin (portForwarding_timerExpired_emits c.portForwarding id) ha
        (by simp [Event.parts, TimerName.part])
    | qbittorrentPoll =>
      exact hin (qbittorrent_timerExpired_emits c.qbittorrent id) ha
        (by simp [Event.parts, TimerName.part])
    | tunnelCheck =>
      exact hin (tunnel_timerExpired_emits c.tunnel now id) ha (by simp [Event.parts, TimerName.part])
    | _ => cases ha
  | portForwarding event =>
    simp only [Core.dispatch, Core.handlePortForwarding, List.mem_append] at ha
    obtain ha | ha := ha
    · exact hin (portForwarding_handle_emits c.portForwarding now event c.timers) ha
        (by simp [Event.parts])
    · split at ha
      · exact hin (tunnel_suspect_emits c.tunnel now) ha (by simp [Event.parts])
      · cases ha
  | qbittorrent event =>
    exact hin (qbittorrent_handle_emits c.qbittorrent now event c.timers) ha (by simp [Event.parts])
  | registry event =>
    exact hin (registry_handle_emits c.registry now.monotonic event) ha (by simp [Event.parts])
  | tunnel event =>
    simp only [Core.dispatch, Core.handleTunnel, List.mem_append] at ha
    obtain ha | ha := ha
    · exact hin (tunnel_handle_emits c.tunnel now event c.timers) ha (by simp [Event.parts])
    · split at ha
      · exact hin (renew_emits c.portForwarding) ha (by simp [Event.parts])
      · cases ha
  | notification event =>
    exact hin (notifications_handle_emits c.notifications now event c.timers) ha (by simp [Event.parts])
  | mam event => exact handleMam_parts c now event ha

end

/-! ## Preparing and sending -/

section
variable (m : Mam) (now : ClockReading) (context : Context)

theorem remind_cases : (m.remind now = (m, [])) ∨ ∃ notices,
    m.remind now = ({ m with lastReminder := .known (some now.wall), notices := notices },
      [.saveReminder now.wall]) := by
  unfold Mam.remind
  dsimp only
  split
  · exact .inl rfl
  · exact .inl rfl
  · exact .inr ⟨_, rfl⟩
  · exact .inr ⟨_, rfl⟩
  · split
    · exact .inr ⟨_, rfl⟩
    · exact .inl rfl

theorem scheduleWake_eq (early : Bool) (timers : Timers) :
    ∃ wake, (m.scheduleWake now early timers).1 = { m with wake := wake } := by
  unfold Mam.scheduleWake
  split
  · exact ⟨_, rfl⟩
  · split
    · exact ⟨_, rfl⟩
    · exact ⟨_, rfl⟩

theorem scheduleWake_emits (early : Bool) (timers : Timers) :
    Emits .mam (m.scheduleWake now early timers).2.2 := by
  unfold Mam.scheduleWake
  split
  · simp
  · split <;> simp [Action.part, TimerName.part]

theorem scheduleWake_quiet (early : Bool) (timers : Timers) :
    Quiet (m.scheduleWake now early timers).2.2 := by
  unfold Mam.scheduleWake
  split
  · simp
  · split <;> simp [Action.request?, Action.attempt?]

theorem remind_quiet : Quiet (m.remind now).2 := by
  rcases remind_cases m now with h | ⟨notices, h⟩ <;> rw [h] <;> simp [Action.request?, Action.attempt?]

theorem send_cases (plan : Plan) :
    m.send now context plan = (m, []) ∨
    m.gate = .open' ∧ m.outstanding = none ∧
      ((∃ cookie budget, m.wanted now context.reserve plan = some .register ∧ plan.cookie = some cookie ∧
          m.send now context plan =
            ({ m with budget := budget,
                      outstanding := some (.savingRegistration now.wall cookie m.epoch) },
              [.saveRegistrationAttempt now.wall])) ∨
        ∃ request budget, m.wanted now context.reserve plan = some (.request request) ∧
          m.send now context plan =
            ({ (m.recordSent now request context.registry) with
               budget := budget
               outstanding := some (.request request now.monotonic m.epoch) },
              [.mamRequest request (plan.cookie.filter fun _ => request.needsCookie)])) := by
  by_cases h : m.gate = .open' ∧ m.outstanding = none
  · unfold Mam.send
    rw [if_pos h]
    split
    · next cookie budget hw hc _ => exact .inr ⟨h.1, h.2, .inl ⟨cookie, budget, hw, hc, rfl⟩⟩
    · next request budget hw _ => exact .inr ⟨h.1, h.2, .inr ⟨request, budget, hw, rfl⟩⟩
    · exact .inl rfl
  · exact .inl (if_neg h)

end

/-! ## The whole step -/

section
variable (c : Core) (now : ClockReading) (event : Event)

/-- The core once the event is handled. -/
def Core.received : Core := (c.receive now event).1

/-- MAM work just before it sends. -/
def Core.prepared : Mam := ((c.received now event).mam.prepare now (c.received now event).context).1

def Core.planned : Plan := ((c.received now event).mam.prepare now (c.received now event).context).2

def Core.sending : Mam × List Action :=
  (c.prepared now event).send now (c.received now event).context (c.planned now event)

theorem observe_frame (c : Core) :
    (c.observe now).1 = { c with registry := (c.observe now).1.registry } := by
  unfold Core.observe
  split <;> rfl

theorem received_eq : c.received now event =
    { ((c.note event).dispatch now event).1 with
      portForwarding := ((c.note event).dispatch now event).1.portForwarding.expire now.monotonic
      registry := (c.received now event).registry } :=
  observe_frame now (((c.note event).dispatch now event).1.expireLease now)

@[simp] theorem received_mam :
    (c.received now event).mam = ((c.note event).dispatch now event).1.mam := by
  rw [received_eq]

@[simp] theorem received_state :
    (c.received now event).state = ((c.note event).dispatch now event).1.state := by
  rw [received_eq]

@[simp] theorem received_settings :
    (c.received now event).settings = ((c.note event).dispatch now event).1.settings := by
  rw [received_eq]

@[simp] theorem received_tunnel :
    (c.received now event).tunnel = ((c.note event).dispatch now event).1.tunnel := by
  rw [received_eq]

theorem renewLease_frame (c : Core) : c.renewLease.1 =
    { c with
      mam := { c.mam with lease := .notRequested }
      portForwarding := c.renewLease.1.portForwarding } := by
  unfold Core.renewLease
  dsimp only
  split <;> rfl

theorem decideMam_eq : (c.received now event).decideMam now =
    ({ c.received now event with
       mam := ((c.sending now event).1.scheduleWake now (c.planned now event).early
         (c.received now event).timers).1
       timers :=
         ((c.sending now event).1.scheduleWake now (c.planned now event).early
           (c.received now event).timers).2.1 },
      ((c.received now event).mam.remind now).2 ++ (c.sending now event).2 ++
        ((c.sending now event).1.scheduleWake now (c.planned now event).early
          (c.received now event).timers).2.2) := by
  simp only [Core.decideMam, Mam.decide, Core.sending, Core.planned, Core.prepared]

/-- The core once every part has decided what to do next. -/
def Core.decided : Core := ((c.received now event).decide now).1

theorem decided_eq : c.decided now event =
    { (((c.received now event).decideMam now).1.renewLease.1.decideQbittorrent now).1 with
      history := (c.decided now event).history } := by
  simp only [Core.decided, Core.decide, Core.trimHistory]

theorem handle_eq : (c.handle now event).1 =
    { c.decided now event with
      mam := { (c.decided now event).mam with notices := [] }
      notifications := (c.handle now event).1.notifications
      timers := (c.handle now event).1.timers } := by
  simp only [Core.handle, Core.notify, Core.decided, Core.received]

theorem decideQbittorrent_frame (c : Core) : (c.decideQbittorrent now).1 =
    { c with
      qbittorrent := (c.decideQbittorrent now).1.qbittorrent
      timers := (c.decideQbittorrent now).1.timers
      registry := (c.decideQbittorrent now).1.registry } := by
  simp only [Core.decideQbittorrent]

theorem decided_notifications :
    (c.decided now event).notifications = ((c.note event).dispatch now event).1.notifications := by
  rw [decided_eq, decideQbittorrent_frame, renewLease_frame, decideMam_eq, received_eq]

/-- What a step leaves of the state the event handler produced. -/
theorem handle_frame : (c.handle now event).1.state = (c.received now event).state ∧
    (c.handle now event).1.settings = (c.received now event).settings ∧
    (c.handle now event).1.tunnel = (c.received now event).tunnel := by
  rw [handle_eq, decided_eq, decideQbittorrent_frame, renewLease_frame, decideMam_eq]
  exact ⟨rfl, rfl, rfl⟩

theorem handle_mam : ∃ wake, (c.handle now event).1.mam =
    { (c.sending now event).1 with wake := wake, lease := .notRequested, notices := [] } := by
  obtain ⟨wake, hw⟩ := scheduleWake_eq (c.sending now event).1 now (c.planned now event).early
    (c.received now event).timers
  refine ⟨wake, ?_⟩
  rw [handle_eq, decided_eq, decideQbittorrent_frame, renewLease_frame, decideMam_eq, hw]

theorem observe_emits (c : Core) : Emits .registry (c.observe now).2 := by
  unfold Core.observe
  split
  · exact registry_observe_emits _ _ _
  · simp

theorem renewLease_emits (c : Core) : Emits .portForwarding c.renewLease.2 := by
  unfold Core.renewLease
  dsimp only
  split
  · exact renew_emits _
  · simp

theorem decideQbittorrent_emits (c : Core) : Emits .qbittorrent (c.decideQbittorrent now).2 := by
  simp only [Core.decideQbittorrent, emits_append]
  exact ⟨qbittorrent_decide_emits _ _ _ _ _ _, qbittorrent_followPreferences_emits _ _⟩

theorem trimHistory_emits (c : Core) : Emits .history c.trimHistory.2 :=
  history_afterStep_emits c.history c.step c.settings.historyLimit

theorem notify_emits (c : Core) (before : Glance) (reported : List Notice) :
    Emits .notifications (c.notify now before reported).2 := by
  simp only [Core.notify]
  exact afterStep_emits _ _ _ _ _ _

theorem decideMam_emits : Emits .mam ((c.received now event).decideMam now).2 := by
  rw [decideMam_eq]
  simp only [emits_append]
  refine ⟨⟨?_, ?_⟩, scheduleWake_emits _ now _ _⟩
  · rcases remind_cases (c.received now event).mam now with h | ⟨_, h⟩ <;> rw [h] <;> simp [Action.part]
  · obtain h | ⟨_, _, ⟨_, _, _, _, h⟩ | ⟨_, _, _, h⟩⟩ := send_cases (c.prepared now event) now
      (c.received now event).context (c.planned now event)
    all_goals
      have h' : c.sending now event = _ := h
      rw [h']
      simp [Action.part]

/-- The stages of a step in order, with what each asks for. -/
theorem handle_out : (c.handle now event).2 =
    (((c.note event).dispatch now event).2 ++
      ((((c.note event).dispatch now event).1.expireLease now).observe now).2) ++
      (((c.received now event).decideMam now).2 ++
        ((c.received now event).decideMam now).1.renewLease.2 ++
        (((c.received now event).decideMam now).1.renewLease.1.decideQbittorrent now).2 ++
        (((c.received now event).decideMam now).1.renewLease.1.decideQbittorrent now).1.trimHistory.2) ++
      ((c.decided now event).notify now (c.note event).glance (c.notifications.reported event).2).2 := by
  simp only [Core.handle, Core.decided, Core.decide, Core.received, Core.receive]

end

/-! ## What a step asks for MAM work -/

section
variable {α : Type} {f : Action → Option α} (hf : ∀ a, a.part ≠ .mam → f a = none) (c : Core)
  (now : ClockReading)
include hf

theorem emits_mam_none {part : Part} {out : List Action} (h : Emits part out) (hp : part ≠ .mam) :
    out.filterMap f = [] :=
  List.filterMap_eq_nil_iff.mpr fun a ha => hf a (h a ha ▸ hp)

/-- Only opening storage asks for what MAM work has saved. -/
theorem handleStartup_mam_out (e : StartupEvent) : (c.handleStartup e).2.filterMap f =
    if c.state.isOpeningStorage && (c.state.handleStartup e).1.isReadingMamPreference then
      [Action.readMamState].filterMap f
    else [] := by
  simp only [Core.handleStartup, List.filterMap_append]
  rw [emits_mam_none hf (startup_emits c.state e) (by decide), List.nil_append]
  split
  · simp only [Core.startReading, SettingsState.startReading, HistoryState.openStorage,
      Registry.startReading,
      Tunnel.startReading, Mam.startReading, List.cons_append, List.nil_append, List.filterMap_cons,
      List.filterMap_nil]
    rw [hf .readSettings (by decide), hf .openHistory (by decide), hf .readTorrentRegistry (by decide),
      hf .readLastVpnSwitch (by decide), hf .readNoticeLog (by decide)]
  · rfl

/-- The other events ask for it while MAM work handles them. -/
theorem dispatch_mam_out {event : Event} (hs : ∀ e, event ≠ .startup e) :
    (c.dispatch now event).2.filterMap f =
    match event with
    | .mam e => (c.mam.handle now e c.registry).2.2.1.filterMap f
    | _ => [] := by
  have hparts (hp : Part.mam ∉ event.parts) : (c.dispatch now event).2.filterMap f = [] :=
    List.filterMap_eq_nil_iff.mpr fun a ha => hf a fun hm => hp (hm ▸ dispatch_parts c now ha)
  cases event with
  | startup e => exact absurd rfl (hs e)
  | timerExpired name id =>
    cases name with
    | mam => rfl
    | _ => exact hparts (by simp [Event.parts, TimerName.part])
  | mam e =>
    simp only [Core.dispatch, Core.handleMam, List.filterMap_append]
    split
    · rw [emits_mam_none hf (settings_rotate_emits _ _) (by decide), List.append_nil]
    · exact List.append_nil _
  | _ => exact hparts (by simp [Event.parts])

/-- After that, what is asked for MAM work comes from its own decision. -/
theorem handle_mam_out (event : Event) : (c.handle now event).2.filterMap f =
    ((c.note event).dispatch now event).2.filterMap f ++
    (((c.received now event).mam.remind now).2.filterMap f ++
      (c.sending now event).2.filterMap f ++
      ((c.sending now event).1.scheduleWake now (c.planned now event).early
        (c.received now event).timers).2.2.filterMap f) := by
  have hn {part : Part} {out : List Action} (h : Emits part out) (hp : part ≠ .mam) :
      out.filterMap f = [] :=
    emits_mam_none hf h hp
  rw [handle_out]
  simp only [List.filterMap_append, hn (observe_emits now _) (by decide),
    hn (renewLease_emits _) (by decide),
    hn (decideQbittorrent_emits now _) (by decide), hn (trimHistory_emits _) (by decide),
    hn (notify_emits now _ _ _) (by decide), List.append_nil, decideMam_eq]

end

/-- What is neither a reminder, a registration nor a request is not asked for by the
decision, the timer to wake it apart. -/
theorem decision_out {α : Type} {f : Action → Option α} (hr : ∀ at', f (.saveReminder at') = none)
    (ha : ∀ at', f (.saveRegistrationAttempt at') = none)
    (hq : ∀ request cookie, f (.mamRequest request cookie) = none)
    (c : Core) (now : ClockReading) (event : Event) :
    ((c.received now event).mam.remind now).2.filterMap f = [] ∧
    (c.sending now event).2.filterMap f = [] := by
  constructor
  · obtain h | ⟨notices, h⟩ := remind_cases (c.received now event).mam now
    · rw [h]
      rfl
    · rw [h]
      simp [hr]
  · obtain h | ⟨-, -, ⟨cookie, budget, -, -, h⟩ | ⟨request, budget, -, h⟩⟩ :=
      send_cases (c.prepared now event) now (c.received now event).context (c.planned now event)
    all_goals
      have h' : c.sending now event = _ := h
      rw [h']
      simp [ha, hq]

theorem request_mam (a : Action) (h : a.part ≠ .mam) : a.request? = none := by
  cases a <;> first | rfl | exact absurd rfl h

theorem attempt_mam (a : Action) (h : a.part ≠ .mam) : a.attempt? = none := by
  cases a <;> first | rfl | exact absurd rfl h

section
variable (c : Core) (now : ClockReading) (event : Event)

/-- Requests come from a saved attempt or from the decision, and attempts to save
from the decision alone. -/
theorem handle_requests : requests (c.handle now event).2 =
    requests ((c.note event).dispatch now event).2 ++ requests (c.sending now event).2 := by
  have hreminded := (remind_quiet (c.received now event).mam now).requests
  have hwoken := (scheduleWake_quiet (c.sending now event).1 now (c.planned now event).early
    (c.received now event).timers).requests
  unfold requests at hreminded hwoken ⊢
  rw [handle_mam_out request_mam, hreminded, hwoken, List.nil_append, List.append_nil]

theorem handle_attempts : attempts (c.handle now event).2 =
    attempts ((c.note event).dispatch now event).2 ++ attempts (c.sending now event).2 := by
  have hreminded := (remind_quiet (c.received now event).mam now).attempts
  have hwoken := (scheduleWake_quiet (c.sending now event).1 now (c.planned now event).early
    (c.received now event).timers).attempts
  unfold attempts at hreminded hwoken ⊢
  rw [handle_mam_out attempt_mam, hreminded, hwoken, List.nil_append, List.append_nil]

/-- What the stages after the event's handling do not ask for comes from it. -/
theorem handle_dispatched {a : Action} (ha : a ∈ (c.handle now event).2)
    (hp : a.part ∉ [Part.registry, .mam, .portForwarding, .qbittorrent, .history, .notifications]) :
    a ∈ ((c.note event).dispatch now event).2 := by
  have hno {part : Part} {out : List Action} (he : Emits part out)
      (hin : part ∈ [Part.registry, .mam, .portForwarding, .qbittorrent, .history,
        .notifications]) : a ∉ out :=
    fun h => hp ((he a h).symm ▸ hin)
  rw [handle_out] at ha
  simp only [List.mem_append] at ha
  obtain ((ha | ha) | ((ha | ha) | ha) | ha) | ha := ha
  · exact ha
  · exact absurd ha (hno (observe_emits now _) (by decide))
  · exact absurd ha (hno (decideMam_emits c now event) (by decide))
  · exact absurd ha (hno (renewLease_emits _) (by decide))
  · exact absurd ha (hno (decideQbittorrent_emits now _) (by decide))
  · exact absurd ha (hno (trimHistory_emits _) (by decide))
  · exact absurd ha (hno (notify_emits now _ _ _) (by decide))

theorem handle_settings {a : Action} (ha : a ∈ (c.handle now event).2) (hp : a.part = .settings) :
    a ∈ ((c.note event).dispatch now event).2 :=
  handle_dispatched c now event ha (by rw [hp]; decide)

theorem handle_dispatched_out {α : Type} {f : Action → Option α}
    (hf : ∀ a, a.part ∈ [Part.registry, .mam, .portForwarding, .qbittorrent, .history,
      .notifications] → f a = none) :
    (c.handle now event).2.filterMap f = ((c.note event).dispatch now event).2.filterMap f := by
  have hn {part : Part} {out : List Action} (h : Emits part out)
      (hp : part ∈ [Part.registry, .mam, .portForwarding, .qbittorrent, .history, .notifications]) :
      out.filterMap f = [] :=
    List.filterMap_eq_nil_iff.mpr fun a ha => hf a (h a ha ▸ hp)
  rw [handle_out]
  simp only [List.filterMap_append, hn (observe_emits now _) (by decide),
    hn (decideMam_emits c now event) (by decide),
    hn (renewLease_emits _) (by decide), hn (decideQbittorrent_emits now _) (by decide),
    hn (trimHistory_emits _) (by decide), hn (notify_emits now _ _ _) (by decide), List.append_nil]

/-- What qBittorrent is asked comes from the event's handling or from its own
decision. -/
theorem handle_qbittorrent {a : Action} (ha : a ∈ (c.handle now event).2) (hp : a.part = .qbittorrent) :
    a ∈ ((c.note event).dispatch now event).2 ∨
      a ∈ (((c.received now event).decideMam now).1.renewLease.1.decideQbittorrent now).2 := by
  have hno {part : Part} {out : List Action} (he : Emits part out) (hne : part ≠ .qbittorrent) :
      a ∉ out :=
    fun h => hne ((he a h).symm.trans hp)
  rw [handle_out] at ha
  simp only [List.mem_append] at ha
  obtain ((ha | ha) | ((ha | ha) | ha) | ha) | ha := ha
  · exact .inl ha
  · exact absurd ha (hno (observe_emits now _) (by decide))
  · exact absurd ha (hno (decideMam_emits c now event) (by decide))
  · exact absurd ha (hno (renewLease_emits _) (by decide))
  · exact .inr ha
  · exact absurd ha (hno (trimHistory_emits _) (by decide))
  · exact absurd ha (hno (notify_emits now _ _ _) (by decide))

end

end Windlass
