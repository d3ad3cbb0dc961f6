import Windlass.CommandSound

/-!
# What answers change

An answer is accepted when its request belongs to the current connection, or
when it records a spend. For each part of MAM work, what an accepted answer makes
of it is a function of its own, and the rest of the step leaves that alone but
for the fields named.
-/

namespace Windlass

/-- Whether answers to this request count on any connection. -/
def MamRequest.recordsSpend : MamRequest → Bool
  | .buy _ | .fetchTorrent .. => true
  | _ => false

/-- An accepted answer, if the event is one. -/
abbrev Answer := Option (MamRequest × Except MamFailure MamReply)

/-- The request an event answers, with its result, if the answer is accepted. -/
def Mam.accepted (m : Mam) (event : Event) : Answer :=
  match event, m.outstanding with
  | .mam (.answered result _), some (.request request _ epoch) =>
    if epoch = m.epoch ∨ request.recordsSpend then some (request, result) else none
  | _, _ => none

/-- A step of a run of the core. -/
abbrev Handled := Reactive.Entry Core TimedEvent Action

def Handled.time (e : Handled) : Instant := e.input.occurredAt.monotonic

/-- The answer a step accepts. -/
def Handled.answer (e : Handled) : Answer := e.before.mam.accepted e.input.event

section
variable (now : ClockReading) (answer : Answer)

def Network.answered (n : Network) : Network :=
  match answer with
  | some (.lookUpIp, .ok (.ip observation)) => n.observe now.monotonic now.wall observation
  | some (.lookUpIp, .error failure) => n.failed now.monotonic failure
  | _ => n

def Seedbox.answered (s : Seedbox) : Seedbox :=
  match answer with
  | some (.registerSeedbox, .ok (.registered _ ip)) => s.confirmed ip now.wall
  | some (.registerSeedbox, .error failure) => s.failed failure now.wall
  | _ => s

def Account.answered (a : Account) : Account :=
  match answer with
  | some (.loadUserData _, .ok (.userData data)) => (a.read now.monotonic now.wall data).1
  | some (.loadUserData _, .error failure) => a.failed now.monotonic failure
  | some (.buy purchase, result) =>
    a.bought purchase now.monotonic now.wall (purchaseResult purchase result).2
  | _ => a

def Bookmarks.answered (b : Bookmarks) : Bookmarks :=
  match answer with
  | some (.listBookmarks _, .ok (.bookmarks page)) => (b.page now.monotonic now.wall page).1
  | some (.listBookmarks _, .error failure) => b.failed now.monotonic failure
  | _ => b

def lookupsAnswered (lookups : Std.ExtTreeMap MamTorrentId Lookup) : Std.ExtTreeMap MamTorrentId Lookup :=
  match answer with
  | some (.lookUpTorrent id, .ok (.torrent listing)) =>
    lookups.insert id { listing := listing, at' := now.monotonic }
  | _ => lookups

def lookupFailedAnswered (failed : Option Instant) : Option Instant :=
  match answer with
  | some (.lookUpTorrent _, .ok (.torrent _)) => none
  | some (.lookUpTorrent _, .error _) => some now.monotonic
  | _ => failed

def wedgesAnswered (history : Option WedgeHistory) : Option WedgeHistory :=
  match answer with
  | some (.wedgeHistory, .ok (.wedgeHistory spent)) =>
    some { wedged := Std.ExtTreeSet.ofList (spent.map (·.torrent)), at' := now.monotonic }
  | _ => history

def historyFailedAnswered (failed : Option Instant) : Option Instant :=
  match answer with
  | some (.wedgeHistory, .ok (.wedgeHistory _)) => none
  | some (.wedgeHistory, .error _) => some now.monotonic
  | _ => failed

end

/-- The parts of MAM work as an answer leaves them. -/
structure Mam.Answered (m : Mam) (now : ClockReading) (answer : Answer) (m' : Mam) : Prop where
  network : m'.network = m.network.answered now answer
  seedbox : m'.seedbox = m.seedbox.answered now answer
  account : m'.account = m.account.answered now answer
  bookmarks : m'.acquisition.bookmarks = m.acquisition.bookmarks.answered now answer
  lookups : m'.acquisition.lookups = lookupsAnswered now answer m.acquisition.lookups
  lookupFailed : m'.acquisition.lookupFailed = lookupFailedAnswered now answer m.acquisition.lookupFailed
  history : m'.acquisition.history = wedgesAnswered now answer m.acquisition.history
  historyFailed : m'.acquisition.historyFailed =
    historyFailedAnswered now answer m.acquisition.historyFailed
  wedgeAttempts : m'.acquisition.wedgeAttempts = m.acquisition.wedgeAttempts
  lastAdmission : m'.acquisition.lastAdmission = m.acquisition.lastAdmission

/-! ## Handling a MAM event -/

section
variable (m : Mam) (now : ClockReading) (registry : Registry)

theorem answered_same : m.Answered now none m :=
  ⟨rfl, rfl, rfl, rfl, rfl, rfl, rfl, rfl, rfl, rfl⟩

theorem followDownloads_answered {answer : Answer} {m' : Mam} (h : m.Answered now answer m') :
    m.Answered now answer (m'.followDownloads now registry).1 := by
  rw [followDownloads_frame]
  exact ⟨h.network, h.seedbox, h.account, h.bookmarks, h.lookups, h.lookupFailed, h.history,
    h.historyFailed,
    h.wedgeAttempts, h.lastAdmission⟩

theorem ipAnswered_answered (result : Except MamFailure MamReply) :
    m.Answered now (some (.lookUpIp, result)) (m.ipAnswered now result) := by
  unfold Mam.ipAnswered
  split
  · exact ⟨rfl, rfl, rfl, rfl, rfl, rfl, rfl, rfl, rfl, rfl⟩
  · exact ⟨rfl, rfl, rfl, rfl, rfl, rfl, rfl, rfl, rfl, rfl⟩
  · next ho he =>
    refine ⟨?_, rfl, rfl, rfl, rfl, rfl, rfl, rfl, rfl, rfl⟩
    unfold Network.answered
    split
    · next hr => cases hr; exact absurd rfl (ho _)
    · next hr => cases hr; exact absurd rfl (he _)
    · rfl

theorem registrationAnswered_answered (result : Except MamFailure MamReply) :
    m.Answered now (some (.registerSeedbox, result)) (m.registrationAnswered now result) := by
  unfold Mam.registrationAnswered
  split
  · exact ⟨rfl, rfl, rfl, rfl, rfl, rfl, rfl, rfl, rfl, rfl⟩
  · exact ⟨rfl, rfl, rfl, rfl, rfl, rfl, rfl, rfl, rfl, rfl⟩
  · next ho he =>
    refine ⟨rfl, ?_, rfl, rfl, rfl, rfl, rfl, rfl, rfl, rfl⟩
    unfold Seedbox.answered
    split
    · next hr => cases hr; exact absurd rfl (ho _ _)
    · next hr => cases hr; exact absurd rfl (he _)
    · rfl

theorem userDataAnswered_answered (clients : ClientListing) (result : Except MamFailure MamReply) :
    m.Answered now (some (.loadUserData clients, result)) (m.userDataAnswered now result registry).1 := by
  unfold Mam.userDataAnswered
  split
  · exact followDownloads_answered m now registry ⟨rfl, rfl, rfl, rfl, rfl, rfl, rfl, rfl, rfl, rfl⟩
  · exact ⟨rfl, rfl, rfl, rfl, rfl, rfl, rfl, rfl, rfl, rfl⟩
  · next ho he =>
    refine ⟨rfl, rfl, ?_, rfl, rfl, rfl, rfl, rfl, rfl, rfl⟩
    unfold Account.answered
    split
    · next hr => cases hr; exact absurd rfl (ho _)
    · next hr => cases hr; exact absurd rfl (he _)
    · next hr => cases hr
    · rfl

theorem historyAnswered_answered (result : Except MamFailure MamReply) :
    m.Answered now (some (.wedgeHistory, result)) (m.historyAnswered now result registry).1 := by
  unfold Mam.historyAnswered
  split
  · exact followDownloads_answered m now registry ⟨rfl, rfl, rfl, rfl, rfl, rfl, rfl, rfl, rfl, rfl⟩
  · exact ⟨rfl, rfl, rfl, rfl, rfl, rfl, rfl, rfl, rfl, rfl⟩
  · next ho he =>
    refine ⟨rfl, rfl, rfl, rfl, rfl, rfl, ?_, ?_, rfl, rfl⟩
    · unfold wedgesAnswered
      split
      · next hr => cases hr; exact absurd rfl (ho _)
      · rfl
    · unfold historyFailedAnswered
      split
      · next hr => cases hr; exact absurd rfl (ho _)
      · next hr => cases hr; exact absurd rfl (he _)
      · rfl

theorem torrentAnswered_answered (id : MamTorrentId) (result : Except MamFailure MamReply) :
    m.Answered now (some (.lookUpTorrent id, result)) (m.torrentAnswered now id result registry).1 := by
  unfold Mam.torrentAnswered
  split
  · exact followDownloads_answered m now _ ⟨rfl, rfl, rfl, rfl, rfl, rfl, rfl, rfl, rfl, rfl⟩
  · exact ⟨rfl, rfl, rfl, rfl, rfl, rfl, rfl, rfl, rfl, rfl⟩
  · next ho he =>
    refine ⟨rfl, rfl, rfl, rfl, ?_, ?_, rfl, rfl, rfl, rfl⟩
    · unfold lookupsAnswered
      split
      · next hr => cases hr; exact absurd rfl (ho _)
      · rfl
    · unfold lookupFailedAnswered
      split
      · next hr => cases hr; exact absurd rfl (ho _)
      · next hr => cases hr; exact absurd rfl (he _)
      · rfl

theorem bookmarksAnswered_answered (start : BookmarkCount) (result : Except MamFailure MamReply) :
    m.Answered now (some (.listBookmarks start, result)) (m.bookmarksAnswered now result registry).1 := by
  unfold Mam.bookmarksAnswered
  split
  · rw [listed_frame]
    exact ⟨rfl, rfl, rfl, rfl, rfl, rfl, rfl, rfl, rfl, rfl⟩
  · exact ⟨rfl, rfl, rfl, rfl, rfl, rfl, rfl, rfl, rfl, rfl⟩
  · next ho he =>
    refine ⟨rfl, rfl, rfl, ?_, rfl, rfl, rfl, rfl, rfl, rfl⟩
    unfold Bookmarks.answered
    split
    · next hr => cases hr; exact absurd rfl (ho _)
    · next hr => cases hr; exact absurd rfl (he _)
    · rfl

theorem applyAnswer_answered (request : MamRequest) (result : Except MamFailure MamReply)
    (current : Bool) :
    m.Answered now (if current ∨ request.recordsSpend then some (request, result) else none)
      (m.applyAnswer now request result current registry).1 := by
  cases request with
  | buy purchase =>
    simp only [MamRequest.recordsSpend, or_true, if_true]
    exact ⟨rfl, rfl, rfl, rfl, rfl, rfl, rfl, rfl, rfl, rfl⟩
  | fetchTorrent id wedge =>
    simp only [MamRequest.recordsSpend, or_true, if_true, Mam.applyAnswer]
    rw [fetched_frame]
    exact ⟨rfl, rfl, rfl, rfl, rfl, rfl, rfl, rfl, rfl, rfl⟩
  | lookUpIp =>
    cases current
    · exact answered_same m now
    · exact ipAnswered_answered m now result
  | registerSeedbox =>
    cases current
    · exact answered_same m now
    · exact registrationAnswered_answered m now result
  | loadUserData clients =>
    cases current
    · exact answered_same m now
    · exact userDataAnswered_answered m now registry clients result
  | wedgeHistory =>
    cases current
    · exact answered_same m now
    · exact historyAnswered_answered m now registry result
  | lookUpTorrent id =>
    cases current
    · exact answered_same m now
    · exact torrentAnswered_answered m now registry id result
  | listBookmarks start =>
    cases current
    · exact answered_same m now
    · exact bookmarksAnswered_answered m now registry start result

theorem accepted_answered {result : Except MamFailure MamReply} {rotated : Option ApiCookie}
    {request : MamRequest}
    {sent : Instant} {epoch : ConnectionEpoch} (h : m.outstanding = some (.request request sent epoch)) :
    m.accepted (.mam (.answered result rotated)) =
      if epoch = m.epoch ∨ request.recordsSpend then some (request, result) else none := by
  simp only [Mam.accepted, h]

theorem requestAnswered_answered (result : Except MamFailure MamReply) (rotated : Option ApiCookie) :
    m.Answered now (m.accepted (.mam (.answered result rotated)))
      (m.requestAnswered now result rotated registry).1 := by
  unfold Mam.requestAnswered
  split
  · next request sent epoch ho =>
    rw [accepted_answered m ho]
    dsimp only
    unfold Mam.answered
    have h := applyAnswer_answered
      (if (epoch == m.epoch) && request.needsCookie then
        Mam.followSession { m with outstanding := none } now request
        result else { m with outstanding := none })
      now registry request result (epoch == m.epoch)
    have hf : (if (epoch == m.epoch) && request.needsCookie then
        Mam.followSession { m with outstanding := none } now request
        result else { m with outstanding := none }) =
        { m with
          outstanding := none
          session := (if (epoch == m.epoch) && request.needsCookie then
            Mam.followSession { m with outstanding := none } now request result
            else { m with outstanding := none }).session } := by
      split
      · exact followSession_frame _ now request result
      · rfl
    simp only [beq_iff_eq] at h
    rw [hf] at h ⊢
    exact ⟨h.network, h.seedbox, h.account, h.bookmarks, h.lookups, h.lookupFailed, h.history,
      h.historyFailed,
      h.wedgeAttempts, h.lastAdmission⟩
  · next ho =>
    have hn : m.accepted (.mam (.answered result rotated)) = none := by
      unfold Mam.accepted
      split
      · next hr hm =>
        exact absurd hm (ho _ _ _)
      · rfl
    rw [hn]
    exact answered_same m now

end

/-! ## Handling any event -/

section
variable (c : Core) (now : ClockReading) (event : Event)

/-- The event moves the tunnel to another server. -/
def Core.switches : Prop :=
  match event with
  | .tunnel event => event = .switched ∧ (c.tunnel.handle now event c.timers).1.current ≠ c.tunnel.current
  | _ => False

/-- The parts of MAM work once the event is handled. -/
structure Core.Receives (m : Mam) : Prop where
  network : m.network = c.mam.network.answered now (c.mam.accepted event) ∨
    event = .mam .enable ∧ m.network = c.mam.network.sent now.monotonic ∨
    c.switches now event ∧ m.network = c.mam.network.unconfirm
  notBefore : m.seedbox.notBefore = (c.mam.seedbox.answered now (c.mam.accepted event)).notBefore
  account : m.account = c.mam.account.answered now (c.mam.accepted event) ∨
    ∃ sale, event = .mam (.purchaseChecked sale) ∧ m.account = (c.mam.account.checked sale).1
  bookmarks : m.acquisition.bookmarks = c.mam.acquisition.bookmarks.answered now (c.mam.accepted event)
  lookups : m.acquisition.lookups = lookupsAnswered now (c.mam.accepted event) c.mam.acquisition.lookups
  lookupFailed : m.acquisition.lookupFailed =
    lookupFailedAnswered now (c.mam.accepted event) c.mam.acquisition.lookupFailed
  history : m.acquisition.history = wedgesAnswered now (c.mam.accepted event) c.mam.acquisition.history
  historyFailed : m.acquisition.historyFailed =
    historyFailedAnswered now (c.mam.accepted event) c.mam.acquisition.historyFailed
  wedgeAttempts : m.acquisition.wedgeAttempts = c.mam.acquisition.wedgeAttempts
  lastAdmission : m.acquisition.lastAdmission = c.mam.acquisition.lastAdmission

theorem accepted_none {m : Mam} (h : event.isAnswer = false) : m.accepted event = none := by
  unfold Mam.accepted
  split
  · cases h
  · rfl

theorem Mam.Answered.receives {m : Mam} (h : c.mam.Answered now (c.mam.accepted event) m) :
    c.Receives now event m :=
  ⟨.inl h.network, congrArg _ h.seedbox, .inl h.account, h.bookmarks, h.lookups, h.lookupFailed,
    h.history,
    h.historyFailed, h.wedgeAttempts, h.lastAdmission⟩

theorem mam_handle_receives (e : MamEvent) :
    c.Receives now (.mam e) (c.mam.handle now e c.registry).1 := by
  cases e with
  | answered result rotated =>
    exact (requestAnswered_answered c.mam now c.registry result rotated).receives
  | enable => exact ⟨.inr (.inl ⟨rfl, rfl⟩), rfl, .inl rfl, rfl, rfl, rfl, rfl, rfl, rfl, rfl⟩
  | purchaseChecked sale =>
    exact ⟨.inl rfl, rfl, .inr ⟨sale, rfl, rfl⟩, rfl, rfl, rfl, rfl, rfl, rfl, rfl⟩
  | ratioUseChecked =>
    simp only [Mam.handle]
    rw [ratioUseChecked_frame]
    exact ⟨.inl rfl, rfl, .inl rfl, rfl, rfl, rfl, rfl, rfl, rfl, rfl⟩
  | registrationAttemptSaved =>
    simp only [Mam.handle, Mam.registrationAttemptSaved]
    split
    · split <;> exact ⟨.inl rfl, rfl, .inl rfl, rfl, rfl, rfl, rfl, rfl, rfl, rfl⟩
    · exact ⟨.inl rfl, rfl, .inl rfl, rfl, rfl, rfl, rfl, rfl, rfl, rfl⟩
  | registrationAttemptSaveFailed =>
    simp only [Mam.handle, Mam.registrationAttemptSaveFailed]
    split <;> exact ⟨.inl rfl, rfl, .inl rfl, rfl, rfl, rfl, rfl, rfl, rfl, rfl⟩
  | _ => exact ⟨.inl rfl, rfl, .inl rfl, rfl, rfl, rfl, rfl, rfl, rfl, rfl⟩

theorem received_receives : c.Receives now event (c.received now event).mam := by
  rw [received_mam]
  have hsame (h : event.isAnswer = false) : c.Receives now event c.mam := by
    have hn := accepted_none event (m := c.mam) h
    exact Mam.Answered.receives c now event (hn ▸ answered_same c.mam now)
  cases event with
  | mam e =>
    rw [dispatch_mam_eq]
    exact mam_handle_receives c now e
  | startup e =>
    obtain ⟨hm, -⟩ | ⟨-, -, hm, -⟩ := handleStartup_eq (c.note (.startup e)) e
    · have hm' : ((c.note (.startup e)).dispatch now (.startup e)).1.mam = c.mam := hm
      rw [hm']
      exact hsame rfl
    · have hm' : ((c.note (.startup e)).dispatch now (.startup e)).1.mam = c.mam.startReading.1 := hm
      rw [hm']
      exact ⟨.inl rfl, rfl, .inl rfl, rfl, rfl, rfl, rfl, rfl, rfl, rfl⟩
  | timerExpired name id =>
    cases name with
    | mam =>
      simp only [Core.dispatch, Core.timerExpired, Mam.timerExpired]
      split <;> exact ⟨.inl rfl, rfl, .inl rfl, rfl, rfl, rfl, rfl, rfl, rfl, rfl⟩
    | _ => exact hsame rfl
  | tunnel e =>
    simp only [Core.dispatch, Core.handleTunnel]
    split
    · next h => exact ⟨.inr (.inr ⟨h, rfl⟩), rfl, .inl rfl, rfl, rfl, rfl, rfl, rfl, rfl, rfl⟩
    · exact hsame rfl
  | _ => exact hsame rfl

end

/-! ## The rest of the step -/

section
variable (c : Core) (now : ClockReading) (event : Event)

/-- Requests stop being allowed in this step. -/
def Core.closesGate : Prop :=
  c.mam.gate = .open' ∧ (c.received now event).mam.gateFor (c.received now event).context = .closed

/-- The latest reading says MAM cannot reach qBittorrent, and a repair starts. -/
def Core.repairs : Bool :=
  ((c.received now event).mam.connectability.follow
    ((c.received now event).mam.account.reading.map fun reading =>
    (reading.taken, (c.received now event).mam.unreachable
      (c.received now event).context.clientVersion))).2

/-- MAM work once the gate, the cookie, the connection and the downloads are
followed. -/
def Core.surveyed : Mam :=
  (((c.received now event).mam.connect now (c.received now event).context).survey now
    (c.received now event).context).1

theorem prepared_eq :
    c.prepared now event = (c.surveyed now event).noteHold (c.planned now event).next := rfl

theorem prepared_acquisition : (c.prepared now event).acquisition =
    { (c.surveyed now event).acquisition with hold := (c.prepared now event).acquisition.hold } := rfl

theorem unconfirm_idem (n : Network) : n.unconfirm.unconfirm = n.unconfirm := by
  unfold Network.unconfirm
  cases n.observed <;> rfl

/-- Following the gate, in terms of the state before the reminder. -/
theorem remind_followGate (m : Mam) (context : Context) :
    (m.gate = .open' ∧ m.gateFor context = .closed ∧
      (m.remind now).1.followGate context = { (m.remind now).1.disconnect with gate := .closed }) ∨
    (¬ (m.gate = .open' ∧ m.gateFor context = .closed) ∧
      (m.remind now).1.followGate context = { (m.remind now).1 with gate := m.gateFor context }) := by
  have hg : (m.remind now).1.gate = m.gate := by rw [remind_frame]
  have hf : (m.remind now).1.gateFor context = m.gateFor context := by rw [remind_frame]; rfl
  obtain ⟨ho, hc, h⟩ | ⟨hn, h⟩ := followGate_cases (m.remind now).1 context
  · exact .inl ⟨hg ▸ ho, hf ▸ hc, h⟩
  · rw [hf] at h hn
    refine .inr ⟨fun hboth => ?_, h⟩
    have ho := hn (hg.trans hboth.1)
    rw [hboth.2] at ho
    cases ho

theorem connect_network (m : Mam) (context : Context) :
    (m.gate = .open' ∧ m.gateFor context = .closed) ∧
    (m.connect now context).network = m.network.unconfirm ∨
    ¬ (m.gate = .open' ∧ m.gateFor context = .closed) ∧ (m.connect now context).network = m.network := by
  unfold Mam.connect
  rw [followCookie_frame]
  obtain ⟨ho, hc, h⟩ | ⟨hn, h⟩ := remind_followGate now m context
  · left
    refine ⟨⟨ho, hc⟩, ?_⟩
    rw [h, remind_frame]
    rfl
  · right
    refine ⟨hn, ?_⟩
    rw [h, remind_frame]

/-- Following the gate and the cookie changes the seedbox's standing alone. -/
theorem connect_seedbox (m : Mam) (context : Context) :
    (m.connect now context).seedbox.lastAttempt = m.seedbox.lastAttempt ∧
      (m.connect now context).seedbox.notBefore = m.seedbox.notBefore := by
  have hg : ((m.remind now).1.followGate context).seedbox.lastAttempt = m.seedbox.lastAttempt ∧
      ((m.remind now).1.followGate context).seedbox.notBefore = m.seedbox.notBefore := by
    obtain ⟨-, -, h⟩ | ⟨-, h⟩ := remind_followGate now m context
    · rw [h, remind_frame]
      exact ⟨rfl, rfl⟩
    · rw [h, remind_frame]
      exact ⟨rfl, rfl⟩
  unfold Mam.connect
  obtain ⟨-, -, h⟩ | ⟨-, -, -, h⟩ | ⟨-, -, h⟩ :=
    followCookie_cases ((m.remind now).1.followGate context) context
  · rw [h]
    exact hg
  · rw [h]
    exact hg
  · rw [h]
    exact hg

theorem surveyed_seedbox :
    (c.surveyed now event).seedbox.lastAttempt = (c.received now event).mam.seedbox.lastAttempt ∧
      (c.surveyed now event).seedbox.notBefore = (c.received now event).mam.seedbox.notBefore := by
  have h := connect_seedbox now (c.received now event).mam (c.received now event).context
  obtain ⟨-, hs⟩ | ⟨-, hs⟩ := survey_unconfirms
    ((c.received now event).mam.connect now (c.received now event).context) now
    (c.received now event).context
  · rw [Core.surveyed, hs]
    exact h
  · rw [Core.surveyed, hs]
    exact h

theorem surveyed_seedbox_notBefore :
    (c.surveyed now event).seedbox.notBefore = (c.received now event).mam.seedbox.notBefore :=
  (surveyed_seedbox c now event).2

/-- The IP is unconfirmed only when the gate closes or a repair starts. -/
theorem surveyed_network :
    (c.surveyed now event).network = (c.received now event).mam.network ∧ ¬ c.closesGate now event ∧
        c.repairs now event = false ∨
      (c.surveyed now event).network = (c.received now event).mam.network.unconfirm ∧
        (c.closesGate now event ∨ c.repairs now event) := by
  have hgate : (c.received now event).mam.gate = c.mam.gate := (received_mam_frame c now event).1
  have hrep : (c.surveyed now event).network =
      if c.repairs now event then
        ((c.received now event).mam.connect now (c.received now event).context).network.unconfirm
      else ((c.received now event).mam.connect now (c.received now event).context).network := by
    unfold Core.surveyed Core.repairs
    simp only [Mam.survey]
    rw [watchDownloads_frame, connect_frame]
    unfold Mam.followConnectability Mam.unreachable
    dsimp only
    split <;> rfl
  obtain ⟨hc, hn⟩ | ⟨hc, hn⟩ :=
    connect_network now (c.received now event).mam (c.received now event).context
  · right
    refine ⟨?_, .inl (by rw [Core.closesGate, ← hgate]; exact hc)⟩
    rw [hrep, hn, unconfirm_idem, ite_self]
  · rw [hgate] at hc
    cases hr : c.repairs now event with
    | true =>
      right
      refine ⟨?_, .inr rfl⟩
      rw [hrep, hr, hn, if_pos rfl]
    | false =>
      left
      refine ⟨?_, hc, rfl⟩
      rw [hrep, hr, hn]
      rfl

/-- What deciding leaves of the books of acquisition and of the account. -/
theorem surveyed_acquisition : (c.surveyed now event).acquisition =
    { (c.received now event).mam.acquisition with
      refused := (c.surveyed now event).acquisition.refused
      newlyFetched := (c.surveyed now event).acquisition.newlyFetched
      reapproved := (c.surveyed now event).acquisition.reapproved
      watched := (c.surveyed now event).acquisition.watched } := by
  have ha : ((c.received now event).mam.connect now (c.received now event).context).acquisition =
      { (c.received now event).mam.acquisition with
        refused := ((c.received now event).mam.connect now
          (c.received now event).context).acquisition.refused
        newlyFetched :=
          ((c.received now event).mam.connect now (c.received now event).context).acquisition.newlyFetched
        reapproved :=
          ((c.received now event).mam.connect now
            (c.received now event).context).acquisition.reapproved } := by
    rw [connect_frame]
  unfold Core.surveyed
  rw [survey_frame]
  dsimp only
  rw [ha]

theorem surveyed_account : (c.surveyed now event).account =
    (c.received now event).mam.account.setPace (c.surveyed now event).account.pace := by
  have ha : ((c.received now event).mam.connect now (c.received now event).context).account =
      (c.received now event).mam.account := by rw [connect_frame]
  unfold Core.surveyed
  rw [survey_frame, ha]
  rfl

theorem handle_acquisition : (c.handle now event).1.mam.acquisition =
    { (c.received now event).mam.acquisition with
      refused := (c.handle now event).1.mam.acquisition.refused
      newlyFetched := (c.handle now event).1.mam.acquisition.newlyFetched
      reapproved := (c.handle now event).1.mam.acquisition.reapproved
      watched := (c.handle now event).1.mam.acquisition.watched
      hold := (c.handle now event).1.mam.acquisition.hold
      fetching := (c.handle now event).1.mam.acquisition.fetching
      wedgeAttempts := (c.handle now event).1.mam.acquisition.wedgeAttempts
      lastAdmission := (c.handle now event).1.mam.acquisition.lastAdmission } := by
  obtain ⟨wake, h⟩ := handle_mam c now event
  rw [h, Core.sending, send_frame, prepared_eq]
  unfold Mam.noteHold
  dsimp only
  rw [surveyed_acquisition]

theorem handle_account : (c.handle now event).1.mam.account =
    { (c.received now event).mam.account with
      pace := (c.handle now event).1.mam.account.pace
      lastRequest := (c.handle now event).1.mam.account.lastRequest
      lastPurchase := (c.handle now event).1.mam.account.lastPurchase } := by
  obtain ⟨wake, h⟩ := handle_mam c now event
  rw [h, Core.sending, send_frame, prepared_eq]
  unfold Mam.noteHold
  dsimp only
  rw [surveyed_account]
  rfl

theorem handle_network : (c.handle now event).1.mam.network =
    { (c.surveyed now event).network with lastSent := (c.handle now event).1.mam.network.lastSent } := by
  obtain ⟨wake, h⟩ := handle_mam c now event
  rw [h, Core.sending, send_frame, prepared_eq]
  rfl

theorem handle_notBefore :
    (c.handle now event).1.mam.seedbox.notBefore = (c.received now event).mam.seedbox.notBefore := by
  obtain ⟨wake, h⟩ := handle_mam c now event
  rw [h, Core.sending, send_frame, prepared_eq, ← surveyed_seedbox_notBefore]
  rfl

end

end Windlass
