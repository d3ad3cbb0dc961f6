import Windlass.Stages

/-!
# Requests go out only through an open gate

Requests are sent in two places: by the decision of a step, and when a
registration attempt that was decided on earlier has been saved. The second is
guarded by the connection's epoch alone; the invariant `GateInv` says that an
attempt of the current epoch is waiting only while the gate is open.
-/

namespace Windlass

section
variable (c : Core) (now : ClockReading) (event : Event)

/-! ## What a step does to the gate and the epoch -/

theorem Mam.Nudged.frame {m m' : Mam} (h : m.Nudged m') : m' =
    { m with
      network := m'.network
      confirmedDownloadIp := m'.confirmedDownloadIp
      seedbox := m'.seedbox
      lastReminder := m'.lastReminder
      ratioGuard := m'.ratioGuard
      wake := m'.wake } := by
  cases h with
  | same => rfl
  | switched => rfl
  | reading => rfl
  | woken id =>
    unfold Mam.timerExpired
    split <;> rfl

theorem received_mam_frame : (c.received now event).mam.gate = c.mam.gate ∧
    (c.received now event).mam.epoch = c.mam.epoch ∧
    (c.received now event).mam.cookieInUse = c.mam.cookieInUse := by
  rw [received_mam]
  by_cases h : ∃ e, event = .mam e
  · obtain ⟨e, rfl⟩ := h
    rw [dispatch_mam_eq, mam_handle_frame]
    exact ⟨rfl, rfl, rfl⟩
  · rw [(dispatch_nudged (c.note event) now fun e he => h ⟨e, he⟩).frame]
    exact ⟨rfl, rfl, rfl⟩

theorem recordSent_frame (m : Mam) (request : MamRequest) (registry : Registry) :
    m.recordSent now request registry =
      { m with
        network := { m.network with lastSent := (m.recordSent now request registry).network.lastSent }
        account :=
          { m.account with
            lastRequest := (m.recordSent now request registry).account.lastRequest
            lastPurchase := (m.recordSent now request registry).account.lastPurchase }
        acquisition :=
          { m.acquisition with
            fetching := (m.recordSent now request registry).acquisition.fetching
            wedgeAttempts := (m.recordSent now request registry).acquisition.wedgeAttempts
            lastAdmission := (m.recordSent now request registry).acquisition.lastAdmission } } := by
  cases request <;> rfl

theorem send_frame (m : Mam) (context : Context) (plan : Plan) : (m.send now context plan).1 =
    { m with
      network := { m.network with lastSent := (m.send now context plan).1.network.lastSent }
      account :=
        { m.account with
          lastRequest := (m.send now context plan).1.account.lastRequest
          lastPurchase := (m.send now context plan).1.account.lastPurchase }
      acquisition :=
        { m.acquisition with
          fetching := (m.send now context plan).1.acquisition.fetching
          wedgeAttempts := (m.send now context plan).1.acquisition.wedgeAttempts
          lastAdmission := (m.send now context plan).1.acquisition.lastAdmission }
      budget := (m.send now context plan).1.budget
      outstanding := (m.send now context plan).1.outstanding } := by
  obtain h | ⟨_, _, ⟨cookie, budget, _, _, h⟩ | ⟨request, budget, _, h⟩⟩ := send_cases m now context plan
  · rw [h]
  · rw [h]
  · rw [h, recordSent_frame]

theorem handle_outstanding :
    (c.handle now event).1.mam.outstanding = (c.sending now event).1.outstanding := by
  obtain ⟨wake, h⟩ := handle_mam c now event
  rw [h]

theorem handle_gate : (c.handle now event).1.mam.gate =
    (c.received now event).mam.gateFor (c.received now event).context := by
  obtain ⟨wake, h⟩ := handle_mam c now event
  rw [h, Core.sending, send_frame]
  exact prepare_gate _ now _

theorem handle_hosts : (c.handle now event).1.mam.hosts = (c.received now event).mam.hosts := by
  obtain ⟨wake, h⟩ := handle_mam c now event
  rw [h, Core.sending, send_frame]
  exact prepare_hosts _ now _

theorem handle_epoch : (c.handle now event).1.mam.epoch = (c.prepared now event).epoch := by
  obtain ⟨wake, h⟩ := handle_mam c now event
  rw [h, Core.sending, send_frame]

theorem prepared_outstanding :
    (c.prepared now event).outstanding = (c.received now event).mam.outstanding :=
  prepare_outstanding _ now _

theorem prepared_gate : (c.prepared now event).gate = (c.handle now event).1.mam.gate := by
  rw [handle_gate]
  exact prepare_gate _ now _

theorem epoch_step : c.mam.epoch ≤ (c.handle now event).1.mam.epoch ∧
    (c.mam.gate = .open' → (c.handle now event).1.mam.gate = .closed →
      c.mam.epoch < (c.handle now event).1.mam.epoch) := by
  obtain ⟨hg, he, -⟩ := received_mam_frame c now event
  have h := connect_epoch (c.received now event).mam now (c.received now event).context
  rw [handle_epoch, handle_gate, Core.prepared, prepare_epoch]
  rwa [hg, he] at h

theorem epoch_step_le : (c.handle now event).1.mam.epoch ≤ c.mam.epoch + 2 := by
  obtain ⟨-, he, -⟩ := received_mam_frame c now event
  have h := connect_epoch_le (c.received now event).mam now (c.received now event).context
  rw [handle_epoch, Core.prepared, prepare_epoch]
  rwa [he] at h

/-! ## The outstanding slot -/

def Mam.slotAfter (m : Mam) (now : ClockReading) (event : Event) : Option Outstanding :=
  match event, m.outstanding with
  | .mam .registrationAttemptSaved, some (.savingRegistration _ _ epoch) =>
    if epoch ≠ m.epoch then none else some (.request .registerSeedbox now.monotonic epoch)
  | .mam .registrationAttemptSaveFailed, some (.savingRegistration ..) => none
  | .mam (.answered ..), some (.request ..) => none
  | _, slot => slot

theorem mam_handle_slot (m : Mam) (registry : Registry) (e : MamEvent) :
    (m.handle now e registry).1.outstanding = m.slotAfter now (.mam e) := by
  cases e with
  | registrationAttemptSaved =>
    simp only [Mam.handle, Mam.registrationAttemptSaved, Mam.slotAfter]
    rcases hm : m.outstanding with _ | ⟨at', k, epoch⟩ | ⟨r, sent, epoch⟩
    · exact hm
    · dsimp only
      split <;> rfl
    · exact hm
  | registrationAttemptSaveFailed =>
    simp only [Mam.handle, Mam.registrationAttemptSaveFailed, Mam.slotAfter]
    rcases hm : m.outstanding with _ | ⟨at', k, epoch⟩ | ⟨r, sent, epoch⟩
    · exact hm
    · rfl
    · exact hm
  | answered result rotated =>
    simp only [Mam.handle, Mam.requestAnswered, Mam.slotAfter]
    rcases hm : m.outstanding with _ | ⟨at', k, epoch⟩ | ⟨r, sent, epoch⟩
    · exact hm
    · exact hm
    · dsimp only
      rw [answered_frame]
  | ratioUseChecked =>
    simp only [Mam.handle]
    rw [ratioUseChecked_frame]
    rfl
  | _ => rfl

theorem received_outstanding : (c.received now event).mam.outstanding = c.mam.slotAfter now event := by
  rw [received_mam]
  by_cases hm : ∃ e, event = .mam e
  · obtain ⟨e, rfl⟩ := hm
    rw [dispatch_mam_eq, mam_handle_slot]
    rfl
  · rw [(dispatch_nudged (c.note event) now fun e he => hm ⟨e, he⟩).frame]
    have hn : c.mam.slotAfter now event = c.mam.outstanding := by
      cases event with
      | mam e => exact absurd ⟨e, rfl⟩ hm
      | _ => rfl
    exact hn.symm

def Mam.sentAtOnce (m : Mam) (event : Event) : List (MamRequest × Option ApiCookie) :=
  match event, m.outstanding with
  | .mam .registrationAttemptSaved, some (.savingRegistration _ cookie epoch) =>
    if epoch ≠ m.epoch then [] else [(.registerSeedbox, some cookie)]
  | _, _ => []

theorem sentAtOnce_eq_nil {m : Mam} {event : Event} (h : event ≠ .mam .registrationAttemptSaved) :
    m.sentAtOnce event = [] := by
  unfold Mam.sentAtOnce
  split
  · exact absurd rfl h
  · rfl

theorem dispatch_saved :
    ((c.note (.mam .registrationAttemptSaved)).dispatch now (.mam .registrationAttemptSaved)).2 =
    (c.mam.sentAtOnce (.mam .registrationAttemptSaved)).map fun p => .mamRequest p.1 p.2 := by
  have hn : (c.note (.mam .registrationAttemptSaved)).mam = c.mam := rfl
  simp only [Core.dispatch, Core.handleMam, Mam.handle, Mam.registrationAttemptSaved, Mam.sentAtOnce, hn]
  rcases hm : c.mam.outstanding with _ | ⟨at', k, epoch⟩ | ⟨r, sent, epoch⟩
  · rfl
  · dsimp only
    split <;> rfl
  · rfl

theorem dispatch_requests : requests ((c.note event).dispatch now event).2 = c.mam.sentAtOnce event := by
  by_cases he : event = .mam .registrationAttemptSaved
  · subst he
    rw [dispatch_saved]
    simp [requests, List.filterMap_map, Function.comp_def, Action.request?]
  · rw [(dispatch_quiet (c.note event) now he).requests, sentAtOnce_eq_nil he]

theorem dispatch_attempts : attempts ((c.note event).dispatch now event).2 = [] := by
  by_cases he : event = .mam .registrationAttemptSaved
  · subst he
    rw [dispatch_saved]
    simp [attempts, List.filterMap_map, Function.comp_def, Action.attempt?]
  · exact (dispatch_quiet (c.note event) now he).attempts

theorem sentAtOnce_empty {m : Mam} (h : m.slotAfter now event = none) : m.sentAtOnce event = [] := by
  unfold Mam.sentAtOnce
  split
  · next hm =>
    simp only [Mam.slotAfter, hm] at h
    split at h
    · next hne => rw [if_pos hne]
    · cases h
  · rfl

/-- What the slot and the requests are after a step that found the slot taken
once the event was handled. -/
theorem slot_taken {slot : Outstanding} (h : c.mam.slotAfter now event = some slot) :
    (c.handle now event).1.mam.outstanding = some slot ∧
      requests (c.handle now event).2 = c.mam.sentAtOnce event ∧
      attempts (c.handle now event).2 = [] := by
  have hq : c.sending now event = (c.prepared now event, []) := by
    obtain hq | ⟨_, hn, _⟩ := send_cases (c.prepared now event) now (c.received now event).context
      (c.planned now event)
    · exact hq
    · rw [prepared_outstanding, received_outstanding, h] at hn
      cases hn
  refine ⟨?_, ?_, ?_⟩
  · rw [handle_outstanding, hq, prepared_outstanding, received_outstanding, h]
  · rw [handle_requests, hq, requests_nil, List.append_nil, dispatch_requests]
  · rw [handle_attempts, hq, attempts_nil, List.append_nil, dispatch_attempts]

theorem slot_empty (h : c.mam.slotAfter now event = none) :
    ((c.handle now event).1.mam.outstanding = none ∧ requests (c.handle now event).2 = [] ∧
      attempts (c.handle now event).2 = []) ∨
    (∃ cookie, (c.handle now event).1.mam.outstanding =
        some (.savingRegistration now.wall cookie (c.handle now event).1.mam.epoch) ∧
      (c.handle now event).1.mam.gate = .open' ∧ (c.planned now event).cookie = some cookie ∧
      requests (c.handle now event).2 = [] ∧ attempts (c.handle now event).2 = [now.wall]) ∨
    ∃ request, (c.handle now event).1.mam.outstanding =
        some (.request request now.monotonic (c.handle now event).1.mam.epoch) ∧
      (c.handle now event).1.mam.gate = .open' ∧
      (c.prepared now event).wanted now (c.received now event).context.reserve (c.planned now event) =
        some (.request request) ∧
      requests (c.handle now event).2 =
        [(request, (c.planned now event).cookie.filter fun _ => request.needsCookie)] ∧
      attempts (c.handle now event).2 = [] := by
  rw [handle_outstanding, handle_requests, handle_attempts, dispatch_attempts, dispatch_requests,
    sentAtOnce_empty now event h, handle_epoch, ← prepared_gate]
  obtain hq | ⟨hg, hn, ⟨k, budget, _, hk, hq⟩ | ⟨r, budget, hw, hq⟩⟩ :=
    send_cases (c.prepared now event) now (c.received now event).context (c.planned now event)
  · have hq' : c.sending now event = _ := hq
    rw [hq', prepared_outstanding, received_outstanding, h]
    exact .inl ⟨rfl, rfl, rfl⟩
  · have hq' : c.sending now event = _ := hq
    rw [hq']
    exact .inr (.inl ⟨k, rfl, hg, hk, rfl, rfl⟩)
  · have hq' : c.sending now event = _ := hq
    rw [hq']
    exact .inr (.inr ⟨r, rfl, hg, hw, rfl, rfl⟩)

/-! ## The gate invariant -/

/-- Requests to MAM may be sent: hosts are configured, requests are not paused,
and VPN protection is available. -/
def Core.RequestsAllowed (c : Core) : Prop :=
  c.mam.hosts = .configured ∧ c.state.mamRequests = .running ∧
    ∃ watch ip at', c.tunnel.watch = some watch ∧ watch.protection = .available ip at'

structure GateInv (c : Core) : Prop where
  gate : c.mam.gate = .open' ↔ c.RequestsAllowed
  saving : ∀ at' cookie epoch, c.mam.outstanding = some (.savingRegistration at' cookie epoch) →
    epoch ≤ c.mam.epoch ∧ (epoch = c.mam.epoch → c.mam.gate = .open')

theorem isProtected_iff (c : Core) : c.context.protection = .isProtected ↔
    ∃ watch ip at', c.tunnel.watch = some watch ∧ watch.protection = .available ip at' := by
  simp only [Core.context]
  cases c.tunnel.watch with
  | none => simp
  | some watch => cases hp : watch.protection <;> simp [hp, Protection.isAvailable]

theorem handle_gate_iff :
    (c.handle now event).1.mam.gate = .open' ↔ (c.handle now event).1.RequestsAllowed := by
  obtain ⟨hs, -, ht⟩ := handle_frame c now event
  rw [handle_gate, gateFor_open, isProtected_iff]
  unfold Core.RequestsAllowed
  rw [handle_hosts, hs, ht]
  rfl

theorem gateInv_init : GateInv Core.new where
  gate := by
    constructor
    · intro h; cases h
    · intro h; cases h.1
  saving := by intro at' cookie epoch h; cases h

theorem slotAfter_saving {m : Mam} {at' : SystemTime} {cookie : ApiCookie} {epoch : ConnectionEpoch}
    (h : m.slotAfter now event = some (.savingRegistration at' cookie epoch)) :
    m.outstanding = some (.savingRegistration at' cookie epoch) := by
  unfold Mam.slotAfter at h
  split at h
  · split at h <;> cases h
  · cases h
  · cases h
  · exact h

theorem gateInv_step (h : GateInv c) : GateInv (c.handle now event).1 where
  gate := handle_gate_iff c now event
  saving := by
    intro at' cookie epoch hs
    have hep := epoch_step c now event
    cases hslot : c.mam.slotAfter now event with
    | some slot =>
      rw [(slot_taken c now event hslot).1] at hs
      rw [Option.some.inj hs] at hslot
      obtain ⟨hle, hopen⟩ := h.saving at' cookie epoch (slotAfter_saving now event hslot)
      refine ⟨le_trans hle hep.1, fun he => ?_⟩
      have hc : epoch = c.mam.epoch := le_antisymm hle (he ▸ hep.1)
      cases hclosed : (c.handle now event).1.mam.gate with
      | open' => rfl
      | closed => exact absurd (hep.2 (hopen hc) hclosed) (by rw [← he, hc]; exact lt_irrefl _)
    | none =>
      obtain ⟨hn, -⟩ | ⟨k, hk, hg, -⟩ | ⟨r, hr, -⟩ := slot_empty c now event hslot
      · rw [hn] at hs
        cases hs
      · rw [hk] at hs
        obtain ⟨-, -, he⟩ := Outstanding.savingRegistration.inj (Option.some.inj hs)
        exact ⟨he ▸ le_rfl, fun _ => hg⟩
      · rw [hr] at hs
        cases hs

end

theorem gateInv_last (is : List TimedEvent) : GateInv (core.last is) :=
  Reactive.last_invariant core gateInv_init (fun c i h => gateInv_step c i.occurredAt i.event h) is

/-! ## Requests of one step -/

section
variable {c : Core} {now : ClockReading} {event : Event} {request : MamRequest}
  {cookie : Option ApiCookie}

theorem singleRequest_eq {listing : Option BookmarkCount} {next : Next}
    (h : singleRequest listing next = some request) : acquisitionRequest next = some request := by
  unfold singleRequest at h
  split at h
  · cases h
  · exact h

theorem wanted_cases {m : Mam} {reserve : Option Points} {plan : Plan}
    (h : m.wanted now reserve plan = some (.request request)) :
    request = .lookUpIp ∧ m.network.due now.monotonic ∨
    plan.cookie.isSome ∧ m.network.current.isSome ∧
      ((∃ clients, request = .loadUserData clients ∧
        m.account.wanted now.monotonic plan.early = some clients) ∨
        (∃ start, request = .listBookmarks start ∧
          m.acquisition.bookmarks.wanted now.monotonic = some start) ∨
        (∃ purchase points, request = .buy purchase ∧
          m.account.wantedPurchase now.monotonic now.wall points = some purchase) ∨
        acquisitionRequest plan.watching = some request ∨
        acquisitionRequest plan.next = some request) := by
  unfold Mam.wanted at h
  split at h
  · next hdue =>
    cases h
    exact .inl ⟨rfl, hdue⟩
  · split at h
    · cases h
    · next hc =>
      rw [Bool.or_eq_true, not_or, Option.isNone_iff_eq_none, Option.isNone_iff_eq_none, ← ne_eq, ← ne_eq,
        Option.ne_none_iff_isSome, Option.ne_none_iff_isSome] at hc
      refine .inr ⟨hc.1, hc.2, ?_⟩
      split at h
      · cases h
      · split at h
        · next clients hw =>
          cases h
          exact .inl ⟨clients, rfl, hw⟩
        · rw [Option.map_eq_some_iff] at h
          obtain ⟨r, hr, hrr⟩ := h
          cases hrr
          unfold Mam.wantedWork at hr
          dsimp only at hr
          split at hr
          · obtain ⟨start, hs, rfl⟩ := Option.map_eq_some_iff.mp hr
            exact .inr (.inl ⟨start, rfl, hs⟩)
          · simp only [Option.orElse_eq_some, Option.map_eq_some_iff] at hr
            obtain hr | ⟨-, ⟨purchase, hp, rfl⟩ | ⟨-, hr | ⟨-, start, hs, rfl⟩⟩⟩ := hr
            · exact .inr (.inr (.inr (.inl (singleRequest_eq hr))))
            · obtain ⟨points, -, hp⟩ := Option.bind_eq_some_iff.mp hp
              exact .inr (.inr (.inl ⟨purchase, points, rfl, hp⟩))
            · exact .inr (.inr (.inr (.inr (singleRequest_eq hr))))
            · exact .inr (.inl ⟨start, rfl, hs⟩)

/-- The decision of a step never sends a registration: it saves the attempt. -/
theorem wanted_ne_register {m : Mam} {reserve : Option Points} {plan : Plan}
    (h : m.wanted now reserve plan = some (.request request)) : request ≠ .registerSeedbox := by
  have hn (next : Next) : acquisitionRequest next ≠ some .registerSeedbox := by
    cases next <;> simp [acquisitionRequest]
  rintro rfl
  obtain ⟨h, -⟩ | ⟨-, -, ⟨_, h, -⟩ | ⟨_, h, -⟩ | ⟨_, _, h, -⟩ | h | h⟩ := wanted_cases h
  all_goals first | cases h | exact hn _ h

/-- A request is emitted by the decision of the step, or it is a registration
whose attempt, decided on this connection, has just been saved. -/
theorem request_cases (h : .mamRequest request cookie ∈ (c.handle now event).2) :
    (event = .mam .registrationAttemptSaved ∧ request = .registerSeedbox ∧ ∃ at' k,
      c.mam.outstanding = some (.savingRegistration at' k c.mam.epoch) ∧ cookie = some k) ∨
    ((c.handle now event).1.mam.gate = .open' ∧ c.mam.slotAfter now event = none ∧
      (c.prepared now event).wanted now (c.received now event).context.reserve (c.planned now event) =
        some (.request request) ∧
      cookie = (c.planned now event).cookie.filter fun _ => request.needsCookie) := by
  rw [← mem_requests, handle_requests, List.mem_append, dispatch_requests] at h
  obtain h | h := h
  · left
    unfold Mam.sentAtOnce at h
    split at h
    · next at' k epoch hm =>
      split at h
      · cases h
      · next heq =>
        rw [not_not] at heq
        obtain ⟨rfl, rfl⟩ := Prod.mk.inj (List.mem_singleton.mp h)
        exact ⟨rfl, rfl, at', k, heq ▸ hm, rfl⟩
    · cases h
  · right
    obtain hq | ⟨hg, hn, ⟨k, budget, hw, _, hq⟩ | ⟨r, budget, hw, hq⟩⟩ :=
      send_cases (c.prepared now event) now (c.received now event).context (c.planned now event)
    · have hq' : c.sending now event = _ := hq
      rw [hq'] at h
      cases h
    · have hq' : c.sending now event = _ := hq
      rw [hq', mem_requests] at h
      simp at h
    · have hq' : c.sending now event = _ := hq
      rw [hq', mem_requests] at h
      simp only [List.mem_singleton, Action.mamRequest.injEq] at h
      obtain ⟨rfl, rfl⟩ := h
      rw [prepared_outstanding, received_outstanding] at hn
      exact ⟨(prepared_gate c now event).symm.trans hg, hn, hw, rfl⟩

theorem request_allowed (hc : GateInv c) (h : .mamRequest request cookie ∈ (c.handle now event).2) :
    (c.handle now event).1.RequestsAllowed := by
  obtain ⟨rfl, -, at', k, hout, -⟩ | ⟨hg, -⟩ := request_cases h
  · have hallowed := hc.gate.mp ((hc.saving _ _ _ hout).2 rfl)
    obtain ⟨hs, -, ht⟩ := handle_frame c now (.mam .registrationAttemptSaved)
    unfold Core.RequestsAllowed
    rw [hs, ht, handle_hosts, received_mam, received_state, received_tunnel, dispatch_mam_eq]
    have hh : ((c.note (.mam .registrationAttemptSaved)).mam.handle now .registrationAttemptSaved
        (c.note (.mam .registrationAttemptSaved)).registry).1.hosts = c.mam.hosts := by
      simp only [Mam.handle, Mam.registrationAttemptSaved]
      split
      · split <;> rfl
      · rfl
    rw [hh]
    exact hallowed
  · exact (handle_gate_iff c now event).mp hg

end

/-! ## Runs -/

def Event.isAnswer : Event → Bool
  | .mam (.answered ..) => true
  | _ => false

def Event.isSaveResult : Event → Bool
  | .mam .registrationAttemptSaved | .mam .registrationAttemptSaveFailed => true
  | _ => false

def Core.SavingAttempt (c : Core) : Prop :=
  ∃ at' cookie epoch, c.mam.outstanding = some (.savingRegistration at' cookie epoch)

def Core.StaleAttempt (c : Core) : Prop :=
  ∃ at' cookie epoch, c.mam.outstanding = some (.savingRegistration at' cookie epoch) ∧
  epoch < c.mam.epoch

theorem slotAfter_of_not_result {m : Mam} {now : ClockReading} {event : Event} {at' : SystemTime}
    {cookie : ApiCookie} {epoch : ConnectionEpoch} (hr : event.isSaveResult = false)
    (h : m.outstanding = some (.savingRegistration at' cookie epoch)) :
    m.slotAfter now event = some (.savingRegistration at' cookie epoch) := by
  unfold Mam.slotAfter
  split
  · cases hr
  · cases hr
  · next hm =>
    rw [hm] at h
    cases h
  · exact h

theorem staleAttempt_step (c : Core) (i : TimedEvent) (h : c.StaleAttempt)
    (hr : (core.entry c i).input.event.isSaveResult = false) : (core.step c i).1.StaleAttempt := by
  obtain ⟨at', cookie, epoch, hs, hlt⟩ := h
  refine ⟨at', cookie, epoch, (slot_taken c i.occurredAt i.event (slotAfter_of_not_result hr hs)).1, ?_⟩
  exact lt_of_lt_of_le hlt (epoch_step c i.occurredAt i.event).1

theorem staleAttempt_unsent (c : Core) (i : TimedEvent) (h : c.StaleAttempt) (cookie : Option ApiCookie) :
    .mamRequest .registerSeedbox cookie ∉ (c.handle i.occurredAt i.event).2 := by
  obtain ⟨at', k, epoch, hs, hlt⟩ := h
  intro hreq
  obtain ⟨-, -, at'', k', hout, -⟩ | ⟨-, -, hw, -⟩ := request_cases hreq
  · rw [hs] at hout
    obtain ⟨-, -, he⟩ := Outstanding.savingRegistration.inj (Option.some.inj hout)
    exact absurd hlt (he ▸ lt_irrefl _)
  · exact wanted_ne_register hw rfl

/-- Every request leaves in a step that ends with the gate's conditions met, and
an attempt still being saved when they stop holding is never sent. -/
theorem requests_only_through_open_gate (is : List TimedEvent) :
    (∀ e ∈ core.run is, ∀ request cookie, .mamRequest request cookie ∈ e.out → e.after.RequestsAllowed) ∧
    ∀ pre e mid f post, core.run is = pre ++ e :: (mid ++ f :: post) → e.after.SavingAttempt →
      ¬ e.after.RequestsAllowed → (∀ g ∈ mid, g.input.event.isSaveResult = false) →
      ∀ cookie, .mamRequest .registerSeedbox cookie ∉ f.out := by
  refine ⟨fun e he request cookie hreq => ?_, fun pre e mid f post hrun hs hna hmid cookie => ?_⟩
  · obtain ⟨js, i, rfl⟩ := Reactive.mem_run core he
    rw [entry_out] at hreq
    rw [entry_after]
    exact request_allowed (gateInv_last js) hreq
  · obtain ⟨js, i, ks, -, -, rfl, hpost⟩ := Reactive.run_split core hrun
    rw [entry_after] at hs hna hpost
    have hinv := gateInv_step _ i.occurredAt i.event (gateInv_last js)
    have hstale : ((core.last js).handle i.occurredAt i.event).1.StaleAttempt := by
      obtain ⟨at', k, epoch, hs⟩ := hs
      obtain ⟨hle, hopen⟩ := hinv.saving at' k epoch hs
      exact ⟨at', k, epoch, hs, lt_of_le_of_ne hle fun he => hna (hinv.gate.mp (hopen he))⟩
    obtain ⟨t, j, ht, rfl⟩ := Reactive.trace_until core (I := Core.StaleAttempt)
      (P := fun g => g.input.event.isSaveResult = false) staleAttempt_step hpost.symm hstale hmid
    rw [entry_out]
    exact staleAttempt_unsent t j ht cookie

def TimedEvent.after (seconds : Nat) (event : Event) : TimedEvent where
  occurredAt :=
    { monotonic := Duration.fromSecs seconds, wall := 1700000000000000000 + Duration.fromSecs seconds }
  event := event

def savedCookie : ApiCookie := ⟨"saved", by decide⟩

def serverOne : VpnServer := ⟨"one", by decide⟩

def serverTwo : VpnServer := ⟨"two", by decide⟩

def startedEvents : List TimedEvent :=
  -- Windlass starts with a saved cookie, its IP is looked up a minute later, and the
  -- registration is about to be saved
  [.after 0 (.startup (.start .resume)), .after 0 (.startup .storageOpened),
    .after 0 (.settings (.read none (some savedCookie) none none none)),
    .after 0 (.mamPause (.read (some .enabled))), .after 0 (.mam (.stateRead none none .unset)),
    .after 0 (.tunnel (.enable [serverOne, serverTwo] (some serverOne))),
    .after 0 (.tunnel (.exitIpObserved (.v4 1))),
    .after 0 (.mam .enable), .after 60 (.timerExpired .mam 0),
    .after 61 (.mam (.answered (.ok (.ip { ip := .v4 1, asn := 1, provider := none })) none))]

def pauseEvent : TimedEvent := .after 62 (.mamPause (.set .paused))

def resumeEvents : List TimedEvent :=
  [.after 62 (.mamPause .written), .after 63 (.mamPause (.set .enabled)), .after 63 (.mamPause .written)]

def attemptSavedEvent : TimedEvent := .after 64 (.mam .registrationAttemptSaved)

theorem paused_attempt_unsent :
    (core.last (startedEvents ++ [pauseEvent])).SavingAttempt ∧
    (core.last (startedEvents ++ pauseEvent :: resumeEvents)).SavingAttempt ∧
    (core.last (startedEvents ++ pauseEvent :: resumeEvents)).mam.gate = .open' ∧
    ∀ cookie, .mamRequest .registerSeedbox cookie ∉
      (core.step (core.last (startedEvents ++ pauseEvent :: resumeEvents)) attemptSavedEvent).2 := by
  have hs : (core.last (startedEvents ++ [pauseEvent])).SavingAttempt :=
    ⟨1700000061000000000, savedCookie, 1, by decide +kernel⟩
  have hp : (core.last (startedEvents ++ [pauseEvent])).state.mamRequests ≠ .running := by decide +kernel
  rw [Reactive.last_snoc] at hs hp
  refine ⟨Reactive.last_snoc core startedEvents pauseEvent ▸ hs,
    ⟨1700000061000000000, savedCookie, 1, by decide +kernel⟩, by decide +kernel, fun cookie => ?_⟩
  have hrun := Reactive.run_stretch core startedEvents resumeEvents pauseEvent attemptSavedEvent
  refine (requests_only_through_open_gate _).2 _ _ _ _ _ hrun hs (fun h => hp h.2.1) ?_ cookie
  intro g hg
  simp only [resumeEvents, Reactive.Machine.trace, List.mem_cons, List.not_mem_nil, or_false] at hg
  obtain rfl | rfl | rfl := hg <;> rfl

/-! ## One request at a time -/

section
variable (tr : List (Reactive.Entry Core TimedEvent Action))

def sentRequests : List (MamRequest × Option ApiCookie) := tr.flatMap fun e => requests e.out

def startedSaves : List SystemTime := tr.flatMap fun e => attempts e.out

def answers : Nat := tr.countP fun e => e.input.event.isAnswer

def saveResults : Nat := tr.countP fun e => e.input.event.isSaveResult

/-- The shell answers each request, and each attempt to save, at most once: an
answer comes only while an earlier request has none. -/
def AnsweredOnce : Prop :=
  Reactive.Along (fun pre (e : Reactive.Entry Core TimedEvent Action) =>
    (e.input.event.isAnswer → answers pre < (sentRequests pre).length) ∧
    (e.input.event.isSaveResult → saveResults pre < (startedSaves pre).length)) tr

def SlotInv (c : Core) : Prop :=
  match c.mam.outstanding with
  | none => (sentRequests tr).length = answers tr ∧ (startedSaves tr).length = saveResults tr
  | some (.savingRegistration ..) =>
    (sentRequests tr).length = answers tr ∧ (startedSaves tr).length = saveResults tr + 1
  | some (.request request _ _) =>
    (sentRequests tr).length = answers tr + 1 ∧ (startedSaves tr).length = saveResults tr ∧
      ∃ cookie, (sentRequests tr).getLast? = some (request, cookie)

end

section
variable {tr : List (Reactive.Entry Core TimedEvent Action)} {e : Reactive.Entry Core TimedEvent Action}

@[simp] theorem sentRequests_snoc : sentRequests (tr ++ [e]) = sentRequests tr ++ requests e.out := by
  simp [sentRequests]

@[simp] theorem startedSaves_snoc : startedSaves (tr ++ [e]) = startedSaves tr ++ attempts e.out := by
  simp [startedSaves]

@[simp] theorem answers_snoc :
    answers (tr ++ [e]) = answers tr + e.input.event.isAnswer.toNat := by
  cases h : e.input.event.isAnswer <;> simp [answers, h]

@[simp] theorem saveResults_snoc :
    saveResults (tr ++ [e]) = saveResults tr + e.input.event.isSaveResult.toNat := by
  cases h : e.input.event.isSaveResult <;> simp [saveResults, h]

end

/-- The counts after the event is handled and before anything is sent: the slot
is empty exactly when every request and every save has its result. -/
theorem slotInv_of_empty {tr : List (Reactive.Entry Core TimedEvent Action)} {c : Core} {i : TimedEvent}
    (h : c.mam.slotAfter i.occurredAt i.event = none)
    (hq : (sentRequests tr).length = answers tr + i.event.isAnswer.toNat)
    (hs : (startedSaves tr).length = saveResults tr + i.event.isSaveResult.toNat) :
    SlotInv (tr ++ [core.entry c i]) (core.step c i).1 := by
  unfold SlotInv
  rw [core_step]
  simp only [sentRequests_snoc, startedSaves_snoc, answers_snoc, saveResults_snoc, entry_out, entry_input,
    List.length_append]
  obtain ⟨hn, hr, ha⟩ | ⟨k, hk, -, -, hr, ha⟩ | ⟨r, hk, -, -, hr, ha⟩ :=
    slot_empty c i.occurredAt i.event h
  · rw [hn, hr, ha]
    exact ⟨hq, hs⟩
  · rw [hk, hr, ha]
    exact ⟨hq, by simp only [List.length_singleton]; omega⟩
  · rw [hk, hr, ha]
    exact ⟨by simp only [List.length_singleton]; omega, hs, _, List.getLast?_concat⟩

section
variable {tr : List (Reactive.Entry Core TimedEvent Action)} {c : Core} {i : TimedEvent}
  (h : SlotInv tr c)
    (hans : i.event.isAnswer → answers tr < (sentRequests tr).length)
    (hres : i.event.isSaveResult → saveResults tr < (startedSaves tr).length)
include h hans hres

/-- When the event leaves the slot empty, it was empty, or the event is the
result it waited for. -/
theorem counts_of_empty (hslot : c.mam.slotAfter i.occurredAt i.event = none) :
    (sentRequests tr).length = answers tr + i.event.isAnswer.toNat ∧
      (startedSaves tr).length = saveResults tr + i.event.isSaveResult.toNat := by
  unfold SlotInv at h
  unfold Mam.slotAfter at hslot
  split at hslot
  · next hev hm =>
    rw [hm] at h
    rw [hev]
    exact h
  · next hev hm =>
    rw [hm] at h
    rw [hev]
    exact h
  · next hev hm =>
    rw [hm] at h
    rw [hev]
    exact ⟨h.1, h.2.1⟩
  · rw [hslot] at h
    have ha : i.event.isAnswer = false := Bool.eq_false_iff.mpr fun ht => absurd (hans ht) (by omega)
    have hr : i.event.isSaveResult = false := Bool.eq_false_iff.mpr fun ht => absurd (hres ht) (by omega)
    rw [ha, hr]
    exact h

theorem slotInv_of_taken {slot : Outstanding} (hslot : c.mam.slotAfter i.occurredAt i.event = some slot) :
    SlotInv (tr ++ [core.entry c i]) (core.step c i).1 := by
  obtain ⟨hout, hreq, hatt⟩ := slot_taken c i.occurredAt i.event hslot
  unfold SlotInv at h ⊢
  rw [core_step, hout]
  simp only [sentRequests_snoc, startedSaves_snoc, answers_snoc, saveResults_snoc, entry_out,
    entry_input, hreq,
    hatt, List.append_nil]
  unfold Mam.slotAfter at hslot
  split at hslot
  · next at' k epoch hev hm =>
    -- the attempt has been saved and is sent at once
    rw [hm] at h
    split at hslot
    · cases hslot
    · next heq =>
      cases hslot
      have hs : c.mam.sentAtOnce i.event = [(.registerSeedbox, some k)] := by
        simp only [Mam.sentAtOnce, hev, hm, if_neg heq]
      rw [hs, hev]
      refine ⟨?_, h.2, some k, List.getLast?_concat⟩
      rw [List.length_append, h.1]
      rfl
  · cases hslot
  · cases hslot
  · next hsaved hfailed hanswered =>
    rw [hslot] at h
    have hs (hr : i.event.isSaveResult = false) : c.mam.sentAtOnce i.event = [] :=
      sentAtOnce_eq_nil fun hev => by rw [hev] at hr; cases hr
    cases slot with
    | savingRegistration at' k epoch =>
      have hr : i.event.isSaveResult = false := by
        refine Bool.eq_false_iff.mpr fun ht => ?_
        unfold Event.isSaveResult at ht
        split at ht
        · next hev => exact hsaved _ _ _ hev hslot
        · next hev => exact hfailed _ _ _ hev hslot
        · cases ht
      have ha : i.event.isAnswer = false := Bool.eq_false_iff.mpr fun ht => absurd (hans ht) (by omega)
      rw [hs hr, ha, hr, List.append_nil]
      exact h
    | request r sent epoch =>
      have hr : i.event.isSaveResult = false :=
        Bool.eq_false_iff.mpr fun ht => absurd (hres ht) (by omega)
      have ha : i.event.isAnswer = false := by
        refine Bool.eq_false_iff.mpr fun ht => ?_
        unfold Event.isAnswer at ht
        split at ht
        · next hev => exact hanswered _ _ _ _ _ hev hslot
        · cases ht
      rw [hs hr, ha, hr, List.append_nil]
      exact h

end

theorem slotInv_step (tr : List (Reactive.Entry Core TimedEvent Action)) (c : Core) (i : TimedEvent)
    (h : SlotInv tr c) (hshell : AnsweredOnce (tr ++ [core.entry c i])) :
    SlotInv (tr ++ [core.entry c i]) (core.step c i).1 := by
  obtain ⟨hans, hres⟩ := hshell.last
  rw [entry_input] at hans hres
  cases hslot : c.mam.slotAfter i.occurredAt i.event with
  | none =>
    obtain ⟨hq, hs⟩ := counts_of_empty h hans hres hslot
    exact slotInv_of_empty hslot hq hs
  | some slot => exact slotInv_of_taken h hans hres hslot

theorem slotInv_run (is : List TimedEvent) (h : AnsweredOnce (core.run is)) :
    SlotInv (core.run is) (core.last is) :=
  Reactive.run_invariant core (fun _ _ h => h.left) ⟨rfl, rfl⟩ slotInv_step is h

theorem SlotInv.request {tr : List (Reactive.Entry Core TimedEvent Action)} {c : Core} (h : SlotInv tr c)
    (hlt : answers tr < (sentRequests tr).length) :
    answers tr + 1 = (sentRequests tr).length ∧ ∃ request cookie sent epoch,
      c.mam.outstanding = some (.request request sent epoch) ∧
      (sentRequests tr).getLast? = some (request, cookie) := by
  unfold SlotInv at h
  rcases hm : c.mam.outstanding with _ | ⟨at', k, epoch⟩ | ⟨r, sent, epoch⟩
  · rw [hm] at h
    exact absurd hlt (by omega)
  · rw [hm] at h
    exact absurd hlt (by omega)
  · rw [hm] at h
    obtain ⟨hq, -, k, hk⟩ := h
    exact ⟨hq.symm, r, k, sent, epoch, rfl, hk⟩

theorem SlotInv.le {tr : List (Reactive.Entry Core TimedEvent Action)} {c : Core} (h : SlotInv tr c) :
    answers tr ≤ (sentRequests tr).length ∧ (sentRequests tr).length ≤ answers tr + 1 := by
  unfold SlotInv at h
  split at h <;> omega

/-- With a shell that answers at most once, at most one request is unanswered, it
is the one in the outstanding slot, nothing is sent while an attempt is being
saved, and every answer is applied to the request it answers. -/
theorem one_request_at_a_time (is : List TimedEvent) (h : AnsweredOnce (core.run is)) :
    (answers (core.run is) ≤ (sentRequests (core.run is)).length ∧
      (sentRequests (core.run is)).length ≤ answers (core.run is) + 1) ∧
    ((sentRequests (core.run is)).length = answers (core.run is) + 1 ↔
      ∃ request cookie sent epoch, (core.last is).mam.outstanding = some (.request request sent epoch) ∧
        (sentRequests (core.run is)).getLast? = some (request, cookie)) ∧
    (∀ e ∈ core.run is, requests e.out ≠ [] →
      (e.before.SavingAttempt → e.input.event.isSaveResult) ∧ ¬ e.after.SavingAttempt) ∧
    ∀ pre e post, core.run is = pre ++ e :: post → e.input.event.isAnswer →
      ∃ request cookie sent epoch, e.before.mam.outstanding = some (.request request sent epoch) ∧
        (sentRequests pre).length = answers pre + 1 ∧
        (sentRequests pre)[answers pre]? = some (request, cookie) := by
  have hinv := slotInv_run is h
  refine ⟨hinv.le, ⟨fun hq => (hinv.request (by omega)).2, ?_⟩, fun e he hreq => ?_,
    fun pre e post hrun ha => ?_⟩
  · rintro ⟨r, k, sent, epoch, hm, -⟩
    unfold SlotInv at hinv
    rw [hm] at hinv
    exact hinv.1
  · obtain ⟨js, i, rfl⟩ := Reactive.mem_run core he
    rw [entry_out] at hreq
    rw [entry_after, entry_input, entry_before]
    refine ⟨?_, ?_⟩
    · rintro ⟨at', k, epoch, hs⟩
      by_contra hr
      rw [Bool.not_eq_true] at hr
      have ht := slot_taken _ i.occurredAt i.event (slotAfter_of_not_result hr hs)
      exact hreq (ht.2.1.trans (sentAtOnce_eq_nil fun hev => by rw [hev] at hr; cases hr))
    · rintro ⟨at', k, epoch, hs⟩
      cases hslot : (core.last js).mam.slotAfter i.occurredAt i.event with
      | some slot =>
        obtain ⟨ho, hq, -⟩ := slot_taken _ i.occurredAt i.event hslot
        rw [ho] at hs
        rw [Option.some.inj hs] at hslot
        rw [hq] at hreq
        -- an attempt left in the slot was not sent at once
        unfold Mam.sentAtOnce at hreq
        split at hreq
        · next hev hm =>
          simp only [Mam.slotAfter, hev, hm] at hslot
          split at hslot <;> cases hslot
        · exact hreq rfl
      | none =>
        obtain ⟨-, hq, -⟩ | ⟨_, -, -, -, hq, -⟩ | ⟨r, ho, -⟩ := slot_empty _ i.occurredAt i.event hslot
        · exact hreq hq
        · exact hreq hq
        · rw [ho] at hs
          cases hs
  · obtain ⟨js, i, ks, -, rfl, rfl, -⟩ := Reactive.run_split core hrun
    have hpre : AnsweredOnce (core.run js) := by
      unfold AnsweredOnce at h
      rw [hrun] at h
      exact h.left
    have hlt := (h _ _ _ hrun).1 ha
    obtain ⟨hq, r, k, sent, epoch, hm, hlast⟩ := (slotInv_run js hpre).request hlt
    refine ⟨r, k, sent, epoch, hm, hq.symm, ?_⟩
    rw [List.getLast?_eq_getElem?] at hlast
    rw [← hlast, ← hq, Nat.add_sub_cancel]

theorem lookup_outstanding_once :
    AnsweredOnce (core.run startedEvents) ∧ (sentRequests (core.run startedEvents)).length = 1 ∧
    ∃ request cookie sent epoch, (core.last (startedEvents.take 9)).mam.outstanding =
        some (.request request sent epoch) ∧
      (sentRequests (core.run (startedEvents.take 9))).getLast? = some (request, cookie) := by
  have hstart : AnsweredOnce (core.run (startedEvents.take 9)) := by
    unfold AnsweredOnce
    decide +kernel
  refine ⟨?_, by decide +kernel, (one_request_at_a_time _ hstart).2.1.mp (by decide +kernel)⟩
  unfold AnsweredOnce
  decide +kernel

end Windlass
