import Windlass.LookupSound
import Windlass.SessionSound

/-!
# The cookie is used from an IP that MAM has shown

A pause, lost protection, a switch of servers and a connectability repair all
take the observed IP out of use. The first three start another connection or
happen without one; a repair does not, so a registration that is being saved
then leaves although the IP is to be observed again.
-/

namespace Windlass

/-! ## The tunnel while it switches -/

def Watch.Sheltered (w : Watch) : Prop :=
  w.failover.isSome → w.check = .switching ∧ w.protection.isAvailable = false

def Tunnel.Sheltered (t : Tunnel) : Prop := ∀ watch, t.watch = some watch → watch.Sheltered

theorem sheltered_of_none {w : Watch} (h : w.failover = none) : w.Sheltered := by
  intro hf
  rw [h] at hf
  cases hf

theorem Watch.Sheltered.idle {w : Watch} (h : w.Sheltered) (hc : w.check ≠ .switching) :
    w.failover = none := by
  cases hf : w.failover with
  | none => rfl
  | some failover => exact absurd (h (by rw [hf]; rfl)).1 hc

theorem checkFailed_sheltered (t : Tunnel) {w : Watch} (hw : w.failover = none) (now : ClockReading)
    (reason : ExitIpFailure) (timers : Timers) : (t.checkFailed w now reason timers).1.Sheltered := by
  intro watch hwatch
  unfold Tunnel.checkFailed at hwatch
  dsimp only at hwatch
  split at hwatch
  · cases hwatch
    intro _
    refine ⟨rfl, ?_⟩
    simp only [Watch.failOver]
    split <;> rfl
  · cases hwatch
    exact sheltered_of_none hw

section
variable {t : Tunnel} (h : t.Sheltered) (now : ClockReading)
include h

theorem tunnel_handle_sheltered (event : TunnelEvent) (timers : Timers) :
    (t.handle now event timers).1.Sheltered := by
  unfold Tunnel.handle
  split
  · rintro watch ⟨⟩
    exact sheltered_of_none rfl
  · split <;> exact h
  · split <;> exact h
  · next old ip ho =>
    split
    · next hc =>
      rintro watch ⟨⟩
      exact sheltered_of_none ((h old ho).idle (by rw [hc]; decide))
    · exact h
  · next old reason ho =>
    split
    · next hc => exact checkFailed_sheltered t ((h old ho).idle (by rw [hc]; decide)) now reason timers
    · exact h
  · next old ho =>
    split
    · next switch hs =>
      rintro watch ⟨⟩ _
      exact h old ho (by rw [hs]; rfl)
    · exact h
  · next old ho =>
    split
    · rintro watch ⟨⟩
      exact sheltered_of_none rfl
    · exact h
  · next old ho =>
    split
    · rintro watch ⟨⟩
      exact sheltered_of_none rfl
    · exact h
  · next old ho =>
    split
    · rintro watch ⟨⟩
      exact sheltered_of_none rfl
    · exact h
  · exact h

theorem tunnel_timerExpired_sheltered (id : TimerId) : (t.timerExpired now id).1.Sheltered := by
  unfold Tunnel.timerExpired
  split
  · next old ho =>
    split
    · next hc =>
      rintro watch ⟨⟩
      exact sheltered_of_none ((h old ho).idle (by rw [hc]; simp))
    · exact h
  · exact h

theorem tunnel_suspect_sheltered : (t.suspect now).1.Sheltered := by
  unfold Tunnel.suspect
  split
  · next old ho =>
    split
    · next id hc =>
      split
      · rintro watch ⟨⟩
        exact sheltered_of_none ((h old ho).idle (by rw [hc]; simp))
      · exact h
    · exact h
  · exact h

end

theorem handleStartup_sheltered {c : Core} (h : c.tunnel.Sheltered) (event : StartupEvent) :
    (c.handleStartup event).1.tunnel.Sheltered := by
  unfold Core.handleStartup
  dsimp only
  split
  · split <;> exact h
  · split <;> exact h

theorem dispatch_sheltered {c : Core} (h : c.tunnel.Sheltered) (now : ClockReading) (event : Event) :
    (c.dispatch now event).1.tunnel.Sheltered := by
  cases event with
  | startup event => exact handleStartup_sheltered h event
  | timerExpired name id =>
    cases name with
    | tunnelCheck => exact tunnel_timerExpired_sheltered h now id
    | _ => exact h
  | portForwarding event =>
    simp only [Core.dispatch, Core.handlePortForwarding]
    split
    · exact tunnel_suspect_sheltered h now
    · exact h
  | tunnel event => exact tunnel_handle_sheltered h now event c.timers
  | _ => exact h

/-! ## What takes the observed IP out of use -/

section
variable {c : Core} {now : ClockReading} {event : Event}

/-- A switch of servers happens where the connection has no protection. -/
theorem switches_closed (ht : c.tunnel.Sheltered) (hs : c.switches now event) :
    ¬ ∃ watch ip at', c.tunnel.watch = some watch ∧ watch.protection = .available ip at' := by
  rintro ⟨watch, ip, at', hw, hp⟩
  cases event with
  | tunnel e =>
    obtain ⟨rfl, hne⟩ := hs
    refine hne ?_
    cases hf : watch.failover with
    | none => simp [Tunnel.handle, hw, hf]
    | some failover =>
      have := (ht watch hw (by rw [hf]; rfl)).2
      rw [hp] at this
      cases this
  | _ => exact hs

theorem switches_current (hs : c.switches now event) :
    (c.received now event).mam.network.current = none := by
  rw [received_mam]
  cases event with
  | tunnel e =>
    obtain ⟨he, hne⟩ := hs
    simp only [Core.dispatch, Core.handleTunnel]
    rw [if_pos ⟨he, hne⟩]
    exact current_unconfirm _
  | _ => exact absurd hs id

/-- What is observed before a step is still observed after it, unless the gate
closes, the server is switched or a repair starts. -/
theorem current_kept (hc : c.mam.network.current.isSome) (ha : c.mam.accepted event = none)
    (hg : ¬ c.closesGate now event) (hs : ¬ c.switches now event) (hr : c.repairs now event = false) :
    (c.handle now event).1.mam.network.current.isSome := by
  have hrec : (c.received now event).mam.network.current = c.mam.network.current := by
    obtain h | ⟨-, h⟩ | ⟨h, -⟩ := (received_receives c now event).network
    · rw [h, ha]
      rfl
    · rw [h]
      rfl
    · exact absurd h hs
  have hsurv : (c.surveyed now event).network = (c.received now event).mam.network := by
    obtain ⟨h, -⟩ | ⟨-, h | h⟩ := surveyed_network c now event
    · exact h
    · exact absurd h hg
    · rw [hr] at h
      cases h
  rw [handle_network, hsurv]
  change (c.received now event).mam.network.current.isSome
  rw [hrec]
  exact hc

/-- An IP that is observed after a step was observed before it or is shown by the
step's answer, and nothing has taken it out of use. -/
theorem shown_cases {o : IpObservation} (h : (c.handle now event).1.mam.network.current = some o) :
    ¬ c.closesGate now event ∧ c.repairs now event = false ∧ ¬ c.switches now event ∧
      (c.mam.network.current = some o ∨ c.mam.accepted event = some (.lookUpIp, .ok (.ip o))) := by
  rw [handle_network] at h
  obtain ⟨hs, hg, hr⟩ | ⟨hs, -⟩ := surveyed_network c now event
  · rw [hs] at h
    change (c.received now event).mam.network.current = some o at h
    refine ⟨hg, hr, ?_, ?_⟩
    · intro hsw
      rw [switches_current hsw] at h
      cases h
    · obtain hc | hc | ⟨o', ho, hc⟩ := @received_current c now event
      · rw [hc] at h
        cases h
      · rw [hc] at h
        exact .inl h
      · rw [hc] at h
        cases h
        exact .inr ho
  · rw [hs] at h
    change (c.received now event).mam.network.unconfirm.current = some o at h
    rw [current_unconfirm] at h
    cases h

end

/-! ## Since the IP was shown -/

def Handled.Moves (e : Handled) : Prop :=
  ¬ e.after.RequestsAllowed ∨ e.before.switches e.input.occurredAt e.input.event ∨
    e.before.repairs e.input.occurredAt e.input.event

/-- MAM has shown that it sees this IP, and nothing has moved the connection since. -/
def ShownSince (tr : List Handled) (o : IpObservation) : Prop :=
  ∃ pre g post, tr = pre ++ g :: post ∧ Handled.answer g = some (.lookUpIp, .ok (.ip o)) ∧
    ∀ h ∈ g :: post, ¬ Handled.Moves h

theorem ShownSince.snoc {tr : List Handled} {e : Handled} {o : IpObservation} (h : ShownSince tr o)
    (he : ¬ e.Moves) :
    ShownSince (tr ++ [e]) o := by
  obtain ⟨pre, g, post, rfl, ha, hm⟩ := h
  refine ⟨pre, g, post ++ [e], by simp, ha, ?_⟩
  intro x hx
  rw [← List.cons_append, List.mem_append, List.mem_singleton] at hx
  obtain hx | rfl := hx
  · exact hm x hx
  · exact he

def Core.SavingNow (c : Core) : Prop :=
  ∃ at' cookie, c.mam.outstanding = some (.savingRegistration at' cookie c.mam.epoch)

structure ShownInv (tr : List Handled) (c : Core) : Prop where
  gate : GateInv c
  tunnel : c.tunnel.Sheltered
  asked : ∀ request sent epoch, c.mam.outstanding = some (.request request sent epoch) →
    epoch ≤ c.mam.epoch ∧ (epoch = c.mam.epoch → c.mam.gate = .open')
  opened : ∀ o, c.mam.network.current = some o → c.mam.gate = .open'
  shown : ∀ o, c.mam.network.current = some o → ShownSince tr o
  saving : c.SavingNow → c.mam.network.current.isSome

theorem shownInv_init : ShownInv [] core.init where
  gate := gateInv_init
  tunnel := by rintro watch ⟨⟩
  asked := by rintro _ _ _ ⟨⟩
  opened := by rintro _ ⟨⟩
  shown := by rintro _ ⟨⟩
  saving := by rintro ⟨_, _, ⟨⟩⟩

theorem gate_kept {c : Core} {i : TimedEvent} (ho : c.mam.gate = .open')
    (hg : ¬ c.closesGate i.occurredAt i.event) :
    (c.handle i.occurredAt i.event).1.mam.gate = .open' := by
  rw [handle_gate]
  cases hf : (c.received i.occurredAt i.event).mam.gateFor (c.received i.occurredAt i.event).context with
  | open' => rfl
  | closed => exact absurd ⟨ho, hf⟩ hg

theorem slotAfter_request {m : Mam} {now : ClockReading} {event : Event} {request : MamRequest}
    {sent : Instant}
    {epoch : ConnectionEpoch} (h : m.slotAfter now event = some (.request request sent epoch)) :
    m.outstanding = some (.request request sent epoch) ∨
      ∃ at' cookie, m.outstanding = some (.savingRegistration at' cookie epoch) ∧ epoch = m.epoch := by
  unfold Mam.slotAfter at h
  split at h
  · next at' cookie epoch' ho =>
    split at h
    · cases h
    · next he =>
      cases h
      exact .inr ⟨at', cookie, ho, not_not.mp he⟩
  · cases h
  · cases h
  · exact .inl h

section
variable {tr : List Handled} {c : Core} {i : TimedEvent} (h : ShownInv tr c)
include h

theorem asked_step {request : MamRequest} {sent : Instant} {epoch : ConnectionEpoch}
    (hs : (c.handle i.occurredAt i.event).1.mam.outstanding = some (.request request sent epoch)) :
    epoch ≤ (c.handle i.occurredAt i.event).1.mam.epoch ∧
      (epoch = (c.handle i.occurredAt i.event).1.mam.epoch →
        (c.handle i.occurredAt i.event).1.mam.gate = .open') := by
  have hep := epoch_step c i.occurredAt i.event
  have hkept (hle : epoch ≤ c.mam.epoch) (hopen : epoch = c.mam.epoch → c.mam.gate = .open') :
      epoch ≤ (c.handle i.occurredAt i.event).1.mam.epoch ∧
        (epoch = (c.handle i.occurredAt i.event).1.mam.epoch →
          (c.handle i.occurredAt i.event).1.mam.gate = .open') := by
    refine ⟨hle.trans hep.1, fun he => ?_⟩
    have hc : epoch = c.mam.epoch := le_antisymm hle (he ▸ hep.1)
    cases hclosed : (c.handle i.occurredAt i.event).1.mam.gate with
    | open' => rfl
    | closed => exact absurd (hep.2 (hopen hc) hclosed) (by rw [← he, hc]; exact lt_irrefl _)
  cases hslot : c.mam.slotAfter i.occurredAt i.event with
  | some slot =>
    rw [(slot_taken c i.occurredAt i.event hslot).1] at hs
    rw [Option.some.inj hs] at hslot
    obtain ho | ⟨at', cookie, ho, -⟩ := slotAfter_request hslot
    · exact hkept (h.asked request sent epoch ho).1 (h.asked request sent epoch ho).2
    · exact hkept (h.gate.saving at' cookie epoch ho).1 (h.gate.saving at' cookie epoch ho).2
  | none =>
    obtain ⟨hn, -⟩ | ⟨k, hk, -⟩ | ⟨r, hr, hg, -⟩ := slot_empty c i.occurredAt i.event hslot
    · rw [hn] at hs
      cases hs
    · rw [hk] at hs
      cases hs
    · rw [hr] at hs
      cases hs
      exact ⟨le_rfl, fun _ => hg⟩

/-- While the gate stays open, an observed IP was shown since the connection moved. -/
theorem shown_step {o : IpObservation}
    (hc : (c.handle i.occurredAt i.event).1.mam.network.current = some o) :
    (c.handle i.occurredAt i.event).1.mam.gate = .open' ∧ ShownSince (tr ++ [core.entry c i]) o := by
  obtain ⟨hg, hr, hs, hbefore⟩ := shown_cases hc
  have hopen : c.mam.gate = .open' := by
    obtain hbefore | ho := hbefore
    · exact h.opened o hbefore
    · obtain ⟨sent, epoch, rotated, hslot, he⟩ := accepted_outstanding ho
      rw [he, accepted_answered _ hslot] at ho
      split at ho
      · next hepoch => exact (h.asked _ _ _ hslot).2 (hepoch.resolve_right Bool.false_ne_true)
      · cases ho
  have hafter := gate_kept hopen hg
  have hstill : ¬ Handled.Moves (core.entry c i) := by
    rintro (hn | hn | hn)
    · exact hn ((handle_gate_iff c i.occurredAt i.event).mp hafter)
    · exact hs hn
    · change c.repairs i.occurredAt i.event = true at hn
      rw [hr] at hn
      cases hn
  refine ⟨hafter, ?_⟩
  obtain hbefore | ho := hbefore
  · exact (h.shown o hbefore).snoc hstill
  · exact ⟨tr, core.entry c i, [], rfl, ho, by simpa using hstill⟩

/-- Unless a repair starts meanwhile, what is being saved still has the IP in view. -/
theorem saving_step (hn : ¬ (c.SavingNow ∧ c.repairs i.occurredAt i.event))
    (hs : (c.handle i.occurredAt i.event).1.SavingNow) :
    (c.handle i.occurredAt i.event).1.mam.network.current.isSome := by
  obtain ⟨at', cookie, ho⟩ := hs
  cases hslot : c.mam.slotAfter i.occurredAt i.event with
  | some slot =>
    have hep := epoch_step c i.occurredAt i.event
    rw [(slot_taken c i.occurredAt i.event hslot).1] at ho
    rw [Option.some.inj ho] at hslot
    have hbefore := slotAfter_saving i.occurredAt i.event hslot
    have hle := (h.gate.saving _ _ _ hbefore).1
    have heq : (c.handle i.occurredAt i.event).1.mam.epoch = c.mam.epoch := le_antisymm hle hep.1
    have hnow : c.SavingNow := ⟨at', cookie, heq ▸ hbefore⟩
    have hopen := (h.gate.saving _ _ _ hbefore).2 heq
    have hclose : ¬ c.closesGate i.occurredAt i.event := by
      intro hg
      have hlt := hep.2 hopen (by rw [handle_gate]; exact hg.2)
      rw [heq] at hlt
      exact lt_irrefl _ hlt
    have hswitch : ¬ c.switches i.occurredAt i.event := fun hsw =>
      switches_closed h.tunnel hsw (h.gate.gate.mp hopen).2.2
    refine current_kept (h.saving hnow) ?_ hclose hswitch ?_
    · unfold Mam.accepted
      rw [hbefore]
      split
      · next hr => cases hr
      · rfl
    · exact Bool.eq_false_iff.mpr fun hr => hn ⟨hnow, hr⟩
  | none =>
    obtain ⟨hnone, -⟩ | ⟨k, -, -, -, -, hatt⟩ | ⟨r, hr, -⟩ := slot_empty c i.occurredAt i.event hslot
    · rw [hnone] at ho
      cases ho
    · have hcur := attempt_seen (hatt ▸ List.cons_ne_nil _ _)
      rw [prepared_eq] at hcur
      rw [handle_network]
      exact hcur
    · rw [hr] at ho
      cases ho

theorem shownInv_step (hn : ¬ (c.SavingNow ∧ c.repairs i.occurredAt i.event)) :
    ShownInv (tr ++ [core.entry c i]) (core.step c i).1 where
  gate := gateInv_step c i.occurredAt i.event h.gate
  tunnel := by
    rw [core_step, (handle_frame c i.occurredAt i.event).2.2, received_tunnel]
    exact @dispatch_sheltered (c.note i.event) h.tunnel i.occurredAt i.event
  asked _ _ _ hs := asked_step h hs
  opened _ hc := (shown_step h hc).1
  shown _ hc := (shown_step h hc).2
  saving := saving_step h hn

theorem cookie_step (hn : ¬ (c.SavingNow ∧ c.repairs i.occurredAt i.event)) {request : MamRequest}
    {cookie : ApiCookie}
    (hs : .mamRequest request (some cookie) ∈ (c.handle i.occurredAt i.event).2) :
    (c.handle i.occurredAt i.event).1.mam.network.current.isSome := by
  have hallowed := request_allowed h.gate hs
  obtain ⟨he, -, at', k, ho, -⟩ | ⟨-, -, hw, hcookie⟩ := request_cases hs
  · have hnow : c.SavingNow := ⟨at', k, ho⟩
    have hnone : c.mam.accepted i.event = none := accepted_none i.event (by rw [he]; rfl)
    refine current_kept (h.saving hnow) hnone ?_ ?_ ?_
    · intro hg
      rw [← handle_gate_iff, handle_gate, hg.2] at hallowed
      cases hallowed
    · rw [he]
      exact id
    · exact Bool.eq_false_iff.mpr fun hr => hn ⟨hnow, hr⟩
  · have hneeds : request.needsCookie := by
      rw [eq_comm, Option.filter_eq_some_iff] at hcookie
      exact hcookie.2
    obtain ⟨rfl, -⟩ | ⟨-, hcur, -⟩ := wanted_cases hw
    · cases hneeds
    · rw [prepared_eq] at hcur
      rw [handle_network]
      exact hcur

end

/-! ## Whole runs -/

/-- No repair starts while a registration of the present connection is being saved. -/
def RepairsWait (tr : List Handled) : Prop :=
  ∀ e ∈ tr, ¬ (e.before.SavingNow ∧ e.before.repairs e.input.occurredAt e.input.event)

theorem RepairsWait.left {tr tr' : List Handled} (h : RepairsWait (tr ++ tr')) : RepairsWait tr :=
  fun e he => h e (List.mem_append_left _ he)

theorem shownInv_run {is : List TimedEvent} (h : RepairsWait (core.run is)) :
    ShownInv (core.run is) (core.last is) := by
  refine Reactive.run_invariant core (fun _ _ => RepairsWait.left) shownInv_init
    (fun tr c i hinv hw => ?_) is h
  exact shownInv_step hinv (hw _ (List.mem_append_right _ (List.mem_singleton_self _)))

/-- Where no repair starts while a registration is being saved, every request that
carries the cookie leaves with the IP in view, and MAM has shown it since the last
pause, lost protection, switch of servers or repair. -/
theorem cookie_used_in_view {is : List TimedEvent} (h : RepairsWait (core.run is))
    {pre post : List Handled} {e : Handled}
    (hrun : core.run is = pre ++ e :: post) {request : MamRequest} {cookie : ApiCookie}
    (hs : .mamRequest request (some cookie) ∈ e.out) :
    ∃ o, e.after.mam.network.current = some o ∧ ShownSince (pre ++ [e]) o := by
  obtain ⟨js, i, ks, -, hpre, rfl, -⟩ := Reactive.run_split core hrun
  rw [hrun, hpre] at h
  have hinv := shownInv_run h.left
  have hnow := h _ (List.mem_append_right _ List.mem_cons_self)
  obtain ⟨o, ho⟩ := Option.isSome_iff_exists.mp (cookie_step hinv hnow hs)
  refine ⟨o, ho, ?_⟩
  rw [hpre]
  exact (shown_step hinv ho).2

theorem registration_sent_in_view : ∃ o,
    (core.entry (core.last startedEvents)
      (.after 62 (.mam .registrationAttemptSaved))).after.mam.network.current =
      some o ∧
    ShownSince
      (core.run startedEvents ++
        [core.entry (core.last startedEvents) (.after 62 (.mam .registrationAttemptSaved))]) o := by
  have hwait : RepairsWait (core.run attemptSentEvents) := by
    have hnone : ∀ e ∈ core.run attemptSentEvents,
        e.before.repairs e.input.occurredAt e.input.event = false := by
      decide +kernel
    intro e he hboth
    rw [hnone e he] at hboth
    cases hboth.2
  have hsent : Action.mamRequest .registerSeedbox (some savedCookie) ∈
      (core.entry (core.last startedEvents) (.after 62 (.mam .registrationAttemptSaved))).out := by
    decide +kernel
  exact cookie_used_in_view hwait (Reactive.run_snoc _ _ _) hsent

def unreachedData : UserData :=
  { accountData with
    clients := some
      [{ qbittorrent := some { major := 5, minor := 2, patch := 0 }, connectable := some .no,
         refusal := .notRefused }] }

/-- The account is read before qBittorrent connects. A registration, delayed by one
of an hour ago, is being saved when it does, and MAM lists that client as not
connectable. -/
def repairedWhileSaving : List TimedEvent :=
  startedEvents.take 4 ++
    [.after 0 (.mam (.stateRead (some (1700000000000000000 - Duration.fromSecs 3500)) none .unset))] ++
    startedEvents.drop 5 ++
    [replyAt 62 (.userData unreachedData), replyAt 63 (.bookmarks { found := 0, bookmarks := [] }),
      .after 100 (.timerExpired .mam 4), .after 101 (.qbittorrent .enable),
      .after 102 (.qbittorrent (.connected (.release { major := 5, minor := 2, patch := 0 })
        { listenPort := none, interface := none, queue := none }))]

theorem registration_sent_out_of_view :
    ∃ pre e post, core.run (repairedWhileSaving ++ [.after 103 (.mam .registrationAttemptSaved)]) =
    pre ++ e :: post ∧
      .mamRequest .registerSeedbox (some savedCookie) ∈ e.out ∧ e.after.mam.network.current = none :=
  ⟨_, _, [], Reactive.run_snoc _ _ _, by decide +kernel, by decide +kernel⟩

end Windlass
