import Windlass.CookieSound
import Windlass.EvidenceSound

/-!
# A refused cookie is not used again

MAM refuses the cookie a request carried. While that cookie stays the one in use,
the refusal stands and blocks every request that needs a cookie, until MAM sees
another IP or ASN where the refusal was tied to it. Once another cookie is in use
the refused one is gone, and comes back only if the owner or MAM supplies it
again or a failed write falls back to it.
-/

namespace Windlass

/-! ## The session and the IP after an event -/

def Mam.sessionAfter (m : Mam) (now : ClockReading) (event : Event) : MamSession :=
  match event, m.outstanding with
  | .mam (.answered result _), some (.request request _ epoch) =>
    if epoch = m.epoch ∧ request.needsCookie then (m.followSession now request result).session
    else m.session
  | _, _ => m.session

theorem mam_handle_session (m : Mam) (now : ClockReading) (registry : Registry) (e : MamEvent) :
    (m.handle now e registry).1.session = m.sessionAfter now (.mam e) := by
  cases e with
  | answered result rotated =>
    simp only [Mam.handle, Mam.requestAnswered, Mam.sessionAfter]
    rcases hm : m.outstanding with _ | ⟨at', k, epoch⟩ | ⟨r, sent, epoch⟩
    · rfl
    · rfl
    · dsimp only
      unfold Mam.answered
      rw [applyAnswer_frame]
      dsimp only
      by_cases h : epoch = m.epoch ∧ r.needsCookie
      · rw [if_pos h, if_pos (by simpa using h)]
        unfold Mam.followSession
        split
        · split <;> rfl
        · rfl
        · rfl
      · rw [if_neg h, if_neg (by simpa using h)]
  | ratioUseChecked =>
    simp only [Mam.handle]
    rw [ratioUseChecked_frame]
    rfl
  | registrationAttemptSaved =>
    simp only [Mam.handle, Mam.registrationAttemptSaved]
    split
    · split <;> rfl
    · rfl
  | registrationAttemptSaveFailed =>
    simp only [Mam.handle, Mam.registrationAttemptSaveFailed]
    split <;> rfl
  | _ => rfl

theorem current_unconfirm (n : Network) : n.unconfirm.current = none := by
  unfold Network.current Network.unconfirm
  cases n.observed <;> rfl

section
variable (c : Core) (now : ClockReading) (event : Event)

theorem received_session : (c.received now event).mam.session = c.mam.sessionAfter now event := by
  rw [received_mam]
  by_cases hm : ∃ e, event = .mam e
  · obtain ⟨e, rfl⟩ := hm
    rw [dispatch_mam_eq]
    exact mam_handle_session _ now _ e
  · rw [(dispatch_nudged (c.note event) now fun e he => hm ⟨e, he⟩).frame]
    cases event with
    | mam e => exact absurd ⟨e, rfl⟩ hm
    | _ => rfl

/-- The IP MAM sees stays as it is, is unconfirmed, or has just been looked up. -/
theorem received_current : (c.received now event).mam.network.current = none ∨
    (c.received now event).mam.network.current = c.mam.network.current ∨
    ∃ o, c.mam.accepted event = some (.lookUpIp, .ok (.ip o)) ∧
      (c.received now event).mam.network.current = some o := by
  obtain h | ⟨-, h⟩ | ⟨-, h⟩ := (received_receives c now event).network
  · rw [h]
    unfold Network.answered
    split
    · next o ho => exact .inr (.inr ⟨o, ho, rfl⟩)
    · exact .inr (.inl rfl)
    · exact .inr (.inl rfl)
  · rw [h]
    exact .inr (.inl rfl)
  · rw [h, current_unconfirm]
    exact .inl rfl

theorem handle_current : (c.handle now event).1.mam.network.current = none ∨
    (c.handle now event).1.mam.network.current = (c.received now event).mam.network.current := by
  rw [handle_network]
  obtain ⟨h, -⟩ | ⟨h, -⟩ := surveyed_network c now event
  · rw [h]
    exact .inr rfl
  · rw [h]
    exact .inl (current_unconfirm _)

theorem connect_session (m : Mam) (context : Context)
    (hg : ¬ (m.gate = .open' ∧ m.gateFor context = .closed))
    (hr : context.requestedCookie = m.cookieInUse ∨ context.requestedCookie = m.issuedCookie) :
    (m.connect now context).session = m.session := by
  have hgate : (m.remind now).1.followGate context =
      { (m.remind now).1 with gate := m.gateFor context } := by
    obtain ⟨ho, hc, -⟩ | ⟨-, h⟩ := remind_followGate now m context
    · exact absurd ⟨ho, hc⟩ hg
    · exact h
  unfold Mam.connect
  rw [hgate, remind_frame]
  obtain ⟨hn, hi, -⟩ | ⟨-, -, -, h⟩ | ⟨-, -, h⟩ := followCookie_cases
    { m with
      lastReminder := (m.remind now).1.lastReminder
      notices := (m.remind now).1.notices
      gate := m.gateFor context } context
  · exact absurd hr (not_or.mpr ⟨hn, hi⟩)
  · rw [h]
  · rw [h]

end

/-! ## The cookie a request carried -/

structure Core.Dropped (c : Core) (k : ApiCookie) : Prop where
  requested : c.context.requestedCookie ≠ some k
  inUse : c.mam.cookieInUse ≠ some k
  issued : c.mam.issuedCookie ≠ some k

/-- What is known of a cookie that something outstanding on this connection
carries: settings are read, and it is in use or has been replaced by one MAM
issued. -/
structure Core.Carried (c : Core) (k : ApiCookie) : Prop where
  loaded : ∃ s, c.settings = .loaded s
  cookie : c.mam.cookieInUse = some k ∨ c.Dropped k

section
variable {c : Core} {now : ClockReading} {event : Event} {k : ApiCookie}

theorem loaded_step (hc : CookieInv c) (h : ∃ s, c.settings = .loaded s) :
    ∃ s, (c.handle now event).1.settings = .loaded s := by
  obtain ⟨s, hs⟩ := h
  obtain ⟨s', hs', -⟩ := received_cookie c now event hs (hc.started (by rw [hs]; simp))
  exact ⟨s', by rw [(handle_frame c now event).2.1, hs']⟩

theorem dropped_of_received (hr : (c.received now event).context.requestedCookie ≠ some k)
    (hu : c.mam.cookieInUse ≠ some k) (hi : (c.received now event).mam.issuedCookie ≠ some k) :
    (c.handle now event).1.Dropped k := by
  obtain ⟨hcu, hci, -⟩ := handle_cookies c now event
  obtain ⟨-, -, hinuse⟩ := received_mam_frame c now event
  have hreq := handle_requestedCookie c now event
  obtain ⟨-, -, h⟩ | ⟨-, -, -, h, h'⟩ | ⟨-, -, h, h'⟩ :=
    connect_cookie_cases (c.received now event).mam now (c.received now event).context
  · refine ⟨hreq ▸ hr, ?_, ?_⟩
    · rw [hcu, Core.connected, h]
      exact hr
    · rw [hci, Core.connected, h]
      exact Option.some_ne_none k |>.symm
  · refine ⟨hreq ▸ hr, ?_, ?_⟩
    · rw [hcu, Core.connected, h]
      exact hi
    · rw [hci, Core.connected, h']
      exact Option.some_ne_none k |>.symm
  · refine ⟨hreq ▸ hr, ?_, ?_⟩
    · rw [hcu, Core.connected, h, hinuse]
      exact hu
    · rw [hci, Core.connected, h']
      exact hi

theorem inUse_step (hc : CookieInv c) (hu : c.mam.cookieInUse = some k) :
    (c.handle now event).1.mam.cookieInUse = some k ∧
        ((c.received now event).context.requestedCookie = (c.received now event).mam.cookieInUse ∨
          (c.received now event).context.requestedCookie = (c.received now event).mam.issuedCookie) ∨
      (c.handle now event).1.Dropped k := by
  obtain ⟨hcu, hci, -⟩ := handle_cookies c now event
  obtain ⟨-, -, hinuse⟩ := received_mam_frame c now event
  have hreq := handle_requestedCookie c now event
  obtain ⟨hr, -, h⟩ | ⟨hr, hk, hck, h, h'⟩ | ⟨hr, -, h, -⟩ :=
    connect_cookie_cases (c.received now event).mam now (c.received now event).context
  · right
    rw [hinuse, hu] at hr
    refine ⟨hreq ▸ hr, ?_, ?_⟩
    · rw [hcu, Core.connected, h]
      exact hr
    · rw [hci, Core.connected, h]
      exact Option.some_ne_none k |>.symm
  · obtain ⟨j, hj⟩ := Option.isSome_iff_exists.mp hk
    have hrj := context_cookie hc.received_settled hj
    have huj : (c.handle now event).1.mam.cookieInUse = some j := by
      rw [hcu, Core.connected, h, ← hck, hj]
    by_cases hjk : j = k
    · exact .inl ⟨hjk ▸ huj, hr⟩
    · refine .inr ⟨?_, ?_, ?_⟩
      · rw [hreq, hrj]
        exact fun he => hjk (Option.some.inj he)
      · rw [huj]
        exact fun he => hjk (Option.some.inj he)
      · rw [hci, Core.connected, h']
        exact Option.some_ne_none k |>.symm
  · refine .inl ⟨?_, hr⟩
    rw [hcu, Core.connected, h, hinuse, hu]

/-- On the same connection, the cookie asked for is the one in use or the one
issued. -/
theorem followed_of_epoch (he : (c.handle now event).1.mam.epoch = c.mam.epoch) :
    (c.received now event).context.requestedCookie = c.mam.cookieInUse ∨
      (c.received now event).context.requestedCookie = (c.received now event).mam.issuedCookie := by
  obtain ⟨-, hepoch, hinuse⟩ := received_mam_frame c now event
  obtain ⟨-, -, h⟩ | ⟨hr, -⟩ | ⟨hr, -⟩ :=
    connect_cookie_cases (c.received now event).mam now (c.received now event).context
  · have hg := (followGate_epoch ((c.received now event).mam.remind now).1
      (c.received now event).context).1
    rw [remind_epoch, hepoch] at hg
    have hlt : c.mam.epoch < (c.handle now event).1.mam.epoch := by
      rw [(handle_cookies c now event).2.2.1, Core.connected, h]
      exact Nat.lt_succ_of_le hg
    exact absurd he (ne_of_gt hlt)
  · rwa [hinuse] at hr
  · rwa [hinuse] at hr

theorem carried_step (hc : CookieInv c) (hrot : c.mam.rotates event = none)
    (he : (c.handle now event).1.mam.epoch = c.mam.epoch) (h : c.Carried k) :
    (c.handle now event).1.Carried k := by
  refine ⟨loaded_step hc h.loaded, ?_⟩
  obtain hu | hd := h.cookie
  · obtain ⟨hu', -⟩ | hd := inUse_step hc hu
    · exact .inl hu'
    · exact .inr hd
  · have hi : (c.received now event).mam.issuedCookie ≠ some k := by
      rw [received_issued, hrot]
      exact hd.issued
    refine .inr (dropped_of_received ?_ hd.inUse hi)
    obtain hr | hr := followed_of_epoch he
    · rw [hr]
      exact hd.inUse
    · rw [hr]
      exact hi

theorem carried_of_planned (hc : CookieInv c) (h : (c.planned now event).cookie = some k) :
    (c.handle now event).1.Carried k := by
  have hk := (planned_cookie_some h).1
  have hr := context_cookie hc.received_settled hk
  constructor
  · rw [(handle_frame c now event).2.1]
    cases hs : (c.received now event).settings with
    | loaded s => exact ⟨s, rfl⟩
    | _ =>
      simp only [Core.context, hs, SettingsState.toLoaded, Option.bind_none] at hk
      cases hk
  · left
    rw [(handle_cookies c now event).1, Core.connected]
    obtain ⟨-, -, hm⟩ | ⟨-, -, hck, hm, -⟩ | ⟨hf, hno, hm, -⟩ :=
      connect_cookie_cases (c.received now event).mam now (c.received now event).context
    · rw [hm]
      exact hr
    · rw [hm, ← hck, hk]
    · rw [hm]
      obtain hf | hf := hf
      · rw [← hf, hr]
      · exact absurd (hk.trans (hr.symm.trans hf)) (hno (by rw [hk]; rfl))

end

/-! ## Registrations waiting to be sent -/

def Core.SavesCarried (c : Core) : Prop :=
  ∀ at' k, c.mam.outstanding = some (.savingRegistration at' k c.mam.epoch) → c.Carried k

section
variable {c : Core} (now : ClockReading) (event : Event)

theorem savesCarried_step (hc : CookieInv c) (h : c.SavesCarried) :
    (c.handle now event).1.SavesCarried := by
  intro at' k hs
  cases hslot : c.mam.slotAfter now event with
  | some slot =>
    rw [(slot_taken c now event hslot).1] at hs
    rw [Option.some.inj hs] at hslot
    have hm := slotAfter_saving now event hslot
    have he : (c.handle now event).1.mam.epoch = c.mam.epoch :=
      le_antisymm (hc.slot _ hm) (epoch_step c now event).1
    refine carried_step hc ?_ he (h at' k (he ▸ hm))
    cases hr : c.mam.rotates event with
    | none => rfl
    | some j =>
      obtain ⟨r, sent, hm', -⟩ := rotates_some hr
      rw [hm] at hm'
      cases hm'
  | none =>
    obtain ⟨hn, -⟩ | ⟨j, hj, -, hp, -⟩ | ⟨r, hr, -⟩ := slot_empty c now event hslot
    · rw [hn] at hs
      cases hs
    · rw [hj] at hs
      cases hs
      exact carried_of_planned hc hp
    · rw [hr] at hs
      cases hs

end

theorem savesCarried_last (is : List TimedEvent) : (core.last is).SavesCarried := by
  have h := Reactive.last_invariant core (I := fun c => CookieInv c ∧ c.SavesCarried)
    ⟨cookieInv_init, by intro at' k h; cases h⟩
    (fun _ i h => ⟨cookieInv_step i.occurredAt i.event h.1,
      savesCarried_step i.occurredAt i.event h.1 h.2⟩) is
  exact h.2

/-! ## Waiting for the answer -/

/-- What a step that sends no request keeps of the one outstanding: if it is still
of this connection its cookie is carried, and the IP MAM sees is the one it was
sent from or is unconfirmed. -/
def Core.Awaits (c : Core) (k : ApiCookie) (seen : Option IpObservation) : Prop :=
  ∀ request sent epoch, c.mam.outstanding = some (.request request sent epoch) →
    request.needsCookie ∧ (epoch = c.mam.epoch → c.Carried k) ∧
      (c.mam.network.current = none ∨ c.mam.network.current = seen)

section
variable {c : Core} {now : ClockReading} {event : Event} {k : ApiCookie}

theorem awaits_sent (now : ClockReading) (event : Event) {request : MamRequest} (hc : CookieInv c)
    (hs : c.SavesCarried) (h : .mamRequest request (some k) ∈ (c.handle now event).2) :
    (c.handle now event).1.Awaits k (c.handle now event).1.mam.network.current := by
  intro request' sent epoch ho
  obtain ⟨rfl, -, at', k', hm, hk⟩ | ⟨-, hslot, hw, hk⟩ := request_cases h
  · cases hk
    have hslot : c.mam.slotAfter now (.mam .registrationAttemptSaved) =
        some (.request .registerSeedbox now.monotonic c.mam.epoch) := by
      simp only [Mam.slotAfter, hm]
      exact if_neg (not_not.mpr rfl)
    rw [(slot_taken c now _ hslot).1] at ho
    cases ho
    refine ⟨rfl, fun he => ?_, .inr rfl⟩
    refine carried_step hc ?_ he.symm (hs at' k hm)
    unfold Mam.rotates
    rfl
  · obtain ⟨-, hr, -⟩ | ⟨j, -, -, -, hr, -⟩ | ⟨r, hr', -, -, hr, -⟩ := slot_empty c now event hslot
    · rw [← mem_requests, hr] at h
      cases h
    · rw [← mem_requests, hr] at h
      cases h
    · rw [hr'] at ho
      cases ho
      rw [← mem_requests, hr, List.mem_singleton, Prod.mk.injEq] at h
      obtain ⟨hp, hn⟩ := Option.filter_eq_some_iff.mp h.2.symm
      exact ⟨hn, fun _ => carried_of_planned hc hp, .inr rfl⟩

/-- A request stays outstanding over a step that sends none only if the event
answers nothing. -/
theorem outstanding_kept {request : MamRequest} {sent : Instant} {epoch : ConnectionEpoch}
    (hr : requests (c.handle now event).2 = [])
    (h : (c.handle now event).1.mam.outstanding = some (.request request sent epoch)) :
    c.mam.outstanding = some (.request request sent epoch) ∧ event.isAnswer = false := by
  have hm : c.mam.outstanding = some (.request request sent epoch) := by
    obtain h | ⟨-, cookie, hreq⟩ := outstanding_step h
    · exact h
    · rw [← mem_requests, hr] at hreq
      cases hreq
  refine ⟨hm, ?_⟩
  cases hev : event.isAnswer with
  | false => rfl
  | true =>
    exfalso
    have hslot : c.mam.slotAfter now event = none := by
      unfold Event.isAnswer at hev
      split at hev
      · simp only [Mam.slotAfter, hm]
      · cases hev
    obtain ⟨hn, -⟩ | ⟨j, hj, -⟩ | ⟨r, -, -, -, hr', -⟩ := slot_empty c now event hslot
    · rw [hn] at h
      cases h
    · rw [hj] at h
      cases h
    · rw [hr] at hr'
      cases hr'

theorem awaits_step {seen : Option IpObservation} (hc : CookieInv c) (h : c.Awaits k seen)
    (hr : requests (c.handle now event).2 = []) : (c.handle now event).1.Awaits k seen := by
  intro request sent epoch ho
  obtain ⟨hm, hev⟩ := outstanding_kept hr ho
  obtain ⟨hneeds, hcar, hcur⟩ := h request sent epoch hm
  refine ⟨hneeds, fun he => ?_, ?_⟩
  · have hle := hc.slot _ hm
    have hep : (c.handle now event).1.mam.epoch = c.mam.epoch :=
      le_antisymm (he ▸ hle) (epoch_step c now event).1
    refine carried_step hc ?_ hep (hcar (he.trans hep))
    cases event with
    | mam e =>
      cases e with
      | answered result rotated => cases hev
      | _ => rfl
    | _ => rfl
  · obtain hh | hh := handle_current c now event
    · exact .inl hh
    · obtain hg | hg | ⟨o, hacc, -⟩ := received_current c now event
      · exact .inl (hh.trans hg)
      · rw [hh, hg]
        exact hcur
      · rw [accepted_none event hev] at hacc
        cases hacc

end

/-! ## A refused cookie -/

/-- Whether a refusal tied to the IP or the ASN of `seen` still applies to what MAM
sees now; any other always does. -/
def SessionRejection.appliesTo (rejection : SessionRejection) (seen : Option IpObservation)
    (observed : IpObservation) : Bool :=
  match rejection with
  | .asnMismatch => seen.any fun seen => seen.asn == observed.asn
  | .ipMismatch => seen.any fun seen => seen.ip == observed.ip
  | .invalidCookie | .notAllowed | .other => true

theorem appliesTo_self {rejection : SessionRejection} {seen : Option IpObservation} {o : IpObservation}
    (h : seen = some o) : rejection.appliesTo seen o := by
  subst h
  cases rejection <;> simp [SessionRejection.appliesTo]

def SessionRejection.isTied : SessionRejection → Bool
  | .asnMismatch | .ipMismatch => true
  | .invalidCookie | .notAllowed | .other => false

theorem blocks_of_appliesTo {rejection : SessionRejection} {seen seen' observed : Option IpObservation}
    {at' : SystemTime} (hseen : rejection.isTied → seen' = seen)
    (h : ∀ o, observed = some o → rejection.appliesTo seen o) :
    (MamSession.rejected rejection (seen'.map fun o => (o.ip, o.asn)) at').blocks observed = true := by
  cases observed with
  | none => cases rejection <;> rfl
  | some o =>
    have ho := h o rfl
    cases rejection with
    | asnMismatch =>
      rw [hseen rfl]
      cases seen with
      | none => cases ho
      | some s => exact ho
    | ipMismatch =>
      rw [hseen rfl]
      cases seen with
      | none => cases ho
      | some s => exact ho
    | _ => rfl

structure Core.Refused (c : Core) (k : ApiCookie) (rejection : SessionRejection)
    (seen : Option IpObservation) :
    Prop where
  inUse : c.mam.cookieInUse = some k
  blocks : ∀ observed : Option IpObservation, (∀ o, observed = some o → rejection.appliesTo seen o) →
    c.mam.session.blocks observed
  current : ∀ o, c.mam.network.current = some o → rejection.appliesTo seen o
  unused : c.mam.SlotUnused

/-- The refused cookie is not used: it is blocked or dropped, and no attempt of
this connection that is being saved carries it. -/
structure Core.Barred (c : Core) (k : ApiCookie) (rejection : SessionRejection)
    (seen : Option IpObservation) :
    Prop where
  loaded : ∃ s, c.settings = .loaded s
  saving : ∀ at', c.mam.outstanding ≠ some (.savingRegistration at' k c.mam.epoch)
  cookie : c.Refused k rejection seen ∨ c.Dropped k

/-- The step leaves a refused cookie where it is: the gate does not close while it
is in use, and once it is not, no failed write falls back to it and MAM does not
issue it again. -/
structure Core.LeavesCookie (c : Core) (k : ApiCookie) (now : ClockReading) (event : Event) : Prop where
  gate : c.mam.cookieInUse = some k → ¬ c.closesGate now event
  fallback : ∀ s, c.settings = .loaded s → event = .settings .rotatedApiCookieWriteFailed →
    s.apiCookie.persistence = .pending s.apiCookie.requested → s.apiCookie.saved = some k →
    c.mam.cookieInUse = some k
  issued : c.mam.rotates event = some k → c.mam.cookieInUse = some k

section
variable {c : Core} {now : ClockReading} {event : Event} {k : ApiCookie}

theorem leavesCookie_of_inUse (hu : c.mam.cookieInUse = some k) (hg : ¬ c.closesGate now event) :
    c.LeavesCookie k now event :=
  ⟨fun _ => hg, fun _ _ _ _ _ => hu, fun _ => hu⟩

theorem request_barred (hs : ∀ at', c.mam.outstanding ≠ some (.savingRegistration at' k c.mam.epoch))
    (hp : (c.planned now event).cookie ≠ some k) (request : MamRequest) :
    .mamRequest request (some k) ∉ (c.handle now event).2 := by
  intro h
  obtain ⟨-, -, at', k', hm, hk⟩ | ⟨-, -, -, hk⟩ := request_cases h
  · cases hk
    exact hs at' hm
  · exact hp (Option.filter_eq_some_iff.mp hk.symm).1

theorem saving_barred (hc : CookieInv c)
    (hs : ∀ at', c.mam.outstanding ≠ some (.savingRegistration at' k c.mam.epoch))
    (hp : (c.planned now event).cookie ≠ some k) (at' : SystemTime) :
    (c.handle now event).1.mam.outstanding ≠
      some (.savingRegistration at' k (c.handle now event).1.mam.epoch) := by
  intro h
  cases hslot : c.mam.slotAfter now event with
  | some slot =>
    rw [(slot_taken c now event hslot).1] at h
    rw [Option.some.inj h] at hslot
    have hm := slotAfter_saving now event hslot
    have he : (c.handle now event).1.mam.epoch = c.mam.epoch :=
      le_antisymm (hc.slot _ hm) (epoch_step c now event).1
    exact hs at' (he ▸ hm)
  | none =>
    obtain ⟨hn, -⟩ | ⟨j, hj, -, hpj, -⟩ | ⟨r, hr, -⟩ := slot_empty c now event hslot
    · rw [hn] at h
      cases h
    · rw [hj] at h
      cases h
      exact hp hpj
    · rw [hr] at h
      cases h

theorem planned_dropped (hc : CookieInv c) (hd : (c.handle now event).1.Dropped k) :
    (c.planned now event).cookie ≠ some k := by
  intro h
  have hr := context_cookie hc.received_settled (planned_cookie_some h).1
  rw [← handle_requestedCookie] at hr
  exact hd.requested hr

theorem dropped_step (hc : CookieInv c) (hl : ∃ s, c.settings = .loaded s)
    (hk : c.LeavesCookie k now event)
    (hset : ∀ j, event ≠ .settings (.setApiCookie j)) (hd : c.Dropped k) :
    (c.handle now event).1.Dropped k := by
  obtain ⟨s, hs⟩ := hl
  have hrot : c.mam.rotates event ≠ some k := fun h => hd.inUse (hk.issued h)
  obtain ⟨s', hs', hk'⟩ := received_cookie c now event hs (hc.started (by rw [hs]; simp))
  have hr' : (c.received now event).context.requestedCookie = s'.apiCookie.requested := by
    simp only [Core.context, hs', SettingsState.toLoaded, Option.bind_some]
  have hr : c.context.requestedCookie = s.apiCookie.requested := by
    simp only [Core.context, hs, SettingsState.toLoaded, Option.bind_some]
  refine dropped_of_received ?_ hd.inUse ?_
  · rw [hr', hk']
    obtain h | ⟨-, h⟩ | ⟨j, hev⟩ | ⟨hev, hp, h⟩ | ⟨j, hj, h⟩ := cookieAfter_requested c event s.apiCookie
    · rw [h, ← hr]
      exact hd.requested
    · rw [h]
      exact Option.some_ne_none k |>.symm
    · exact absurd hev (hset j)
    · rw [h]
      exact fun hsaved => hd.inUse (hk.fallback s hs hev hp hsaved)
    · rw [h, ← hj]
      exact hrot
  · rw [received_issued]
    cases hj : c.mam.rotates event with
    | none => exact hd.issued
    | some j =>
      rw [← hj]
      rw [hj] at hrot ⊢
      exact hrot

/-- Once the event is handled, a refusal that blocks the cookie in use keeps the
step from using it. -/
theorem refused_of_received {rejection : SessionRejection} {seen : Option IpObservation}
    (hc : CookieInv c)
    (hu : c.mam.cookieInUse = some k) (hk : c.LeavesCookie k now event)
    (hb : ∀ observed : Option IpObservation, (∀ o, observed = some o → rejection.appliesTo seen o) →
      (c.received now event).mam.session.blocks observed)
    (hcur : ∀ o, (c.received now event).mam.network.current = some o → rejection.appliesTo seen o)
    (hslot : ∀ slot, c.mam.slotAfter now event = some slot → ¬ slot.usesCookie c.mam.epoch) :
    (c.handle now event).1.Refused k rejection seen ∧ (c.planned now event).cookie ≠ some k ∨
      (c.handle now event).1.Dropped k := by
  obtain ⟨hu', hf⟩ | hd := inUse_step hc hu
  · left
    have hgate : ¬ ((c.received now event).mam.gate = .open' ∧
        (c.received now event).mam.gateFor (c.received now event).context = .closed) := by
      rw [(received_mam_frame c now event).1]
      exact hk.gate hu
    have hsession :=
      connect_session now (c.received now event).mam (c.received now event).context hgate hf
    have hnetwork : (c.connected now event).network = (c.received now event).mam.network := by
      obtain ⟨hg, -⟩ | ⟨-, h⟩ :=
        connect_network now (c.received now event).mam (c.received now event).context
      · exact absurd hg hgate
      · exact h
    have hplan : (c.planned now event).cookie = none := by
      cases hp : (c.planned now event).cookie with
      | none => rfl
      | some j =>
        have hno := (planned_cookie_some hp).2
        rw [hnetwork, Core.connected, hsession, hb _ hcur] at hno
        cases hno
    refine ⟨⟨hu', ?_, ?_, slotUnused_step now event hc hslot hplan⟩, by rw [hplan]; simp⟩
    · rw [(handle_cookies c now event).2.2.2.1, Core.connected, hsession]
      exact hb
    · intro o ho
      obtain h | h := handle_current c now event
      · rw [h] at ho
        cases ho
      · exact hcur o (h ▸ ho)
  · exact .inr hd

theorem barred_of_received {rejection : SessionRejection} {seen : Option IpObservation} (hc : CookieInv c)
    (hl : ∃ s, c.settings = .loaded s)
    (hs : ∀ at', c.mam.outstanding ≠ some (.savingRegistration at' k c.mam.epoch))
    (h : (c.handle now event).1.Refused k rejection seen ∧ (c.planned now event).cookie ≠ some k ∨
      (c.handle now event).1.Dropped k) :
    (c.handle now event).1.Barred k rejection seen ∧
      ∀ request, .mamRequest request (some k) ∉ (c.handle now event).2 := by
  have hp : (c.planned now event).cookie ≠ some k := by
    obtain ⟨-, hp⟩ | hd := h
    · exact hp
    · exact planned_dropped hc hd
  exact ⟨⟨loaded_step hc hl, saving_barred hc hs hp, h.imp_left And.left⟩, request_barred hs hp⟩

end

/-! ## Runs -/

/-- The step reads a refusal of the cookie its request carried. A session that may
not register the seedbox may still do the rest. -/
def Handled.Refuses (e : Handled) (request : MamRequest) (rejection : SessionRejection) : Prop :=
  e.answer = some (request, .error (.session rejection)) ∧
  ¬ (rejection = .notAllowed ∧ request = .registerSeedbox)

/-- The refusal is noted: it answers a request of this connection, and the IP MAM
sees is confirmed where the refusal is tied to it. -/
def Handled.NotesRefusal (e : Handled) (rejection : SessionRejection) : Prop :=
  (∀ slot ∈ e.before.mam.outstanding, slot.epoch = e.before.mam.epoch) ∧
    (rejection.isTied → e.before.mam.network.current.isSome)

def Event.suppliesCookie : Event → Bool
  | .settings (.setApiCookie _) => true
  | _ => false

def Handled.shown (e : Handled) : Option IpObservation :=
  match e.answer with
  | some (.lookUpIp, .ok (.ip observed)) => some observed
  | _ => none

/-- The owner supplies a cookie, or MAM sees another IP or ASN than the refusal is
tied to. -/
def Handled.lifts (e : Handled) (rejection : SessionRejection) (seen : Option IpObservation) : Bool :=
  e.input.event.suppliesCookie || e.shown.any fun observed => !rejection.appliesTo seen observed

theorem lifts_eq_false {e : Handled} {rejection : SessionRejection} {seen : Option IpObservation}
    (h : e.lifts rejection seen = false) : (∀ k, e.input.event ≠ .settings (.setApiCookie k)) ∧
      ∀ observed, e.answer = some (.lookUpIp, .ok (.ip observed)) →
      rejection.appliesTo seen observed := by
  rw [Handled.lifts, Bool.or_eq_false_iff] at h
  constructor
  · intro k hk
    rw [hk] at h
    cases h.1
  · intro observed ho
    simpa [Handled.shown, ho] using h.2

section
variable {c : Core} {i : TimedEvent} {k : ApiCookie} {rejection : SessionRejection}
  {seen : Option IpObservation}

theorem barred_step (hc : CookieInv c) (h : c.Barred k rejection seen)
    (hk : c.LeavesCookie k i.occurredAt i.event)
    (hlift : Handled.lifts (core.entry c i) rejection seen = false) :
    (core.step c i).1.Barred k rejection seen ∧ ∀ request,
    .mamRequest request (some k) ∉ (core.step c i).2 := by
  refine barred_of_received hc h.loaded h.saving ?_
  obtain hr | hd := h.cookie
  · have hunused : c.mam.sessionAfter i.occurredAt i.event = c.mam.session := by
      unfold Mam.sessionAfter
      split
      · next request sent epoch hm =>
        exact if_neg fun hcur => hr.unused _ hm hcur
      · rfl
    refine refused_of_received hc hr.inUse hk ?_ ?_ fun slot => slotAfter_unused hr.unused
    · rw [received_session, hunused]
      exact hr.blocks
    · intro o ho
      obtain h' | h' | ⟨o', hacc, h'⟩ := received_current c i.occurredAt i.event
      · rw [h'] at ho
        cases ho
      · exact hr.current o (h' ▸ ho)
      · rw [h'] at ho
        cases ho
        exact (lifts_eq_false hlift).2 o hacc
  · exact .inr (dropped_step hc h.loaded hk (lifts_eq_false hlift).1 hd)

/-- The step that reads a refusal bars the cookie the refused request carried. -/
theorem refusal_barred {request : MamRequest} (hc : CookieInv c) (ha : c.Awaits k seen)
    (href : Handled.Refuses (core.entry c i) request rejection)
    (hnote : Handled.NotesRefusal (core.entry c i) rejection)
    (hk : c.LeavesCookie k i.occurredAt i.event) (hset : ∀ j, i.event ≠ .settings (.setApiCookie j)) :
    (core.step c i).1.Barred k rejection seen ∧ ∀ request,
    .mamRequest request (some k) ∉ (core.step c i).2 := by
  obtain ⟨hacc, hexc⟩ := href
  have hacc' : c.mam.accepted i.event = some (request, .error (.session rejection)) := hacc
  unfold Mam.accepted at hacc'
  split at hacc'
  · next result rotated request' sent epoch hev hm =>
    split at hacc'
    · cases hacc'
      obtain ⟨hneeds, hcar, hcur⟩ := ha request sent epoch hm
      have hepoch : epoch = c.mam.epoch := hnote.1 (.request request sent epoch) hm
      have hslot : c.mam.slotAfter i.occurredAt i.event = none := by
        rw [hev]
        simp only [Mam.slotAfter, hm]
      have hsession : (c.received i.occurredAt i.event).mam.session =
          .rejected rejection (c.mam.network.current.map fun o => (o.ip, o.asn)) i.occurredAt.wall := by
        rw [received_session, hev]
        simp only [Mam.sessionAfter, hm, hepoch, hneeds, and_self, if_true, Mam.followSession,
          if_neg hexc]
      have hseen : rejection.isTied → c.mam.network.current = seen := by
        intro ht
        obtain hn | hs := hcur
        · have hsome : c.mam.network.current.isSome := hnote.2 ht
          rw [hn] at hsome
          cases hsome
        · exact hs
      -- the refused cookie is still in use, or was replaced while the request was out
      obtain ⟨hl, hu | hd⟩ := hcar hepoch
      · refine barred_of_received hc hl (fun at' h => by rw [hm] at h; cases h) ?_
        refine refused_of_received hc hu hk ?_ ?_ fun slot h => by rw [hslot] at h; cases h
        · intro observed ho
          rw [hsession]
          exact blocks_of_appliesTo hseen ho
        · intro o ho
          obtain h' | h' | ⟨o', hacc', -⟩ := received_current c i.occurredAt i.event
          · rw [h'] at ho
            cases ho
          · obtain hn | hs := hcur
            · rw [h', hn] at ho
              cases ho
            · rw [h', hs] at ho
              exact appliesTo_self ho
          · have : c.mam.accepted i.event = some (request, .error (.session rejection)) := hacc
            rw [this] at hacc'
            cases hacc'
      · refine barred_of_received hc hl (fun at' h => by rw [hm] at h; cases h) ?_
        exact .inr (dropped_step hc hl hk hset hd)
    · cases hacc'
  · cases hacc'

end

/-- A cookie MAM refused is not sent again, until the owner supplies a cookie or
MAM sees another connection than the refusal is tied to. -/
theorem refused_cookie_unused {is : List TimedEvent} {pre sent rest mid post : List Handled}
    {h e f : Handled}
    (hrun : core.run is = pre ++ h :: (sent ++ e :: rest)) {request : MamRequest} {k : ApiCookie}
    (hreq : .mamRequest request (some k) ∈ h.out) (hsent : ∀ g ∈ sent, requests g.out = [])
    {rejection : SessionRejection} (href : e.Refuses request rejection) (hnote : e.NotesRefusal rejection)
    (hrest : e :: rest = mid ++ f :: post)
    (hleave : ∀ g ∈ mid ++ [f], g.before.LeavesCookie k g.input.occurredAt g.input.event)
    (hlift : ∀ g ∈ mid ++ [f], g.lifts rejection h.after.mam.network.current = false)
    (request' : MamRequest) :
    .mamRequest request' (some k) ∉ f.out := by
  have hcut : core.run is = (pre ++ h :: sent) ++ e :: rest := by rw [hrun]; simp
  obtain ⟨js, i, ks, -, -, rfl, hks⟩ := Reactive.run_split core hrun
  obtain ⟨-, -, ls, -, -, -, hls⟩ := Reactive.run_split core hcut
  have hc := cookieInv_last js
  have ha := awaits_sent i.occurredAt i.event hc (savesCarried_last js) hreq
  rw [entry_after] at hlift hks
  generalize ((core.last js).handle i.occurredAt i.event).1.mam.network.current = seen at ha hlift
  obtain ⟨t, j', ⟨htc, hta⟩, rfl⟩ := Reactive.trace_until core
    (I := fun c => CookieInv c ∧ c.Awaits k seen)
    (P := fun g => requests g.out = [])
    (fun c j hI hP => ⟨cookieInv_step j.occurredAt j.event hI.1, awaits_step hI.1 hI.2 hP⟩) hks.symm
    ⟨cookieInv_step i.occurredAt i.event hc, ha⟩ hsent
  rw [entry_after] at hls
  have hmem : core.entry t j' ∈ mid ++ [f] := by
    cases mid with
    | nil => exact List.mem_singleton.mpr (List.cons.inj hrest).1
    | cons g mid =>
      rw [(List.cons.inj hrest).1]
      exact List.mem_cons_self
  have he := refusal_barred htc hta href hnote (hleave _ hmem) (lifts_eq_false (hlift _ hmem)).1
  cases mid with
  | nil =>
    rw [← (List.cons.inj hrest).1]
    exact he.2 request'
  | cons g mid =>
    rw [(List.cons.inj hrest).2] at hls
    obtain ⟨u, x, ⟨huc, hub⟩, rfl⟩ := Reactive.trace_until core
      (I := fun c => CookieInv c ∧ c.Barred k rejection seen)
      (P := fun g => g.before.LeavesCookie k g.input.occurredAt g.input.event ∧
        Handled.lifts g rejection seen = false)
      (fun c x hI hP => ⟨cookieInv_step x.occurredAt x.event hI.1,
        (barred_step hI.1 hI.2 hP.1 hP.2).1⟩) hls.symm
      ⟨cookieInv_step j'.occurredAt j'.event htc, he.1⟩
      (fun g hg => ⟨hleave g (by simp [hg]), hlift g (by simp [hg])⟩)
    have hf : core.entry u x ∈ g :: mid ++ [core.entry u x] := by simp
    exact (barred_step huc hub (hleave _ hf) (hlift _ hf)).2 request'

def attemptSaved : TimedEvent := .after 62 (.mam .registrationAttemptSaved)

def shownAt (seconds : Nat) (ip : IpAddr) (asn : Asn) : TimedEvent :=
  replyAt seconds (.ip { ip := ip, asn := asn, provider := none })

/-- A cookie refused for its ASN is not used when MAM sees another IP of that
ASN. -/
theorem mismatched_cookie_unused : .mamRequest .registerSeedbox (some savedCookie) ∈
      (core.entry (core.last startedEvents) attemptSaved).out ∧
    ∀ request, .mamRequest request (some savedCookie) ∉
      (core.entry (core.last (startedEvents ++ attemptSaved ::
        [failureAt 63 (.session .asnMismatch), wakeAt 361]))
        (shownAt 362 (.v4 2) 1)).out := by
  have hrun := Reactive.run_stretch core startedEvents [failureAt 63 (.session .asnMismatch), wakeAt 361]
    attemptSaved (shownAt 362 (.v4 2) 1)
  have hsent : .mamRequest .registerSeedbox (some savedCookie) ∈
      (core.entry (core.last startedEvents) attemptSaved).out := by decide +kernel
  refine ⟨hsent, @refused_cookie_unused _ _ [] _ [_,
    _] [] _ _ _ hrun _ _ hsent (by simp) .asnMismatch ?_ ?_ rfl ?_ ?_⟩
  · unfold Handled.Refuses
    decide +kernel
  · unfold Handled.NotesRefusal
    decide +kernel
  · intro g hg
    simp only [List.cons_append, List.nil_append, List.mem_cons, List.not_mem_nil, or_false] at hg
    obtain rfl | rfl | rfl := hg
    · exact leavesCookie_of_inUse (by decide +kernel) (by unfold Core.closesGate; decide +kernel)
    · exact leavesCookie_of_inUse (by decide +kernel) (by unfold Core.closesGate; decide +kernel)
    · exact leavesCookie_of_inUse (by decide +kernel) (by unfold Core.closesGate; decide +kernel)
  · decide +kernel

def refusedThenPaused : List TimedEvent :=
  [failureAt 63 (.session .invalidCookie), .after 64 (.mamPause (.set .paused)),
    .after 64 (.mamPause .written),
    .after 65 (.mamPause (.set .enabled)), .after 65 (.mamPause .written), wakeAt 120]

/-- A pause makes Windlass use a cookie MAM has refused. -/
theorem refused_cookie_used_again : ∃ (pre rest mid : List Handled) (h e f : Handled),
    core.run (startedEvents ++ attemptSaved :: (refusedThenPaused ++ [shownAt 121 (.v4 1) 1])) =
      pre ++ h :: ([] ++ e :: rest) ∧
    .mamRequest .registerSeedbox (some savedCookie) ∈ h.out ∧ e.Refuses .registerSeedbox .invalidCookie ∧
    e :: rest = mid ++ [f] ∧
      (∀ g ∈ mid ++ [f], g.lifts .invalidCookie h.after.mam.network.current = false) ∧
    .mamRequest (.loadUserData .include') (some savedCookie) ∈ f.out := by
  refine ⟨_, _, core.trace _ refusedThenPaused, _, _, _,
    Reactive.run_stretch core startedEvents refusedThenPaused attemptSaved (shownAt 121 (.v4 1) 1),
    ?_, ?_, rfl, ?_, ?_⟩
  · decide +kernel
  · unfold Handled.Refuses
    decide +kernel
  · decide +kernel
  · decide +kernel

end Windlass
