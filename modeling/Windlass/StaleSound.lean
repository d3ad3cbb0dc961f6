import Windlass.CookieSound
import Windlass.PurchaseSound

/-!
# Answers from an earlier connection

A request in flight belongs to the connection it was sent on. While that is still the
connection in use the gate has stayed open, so a pause, lost protection or another
cookie leaves the request behind, and what it is answered changes nothing.
-/

namespace Windlass

open Reactive

/-! ## A stale answer -/

section
variable {m : Mam} {request : MamRequest} {sent : Instant} {epoch : ConnectionEpoch}

/-- The content of an answer to a request of an earlier connection is not looked at. -/
theorem stale_answered (h : m.outstanding = some (.request request sent epoch)) (he : epoch ≠ m.epoch)
    (hr : request.recordsSpend = false) (now : ClockReading) (result : Except MamFailure MamReply)
    (rotated : Option ApiCookie) (registry : Registry) :
    m.requestAnswered now result rotated registry =
      ({ m with outstanding := none }, registry, [], none) := by
  have hcurrent : (epoch == m.epoch) = false := beq_false_of_ne he
  have hnone : (rotated.filter fun _ => false) = none := by cases rotated <;> rfl
  unfold Mam.requestAnswered Mam.answered
  rw [h]
  dsimp only
  rw [hcurrent]
  cases request with
  | buy purchase | fetchTorrent id wedge => cases hr
  | _ => simp [Mam.applyAnswer]

end

section
variable {c : Core} {now : ClockReading} {event event' : Event}

theorem handle_congr (hnote : c.note event = c.note event')
    (hreported : (c.notifications.reported event).2 = (c.notifications.reported event').2)
    (hdispatch : (c.note event).dispatch now event = (c.note event').dispatch now event') :
    c.handle now event = c.handle now event' := by
  unfold Core.handle Core.receive
  rw [hdispatch, hreported, hnote]

variable {request : MamRequest} {sent : Instant} {epoch : ConnectionEpoch}

theorem stale_dispatch (h : c.mam.outstanding = some (.request request sent epoch))
    (he : epoch ≠ c.mam.epoch)
    (hr : request.recordsSpend = false) (result : Except MamFailure MamReply)
    (rotated : Option ApiCookie) :
    c.dispatch now (.mam (.answered result rotated)) =
    ({ c with mam := { c.mam with outstanding := none } }, []) := by
  simp only [Core.dispatch, Core.handleMam, Mam.handle, stale_answered h he hr]
  rfl

theorem stale_handled (h : c.mam.outstanding = some (.request request sent epoch))
    (he : epoch ≠ c.mam.epoch)
    (hr : request.recordsSpend = false) (result result' : Except MamFailure MamReply)
    (rotated rotated' : Option ApiCookie) :
    c.handle now (.mam (.answered result rotated)) =
    c.handle now (.mam (.answered result' rotated')) := by
  have hdispatch :=
    @stale_dispatch (c.note (.mam (.answered result rotated))) now request sent epoch h he hr
  exact handle_congr rfl rfl ((hdispatch result rotated).trans (hdispatch result' rotated').symm)

end

/-! ## The connection of a request in flight -/

/-- The owner supplies another cookie than the one in use; one that MAM issued continues
the connection. -/
def ReplacesCookie (e : Handled) : Prop :=
  ∃ s cookie, e.before.settings = .loaded s ∧ e.input.event = .settings (.setApiCookie cookie) ∧
    some cookie ≠ e.before.mam.cookieInUse ∧ some cookie ≠ e.before.mam.issuedCookie

def Disconnects (e : Handled) : Prop :=
  e.after.state.mamRequests ≠ .running ∨ e.after.context.protection = .isUnprotected ∨ ReplacesCookie e

theorem updateMamPreference_pauses (p : MamPreferenceState) {change : MamPreferenceUpdate}
    (h : change.mode = .paused) :
    (p.updateMamPreference change).1.status ≠ .running := by
  unfold MamPreferenceState.updateMamPreference
  dsimp only
  split
  · next hp => simp [MamPreferenceState.status, h, hp]
  · split <;> simp [MamPreferenceState.status, h]

/-- A pause the owner asks for is one, by setting the preference or deleting it. -/
theorem pause_disconnects (c : Core) {i : TimedEvent}
    (h : i.event = .mamPause (.set .paused) ∨ i.event = .mamPause .delete) :
    Disconnects (core.entry c i) := by
  have hpauses : ∀ change : MamPreferenceUpdate, change.mode = .paused →
      (c.state.updateMamPreference change).1.mamRequests ≠ .running := by
    intro change hchange
    cases c.state with
    | ready preference => exact updateMamPreference_pauses preference hchange
    | _ => exact nofun
  refine .inl ?_
  rw [entry_after, (handle_frame c i.occurredAt i.event).1, received_state]
  obtain h | h := h
  · rw [h]
    exact hpauses (.set .paused) rfl
  · rw [h]
    exact hpauses .delete rfl

structure ConnectionInv (c : Core) : Prop where
  cookie : CookieInv c
  gate : c.mam.gate = .open' ↔ c.RequestsAllowed
  slot : ∀ slot, c.mam.outstanding = some slot → slot.epoch = c.mam.epoch → c.mam.gate = .open'

theorem connectionInv_init : ConnectionInv Core.new where
  cookie := cookieInv_init
  gate := gateInv_init.gate
  slot := by
    intro slot h
    cases h

section
variable {c : Core} {now : ClockReading} {event : Event}

/-- What is outstanding once the event is handled was outstanding before it, on the
same connection. -/
theorem slotAfter_before {m : Mam} {slot : Outstanding} (h : m.slotAfter now event = some slot) :
    ∃ slot', m.outstanding = some slot' ∧ slot'.epoch = slot.epoch := by
  unfold Mam.slotAfter at h
  split at h
  · next hm =>
    split at h
    · cases h
    · cases h
      exact ⟨_, hm, rfl⟩
  · cases h
  · cases h
  · exact ⟨slot, h, rfl⟩

theorem connectionInv_step (hc : ConnectionInv c) : ConnectionInv (c.handle now event).1 where
  cookie := cookieInv_step now event hc.cookie
  gate := handle_gate_iff c now event
  slot := by
    intro slot hs he
    obtain ⟨hle, hclosing⟩ := epoch_step c now event
    cases hslot : c.mam.slotAfter now event with
    | some slot' =>
      obtain ⟨before, hb, hepoch⟩ := slotAfter_before hslot
      rw [(slot_taken c now event hslot).1] at hs
      obtain rfl : slot' = slot := Option.some.inj hs
      have hcurrent : before.epoch = c.mam.epoch :=
        le_antisymm (hc.cookie.slot before hb) (by rw [hepoch, he]; exact hle)
      cases hg : (c.handle now event).1.mam.gate with
      | open' => rfl
      | closed =>
        have hlt := hclosing (hc.slot before hb hcurrent) hg
        rw [← he, ← hepoch, hcurrent] at hlt
        exact absurd hlt (lt_irrefl _)
    | none =>
      obtain ⟨hn, -⟩ | ⟨k, -, hg, -⟩ | ⟨r, -, hg, -⟩ := slot_empty c now event hslot
      · rw [hn] at hs
        cases hs
      · exact hg
      · exact hg

end

theorem connectionInv_last (is : List TimedEvent) : ConnectionInv (core.last is) :=
  last_invariant core connectionInv_init (fun _ _ h => connectionInv_step h) is

section
variable {c : Core} {i : TimedEvent} {request : MamRequest} {sent : Instant} {epoch : ConnectionEpoch}

theorem replaced_epoch (hc : CookieInv c) (h : ReplacesCookie (core.entry c i)) :
    c.mam.epoch < (c.handle i.occurredAt i.event).1.mam.epoch := by
  obtain ⟨s, cookie, hs, hev, huse, hissue⟩ := h
  rw [entry_before] at hs huse hissue
  rw [entry_input] at hev
  obtain ⟨-, hepoch, hinuse⟩ := received_mam_frame c i.occurredAt i.event
  obtain ⟨s', hs', hcookie⟩ := received_cookie c i.occurredAt i.event hs (hc.started (by rw [hs]; simp))
  have hrequested : (c.received i.occurredAt i.event).context.requestedCookie = some cookie := by
    rw [received_requested hs', hcookie, hev]
    exact request_requested _ _
  have hissued : (c.received i.occurredAt i.event).mam.issuedCookie = c.mam.issuedCookie := by
    rw [received_issued, hev]
    rfl
  have hkept : ¬ ((c.received i.occurredAt i.event).context.requestedCookie =
        (c.received i.occurredAt i.event).mam.cookieInUse ∨
      (c.received i.occurredAt i.event).context.requestedCookie =
      (c.received i.occurredAt i.event).mam.issuedCookie) := by
    rw [hrequested, hinuse, hissued]
    exact not_or.mpr ⟨huse, hissue⟩
  obtain ⟨-, -, h⟩ | ⟨hr, -⟩ | ⟨hr, -⟩ :=
    connect_cookie_cases (c.received i.occurredAt i.event).mam i.occurredAt
    (c.received i.occurredAt i.event).context
  · have hg := (followGate_epoch ((c.received i.occurredAt i.event).mam.remind i.occurredAt).1
      (c.received i.occurredAt i.event).context).1
    rw [remind_epoch, hepoch] at hg
    rw [(handle_cookies c i.occurredAt i.event).2.2.1, Core.connected, h]
    exact Nat.lt_succ_of_le hg
  · exact absurd hr hkept
  · exact absurd hr hkept

/-- A pause, lost protection or another cookie leaves the request in flight behind. -/
theorem disconnected_epoch (hc : ConnectionInv c)
    (h : c.mam.outstanding = some (.request request sent epoch))
    (ha : i.event.isAnswer = false) (hd : Disconnects (core.entry c i)) :
    epoch < (c.handle i.occurredAt i.event).1.mam.epoch := by
  have hafter := @connectionInv_step c i.occurredAt i.event hc
  have hslot := (unanswered_step i.occurredAt h ha).1
  have hclosed (hg : (c.handle i.occurredAt i.event).1.mam.gate ≠ .open') :
      epoch < (c.handle i.occurredAt i.event).1.mam.epoch :=
    lt_of_le_of_ne (hafter.cookie.slot _ hslot) fun he => hg (hafter.slot _ hslot he)
  obtain hpaused | hlost | hreplaced := hd
  · exact hclosed fun hg => hpaused (hafter.gate.mp hg).2.1
  · refine hclosed fun hg => ?_
    have hprotected := (isProtected_iff _).mpr (hafter.gate.mp hg).2.2
    rw [entry_after] at hlost
    rw [hlost] at hprotected
    cases hprotected
  · exact lt_of_le_of_lt (hc.cookie.slot _ h) (replaced_epoch hc.cookie hreplaced)

end

/-- A request that stays unanswered stays in flight, on the connection it was sent on. -/
theorem left_behind {c : Core} {request : MamRequest} {sent : Instant} {epoch : ConnectionEpoch}
    (hc : ConnectionInv c)
    (h : c.mam.outstanding = some (.request request sent epoch)) {ks : List TimedEvent}
    (hno : ∀ g ∈ core.trace c ks, g.input.event.isAnswer = false) :
    (core.final c ks).mam.outstanding = some (.request request sent epoch) ∧
      c.mam.epoch ≤ (core.final c ks).mam.epoch ∧
      ∀ d ∈ core.trace c ks, Disconnects d → epoch < (core.final c ks).mam.epoch := by
  -- on the steps since; the epoch never goes back, and a disconnection moves it on
  induction ks generalizing c with
  | nil => exact ⟨h, le_rfl, fun d hd => absurd hd List.not_mem_nil⟩
  | cons i ks ih =>
    have hi : i.event.isAnswer = false := hno (core.entry c i) List.mem_cons_self
    have hinv : ConnectionInv (core.step c i).1 := @connectionInv_step c i.occurredAt i.event hc
    have hflight : (core.step c i).1.mam.outstanding = some (.request request sent epoch) :=
      (unanswered_step i.occurredAt h hi).1
    have hmono : c.mam.epoch ≤ (core.step c i).1.mam.epoch := (epoch_step c i.occurredAt i.event).1
    obtain ⟨hout, hle, hdis⟩ := ih hinv hflight fun g hg => hno g (List.mem_cons_of_mem _ hg)
    refine ⟨hout, hmono.trans hle, fun d hd hends => ?_⟩
    obtain hfirst | hlater := List.mem_cons.mp hd
    · have hlt : epoch < (core.step c i).1.mam.epoch := disconnected_epoch hc h hi (hfirst ▸ hends)
      exact lt_of_lt_of_le hlt hle
    · exact hdis d hlater hends

/-- Two runs that differ only in what a request of an earlier connection is answered do the
same: the request, neither a purchase nor a download, was sent before a pause, lost
protection or another cookie was handled. -/
theorem stale_answers_ignored {js ks : List TimedEvent} {pre mid : List Handled} {b d : Handled}
    {request : MamRequest}
    (hrun : core.run js = pre ++ b :: mid) (hsent : Sends b request)
    (hspend : request.recordsSpend = false)
    (hunanswered : ∀ g ∈ mid, g.input.event.isAnswer = false) (hd : d ∈ mid) (hends : Disconnects d)
    (at' : ClockReading) (result result' : Except MamFailure MamReply)
    (rotated rotated' : Option ApiCookie) :
    (core.run (js ++ { occurredAt := at',
                       event := .mam (.answered result rotated) } :: ks)).map Entry.effect =
      (core.run (js ++ { occurredAt := at',
                         event := .mam (.answered result' rotated') } :: ks)).map Entry.effect := by
  obtain ⟨js', i, ks', rfl, -, rfl, rfl⟩ := run_split core hrun
  obtain ⟨cookie, hsent⟩ := hsent
  obtain ⟨-, epoch, hflight⟩ := sent_step hsent
  have hinv : ConnectionInv (core.entry (core.last js') i).after :=
    @connectionInv_step (core.last js') i.occurredAt i.event (connectionInv_last js')
  obtain ⟨hout, -, hdis⟩ := left_behind hinv hflight hunanswered
  refine run_effects core ?_
  rw [last_cut]
  exact stale_handled hout (hdis d hd hends).ne hspend result result' rotated rotated'

/-- What an IP lookup from before the pause is answered makes no difference. -/
theorem paused_lookup_ignored :
    (core.run (startedEvents.take 8 ++ .after 60 (.timerExpired .mam 0) :: ([] ++ [pauseEvent]) ++
        replyAt 63 (.ip { ip := .v4 2, asn := 2, provider := none }) :: resumeEvents)).map Entry.effect =
      (core.run (startedEvents.take 8 ++ .after 60 (.timerExpired .mam 0) :: ([] ++ [pauseEvent]) ++
        failureAt 63 .unreachable :: resumeEvents)).map Entry.effect := by
  have hrun := run_stretch core (startedEvents.take 8) [] (.after 60 (.timerExpired .mam 0)) pauseEvent
  have hsent : Sends (core.entry (core.last (startedEvents.take 8))
      (.after 60 (.timerExpired .mam 0))) .lookUpIp :=
    ⟨none, by decide +kernel⟩
  exact stale_answers_ignored hrun hsent rfl (by decide +kernel)
    (List.mem_append_right _ (List.mem_singleton_self _))
    (pause_disconnects _ (.inl rfl)) _ _ _ _ _

end Windlass
