import Windlass.DownloadSound

/-!
# The client list and purchases

The time that spaces the client list is written down when a list arrives, so the
list is asked for at most every half hour as long as each answer to a reading
with the list brings it. Purchases wait for the outcome of the one before and
for a reading asked for after that outcome was known.
-/

namespace Windlass

/-! ## A request in flight -/

theorem slotAfter_unanswered {m : Mam} {now : ClockReading} {event : Event} {request : MamRequest}
    {sent : Instant}
    {epoch : ConnectionEpoch} (h : m.outstanding = some (.request request sent epoch))
    (ha : event.isAnswer = false) : m.slotAfter now event = some (.request request sent epoch) := by
  unfold Mam.slotAfter
  split
  · next heq =>
    rw [h] at heq
    cases heq
  · next heq =>
    rw [h] at heq
    cases heq
  · cases ha
  · exact h

theorem sentAtOnce_of_request {m : Mam} {event : Event} {request : MamRequest} {sent : Instant}
    {epoch : ConnectionEpoch} (h : m.outstanding = some (.request request sent epoch)) :
    m.sentAtOnce event = [] := by
  unfold Mam.sentAtOnce
  split
  · next heq =>
    rw [h] at heq
    cases heq
  · rfl

theorem unanswered_step {c : Core} (now : ClockReading) {event : Event} {request : MamRequest}
    {sent : Instant}
    {epoch : ConnectionEpoch} (h : c.mam.outstanding = some (.request request sent epoch))
    (ha : event.isAnswer = false) :
    (c.handle now event).1.mam.outstanding = some (.request request sent epoch) ∧
      requests (c.handle now event).2 = [] := by
  obtain ⟨ho, hreq, -⟩ := slot_taken c now event (slotAfter_unanswered h ha)
  rw [sentAtOnce_of_request h] at hreq
  exact ⟨ho, hreq⟩

theorem sent_step {c : Core} {now : ClockReading} {event : Event} {request : MamRequest}
    {cookie : Option ApiCookie}
    (h : .mamRequest request cookie ∈ (c.handle now event).2) :
    requests (c.handle now event).2 = [(request, cookie)] ∧
      ∃ epoch, (c.handle now event).1.mam.outstanding = some (.request request now.monotonic epoch) := by
  rw [← mem_requests] at h
  cases hslot : c.mam.slotAfter now event with
  | some slot =>
    obtain ⟨ho, hr, -⟩ := slot_taken c now event hslot
    rw [hr] at h ⊢
    unfold Mam.sentAtOnce at h ⊢
    split at h
    · next at' k epoch hm =>
      split at h
      · cases h
      · next he =>
        rw [List.mem_singleton] at h
        cases h
        rw [ho, ← hslot]
        simp [Mam.slotAfter, hm, he]
    · cases h
  | none =>
    obtain ⟨-, hr, -⟩ | ⟨k, -, -, -, hr, -⟩ | ⟨r, ho, -, -, hr, -⟩ := slot_empty c now event hslot
    · rw [hr] at h
      cases h
    · rw [hr] at h
      cases h
    · rw [hr, List.mem_singleton] at h
      cases h
      exact ⟨hr, (c.handle now event).1.mam.epoch, ho⟩

theorem isAnswer_iff {event : Event} :
    event.isAnswer ↔ ∃ result rotated, event = .mam (.answered result rotated) := by
  constructor
  · intro h
    unfold Event.isAnswer at h
    split at h
    · exact ⟨_, _, rfl⟩
    · cases h
  · rintro ⟨result, rotated, rfl⟩
    rfl

theorem answered_slot {m : Mam} {now : ClockReading} {event : Event} {request : MamRequest}
    {sent : Instant}
    {epoch : ConnectionEpoch} (h : m.outstanding = some (.request request sent epoch))
    (ha : event.isAnswer) :
    m.slotAfter now event = none := by
  obtain ⟨result, rotated, rfl⟩ := isAnswer_iff.mp ha
  simp [Mam.slotAfter, h]

/-- A request is in flight because it was and the step sent nothing, or because
the step sent it. -/
theorem outstanding_sent {c : Core} {now : ClockReading} {event : Event} {request : MamRequest}
    {sent : Instant}
    {epoch : ConnectionEpoch}
    (h : (c.handle now event).1.mam.outstanding = some (.request request sent epoch)) :
    c.mam.outstanding = some (.request request sent epoch) ∧ requests (c.handle now event).2 = [] ∨
      sent = now.monotonic ∧ ∃ cookie, .mamRequest request cookie ∈ (c.handle now event).2 := by
  obtain hb | hs := outstanding_step h
  · by_cases ha : event.isAnswer
    · obtain ⟨ho, -⟩ | ⟨k, ho, -⟩ | ⟨r, ho, -, -, hr, -⟩ := slot_empty c now event (answered_slot hb ha)
      · rw [ho] at h
        cases h
      · rw [ho] at h
        cases h
      · rw [ho] at h
        cases h
        refine .inr ⟨rfl, (c.planned now event).cookie.filter fun _ => request.needsCookie, ?_⟩
        rw [← mem_requests, hr]
        exact List.mem_singleton_self _
    · exact .inl ⟨hb, (unanswered_step now hb (by simpa using ha)).2⟩
  · exact .inr hs

theorem sentAtOnce_register {m : Mam} {event : Event} {request : MamRequest} {cookie : Option ApiCookie}
    (h : (request, cookie) ∈ m.sentAtOnce event) : request = .registerSeedbox := by
  unfold Mam.sentAtOnce at h
  split at h
  · split at h
    · cases h
    · rw [List.mem_singleton] at h
      cases h
      rfl
  · cases h

/-- What a step leaves of the MAM work it prepared: the request it chose, if any,
is recorded as sent. -/
theorem handle_recorded (c : Core) (now : ClockReading) (event : Event) :
    (requests (c.handle now event).2 = c.mam.sentAtOnce event ∧ ∃ budget slot wake,
      (c.handle now event).1.mam =
        { c.prepared now event with
          budget := budget, outstanding := slot, wake := wake, lease := .notRequested, notices := [] }) ∨
    ∃ request, (c.prepared now event).wanted now (c.received now event).context.reserve
    (c.planned now event) =
        some (.request request) ∧
      requests (c.handle now event).2 =
        [(request, (c.planned now event).cookie.filter fun _ => request.needsCookie)] ∧
      ∃ budget slot wake, (c.handle now event).1.mam =
        { (c.prepared now event).recordSent now request (c.received now event).registry with
          budget := budget, outstanding := slot, wake := wake, lease := .notRequested, notices :=
            [] } := by
  obtain ⟨wake, hmam⟩ := handle_mam c now event
  have hreq := handle_requests c now event
  rw [dispatch_requests] at hreq
  obtain hq | ⟨-, hnone, ⟨k, budget, -, -, hq⟩ | ⟨r, budget, hw, hq⟩⟩ :=
    send_cases (c.prepared now event) now (c.received now event).context (c.planned now event)
  · have hq' : c.sending now event = _ := hq
    rw [hq'] at hmam hreq
    exact .inl ⟨hreq.trans (List.append_nil _), (c.prepared now event).budget,
      (c.prepared now event).outstanding, wake, hmam⟩
  · have hq' : c.sending now event = _ := hq
    rw [hq'] at hmam hreq
    exact .inl ⟨hreq.trans (List.append_nil _), budget, _, wake, hmam⟩
  · have hq' : c.sending now event = _ := hq
    rw [hq'] at hmam hreq
    rw [prepared_outstanding, received_outstanding] at hnone
    rw [sentAtOnce_empty now event hnone] at hreq
    exact .inr ⟨r, hw, hreq, budget, _, wake, hmam⟩

/-- An answer to the request in flight is applied to the work with the slot
emptied and the session followed; MAM may issue a cookie with it. -/
theorem requestAnswered_eq {m : Mam} {request : MamRequest} {sent : Instant} {epoch : ConnectionEpoch}
    (h : m.outstanding = some (.request request sent epoch)) (now : ClockReading)
    (result : Except MamFailure MamReply) (rotated : Option ApiCookie) (registry : Registry) :
    ∃ session issued,
      (m.requestAnswered now result rotated registry).1 =
        { (Mam.applyAnswer { m with outstanding := none,
                                    session := session } now request result (epoch == m.epoch)
            registry).1 with
          issuedCookie := issued } ∧
      (m.requestAnswered now result rotated registry).2.1 =
        (Mam.applyAnswer { m with outstanding := none,
                                  session := session } now request result (epoch == m.epoch)
          registry).2.1 ∧
      (m.requestAnswered now result rotated registry).2.2.1 =
        (Mam.applyAnswer { m with outstanding := none,
                                  session := session } now request result (epoch == m.epoch)
          registry).2.2 := by
  unfold Mam.requestAnswered
  rw [h]
  dsimp only
  unfold Mam.answered
  split
  · rw [followSession_frame]
    exact ⟨_, _, rfl, rfl, rfl⟩
  · exact ⟨m.session, _, rfl, rfl, rfl⟩

/-! ## What the account keeps of an answer -/

section
variable {c : Core} {now : ClockReading} {event : Event}

theorem settle_frame (a : Account) (data : UserData) :
    (a.settle data).1 = { a with lastPurchase := (a.settle data).1.lastPurchase } := by
  unfold Account.settle
  split
  · split <;> rfl
  · rfl

theorem read_frame (a : Account) (now : Instant) (wall : SystemTime) (data : UserData) :
    (a.read now wall data).1 =
      { a with
        lastPurchase := (a.settle data).1.lastPurchase
        clientStatsRead := if data.clients.isSome then some now else a.clientStatsRead
        clientList := (a.read now wall data).1.clientList
        reading := some { data := data, at' := wall, taken := now }
        failures := FailureCount.none
        lastFailure := none
        nextRead := now.checkedAdd accountReadEvery } := by
  have h := settle_frame a data
  unfold Account.read
  generalize a.settle data = settled at h ⊢
  obtain ⟨b, outcome⟩ := settled
  dsimp only at h ⊢
  rw [h]

theorem answered_clientStats (a : Account) (answer : Answer) :
    (a.answered now answer).clientStatsRead = some now.monotonic ∨
      (a.answered now answer).clientStatsRead = a.clientStatsRead := by
  unfold Account.answered
  split
  · rw [read_frame]
    dsimp only
    split
    · exact .inl rfl
    · exact .inr rfl
  · exact .inr rfl
  · exact .inr rfl
  · exact .inr rfl

theorem received_clientStats (c : Core) (now : ClockReading) (event : Event) :
    (c.received now event).mam.account.clientStatsRead = some now.monotonic ∨
      (c.received now event).mam.account.clientStatsRead = c.mam.account.clientStatsRead := by
  obtain h | ⟨sale, -, h⟩ := (received_receives c now event).account
  · rw [h]
    exact answered_clientStats c.mam.account (c.mam.accepted event)
  · rw [h, account_checked_frame]
    exact .inr rfl

theorem handle_clientStats (c : Core) (now : ClockReading) (event : Event) :
    (c.handle now event).1.mam.account.clientStatsRead =
    (c.received now event).mam.account.clientStatsRead := by
  rw [handle_account]

theorem include_cases {cookie : Option ApiCookie} {read : Instant}
    (h : .mamRequest (.loadUserData .include') cookie ∈ (c.handle now event).2)
    (hr : (c.received now event).mam.account.clientStatsRead = some read) :
    read + clientStatsEvery ≤ now.monotonic := by
  obtain ⟨-, hreq, -⟩ | ⟨-, -, hw, -⟩ := request_cases h
  · cases hreq
  · obtain ⟨hreq, -⟩ | ⟨clients, hreq, hd⟩ | ⟨_, hreq, -⟩ | ⟨_, _, hreq, -⟩ | hd | ⟨records, -, hd⟩ :=
      decision_cases hw
    · cases hreq
    · cases hreq
      have hs : (c.surveyed now event).account.clientStatsRead = some read := by
        rw [surveyed_account]
        exact hr
      unfold Account.wanted at hd
      rw [hs, Option.all_some] at hd
      split at hd
      · cases hd
      · simp only at hd
        split at hd
        · split at hd
          · next hge =>
            rw [decide_eq_true_eq] at hge
            exact Instant.add_le_of_durationSince (by decide) hge
          · cases hd
        · cases hd
    · cases hreq
    · cases hreq
    · obtain ⟨_, _, -, ⟨hreq, -⟩ | ⟨hreq, -⟩ | ⟨hreq, -⟩⟩ := watchNext_cases hd <;> cases hreq
    · obtain ⟨_, _, -, -, hadmit⟩ := next_cases hd
      obtain ⟨hreq, -⟩ | ⟨_, -, ⟨hreq, -⟩ | ⟨hreq, -⟩⟩ | ⟨hreq, -⟩ | ⟨hreq, -⟩ := admit_cases hadmit <;>
        cases hreq

end

/-! ## Where the request in flight and the reading in force come from -/

def SentBy (tr : List Handled) (request : MamRequest) (sent : Instant) : Prop :=
  ∃ (pre post : List Handled) (h : Handled),
  tr = pre ++ h :: post ∧ Sends h request ∧ h.time = sent ∧ ∀ g ∈ post, requests g.out = []

def Handled.Reads (e : Handled) (clients : ClientListing) (data : UserData) : Prop :=
  e.answer = some (.loadUserData clients, .ok (.userData data))

/-- The step that asked for a reading and the one it came with; nothing was sent
in between, and no reading came since. -/
structure ReadBy (tr : List Handled) (reading : Reading) (pre mid post : List Handled)
    (h r : Handled) : Prop where
  split : tr = pre ++ h :: (mid ++ r :: post)
  asked : ∃ clients, Sends h (.loadUserData clients) ∧ r.Reads clients reading.data
  taken : r.time = reading.taken
  quiet : ∀ g ∈ mid, requests g.out = []
  latest : ∀ g ∈ post, ∀ clients data, ¬ g.Reads clients data

structure SourceInv (tr : List Handled) (c : Core) : Prop where
  outstanding : ∀ request sent epoch, c.mam.outstanding = some (.request request sent epoch) →
    SentBy tr request sent
  reading : ∀ reading, c.mam.account.reading = some reading →
    ∃ pre mid post h r, ReadBy tr reading pre mid post h r

theorem SentBy.snoc {tr : List Handled} {request : MamRequest} {sent : Instant}
    (h : SentBy tr request sent)
    {e : Handled} (he : requests e.out = []) : SentBy (tr ++ [e]) request sent := by
  obtain ⟨pre, post, h, rfl, hs, ht, hq⟩ := h
  refine ⟨pre, post ++ [e], h, by simp, hs, ht, ?_⟩
  intro g hg
  rw [List.mem_append, List.mem_singleton] at hg
  obtain hg | rfl := hg
  · exact hq g hg
  · exact he

theorem ReadBy.snoc {tr pre mid post : List Handled} {reading : Reading} {h r : Handled}
    (hr : ReadBy tr reading pre mid post h r) {e : Handled}
    (he : ∀ clients data, ¬ e.Reads clients data) :
    ReadBy (tr ++ [e]) reading pre mid (post ++ [e]) h r where
  split := by simp [hr.split]
  asked := hr.asked
  taken := hr.taken
  quiet := hr.quiet
  latest := by
    intro g hg
    rw [List.mem_append, List.mem_singleton] at hg
    obtain hg | rfl := hg
    · exact hr.latest g hg
    · exact he

theorem received_reading (c : Core) (now : ClockReading) (event : Event) :
    (∃ clients data, c.mam.accepted event = some (.loadUserData clients, .ok (.userData data)) ∧
      (c.received now event).mam.account.reading = some
        { data := data, at' := now.wall, taken := now.monotonic }) ∨
    (∀ clients data, c.mam.accepted event ≠ some (.loadUserData clients, .ok (.userData data))) ∧
      (c.received now event).mam.account.reading = c.mam.account.reading := by
  obtain h | ⟨sale, rfl, h⟩ := (received_receives c now event).account
  · rw [h]
    unfold Account.answered
    split
    · next clients data ha =>
      refine .inl ⟨clients, data, ha, ?_⟩
      rw [read_frame]
    · next ha => exact .inr ⟨by rw [ha]; simp, rfl⟩
    · next ha => exact .inr ⟨by rw [ha]; simp, rfl⟩
    · next hread _ _ => exact .inr ⟨hread, rfl⟩
  · rw [h, account_checked_frame]
    exact .inr ⟨by simp [Mam.accepted], rfl⟩

theorem sourceInv_step {tr : List Handled} {c : Core} {i : TimedEvent} (hi : SourceInv tr c) :
    SourceInv (tr ++ [core.entry c i]) (core.step c i).1 := by
  refine ⟨?_, ?_⟩
  · intro request sent epoch ho
    obtain ⟨hb, hq⟩ | ⟨rfl, hs⟩ := outstanding_sent ho
    · exact (hi.outstanding request sent epoch hb).snoc hq
    · exact ⟨tr, [], core.entry c i, rfl, hs, rfl, by simp⟩
  · intro reading hr
    rw [core_step, handle_account] at hr
    obtain ⟨clients, data, ha, h⟩ | ⟨hno, h⟩ := received_reading c i.occurredAt i.event
    · obtain ⟨sent, epoch, rotated, ho, -⟩ := accepted_outstanding ha
      obtain ⟨pre, mid, g, rfl, hs, -, hq⟩ := hi.outstanding _ _ _ ho
      rw [h] at hr
      cases hr
      exact ⟨pre, mid, [], g, core.entry c i,
        { split := by simp, asked := ⟨clients, hs, ha⟩, taken := rfl, quiet := hq, latest := by simp }⟩
    · rw [h] at hr
      obtain ⟨pre, mid, post, g, r, hread⟩ := hi.reading reading hr
      exact ⟨pre, mid, post ++ [core.entry c i], g, r, hread.snoc hno⟩

theorem sourceInv_init : SourceInv [] Core.new where
  outstanding := by intro request sent epoch h; cases h
  reading := by intro reading h; cases h

theorem sourceInv_run (is : List TimedEvent) : SourceInv (core.run is) (core.last is) :=
  Reactive.run_invariant core (H := fun _ => True) (fun _ _ h => h) sourceInv_init
    (fun _ _ _ hi _ => sourceInv_step hi) is trivial

theorem sends_unique {is : List TimedEvent} {e : Handled} (he : e ∈ core.run is)
    {request request' : MamRequest}
    (h : Sends e request) (h' : Sends e request') : request = request' := by
  obtain ⟨js, i, rfl⟩ := Reactive.mem_run core he
  obtain ⟨cookie, h⟩ := h
  obtain ⟨cookie', h'⟩ := h'
  rw [entry_out, ← mem_requests, (sent_step h).1, List.mem_singleton] at h'
  cases h'
  rfl

theorem Sends.requests_ne_nil {e : Handled} {request : MamRequest} (h : Sends e request) :
    requests e.out ≠ [] := by
  obtain ⟨cookie, h⟩ := h
  exact List.ne_nil_of_mem (mem_requests.mpr h)

/-- A reading taken later than a step that sent something else was asked for after
that step. -/
theorem ReadBy.after {tr pre mid post : List Handled} {reading : Reading} {h r : Handled}
    (hr : ReadBy tr reading pre mid post h r) (hs : Steady tr) {pre' rest : List Handled} {b : Handled}
    (hb : tr = pre' ++ b :: rest) (hreq : requests b.out ≠ []) (hne : b ≠ h)
    (hlt : b.time < reading.taken) :
    ∃ m, pre = pre' ++ b :: m ∧ rest = m ++ h :: (mid ++ r :: post) := by
  have hsplit := hr.split
  rw [hb, List.append_eq_append_iff] at hsplit
  obtain ⟨as, hpre, hrest⟩ | ⟨cs, hpre, hrest⟩ := hsplit
  · cases as with
    | nil => exact absurd (List.cons.inj hrest).1 hne
    | cons x m =>
      obtain ⟨rfl, htail⟩ := List.cons.inj hrest
      exact ⟨m, hpre, htail⟩
  · cases cs with
    | nil => exact absurd (List.cons.inj hrest).1.symm hne
    | cons x cs =>
      obtain ⟨-, hrest⟩ := List.cons.inj hrest
      have hmem : b ∈ mid ++ r :: post := by rw [hrest]; simp
      rw [List.mem_append, List.mem_cons] at hmem
      obtain hmem | rfl | hmem := hmem
      · exact absurd (hr.quiet b hmem) hreq
      · exact absurd hlt (by rw [hr.taken]; exact lt_irrefl _)
      · have hle : r.time ≤ b.time := by
          have hsteady : Steady (r :: post) := by
            have h1 := (List.pairwise_append.mp (hr.split ▸ hs)).2.1
            exact (List.pairwise_append.mp (List.pairwise_cons.mp h1).2).2.1
          exact (List.pairwise_cons.mp hsteady).1 b hmem
        exact absurd hlt (by rw [← hr.taken]; exact not_lt.mpr hle)

/-- Between two steps that send, the request of the first is answered, and the
first answer after it is to that request. -/
theorem answered_between {is : List TimedEvent} {pre mid post : List Handled} {b f : Handled}
    (hrun : core.run is = pre ++ b :: (mid ++ f :: post)) {request : MamRequest} (hb : Sends b request)
    (hf : requests f.out ≠ []) :
    ∃ l g l' epoch, mid ++ [f] = l ++ g :: l' ∧ g.input.event.isAnswer ∧
      g.before.mam.outstanding = some (.request request b.time epoch) := by
  obtain ⟨js, i, ks, -, -, rfl, hpost⟩ := Reactive.run_split core hrun
  obtain ⟨cookie, hb⟩ := hb
  obtain ⟨-, epoch, ho⟩ := sent_step hb
  have hstep : ∀ (c : Core) (j : TimedEvent),
    c.mam.outstanding = some (.request request i.occurredAt.monotonic epoch) →
      (core.entry c j).input.event.isAnswer = false →
      (core.step c j).1.mam.outstanding = some (.request request i.occurredAt.monotonic epoch) :=
    fun c j hc hj => (unanswered_step j.occurredAt hc hj).1
  cases hfind : (mid ++ [f]).find? fun g => g.input.event.isAnswer with
  | some g =>
    obtain ⟨hg, l, l', hsplit, hl⟩ := List.find?_eq_some_iff_append.mp hfind
    have htrace : core.trace (core.step (core.last js) i).1 ks = l ++ g :: (l' ++ post) := by
      rw [← List.cons_append, ← List.append_assoc, ← hsplit, List.append_assoc]
      exact hpost.symm
    obtain ⟨t, j, ht, rfl⟩ :=
      Reactive.trace_until core hstep htrace ho (fun x hx => by simpa using hl x hx)
    exact ⟨l, _, l', epoch, hsplit, hg, ht⟩
  | none =>
    rw [List.find?_eq_none] at hfind
    obtain ⟨t, j, ht, rfl⟩ := Reactive.trace_until core hstep hpost.symm ho
      (fun x hx => by simpa using hfind x (by simp [hx]))
    have hlast : (core.entry t j).input.event.isAnswer = false := by
      simpa using hfind (core.entry t j) (by simp)
    exact absurd (unanswered_step j.occurredAt ht hlast).2 hf

/-! ## The client list is asked for at most every half hour -/

/-- An answer to a reading with the client list keeps its spacing: it comes half
an hour after the reading was asked for, brings the list, or is a failure after
which the next reading waits that long. -/
def clientListKept (e : Handled) : Bool :=
  match e.before.mam.outstanding, e.input.event with
  | some (.request (.loadUserData .include') sent _), .mam (.answered ..) =>
    decide (sent + clientStatsEvery ≤ e.time) ||
      match e.answer with
      | some (_, .ok (.userData data)) => data.clients.isSome
      | some (_, .error failure) =>
        decide (sent + clientStatsEvery ≤ e.time + failure.wait accountFreshFor) &&
          decide (e.time + failure.wait accountFreshFor ≤ Instant.latest)
      | _ => false
  | _, _ => true

inductive Core.ListAsked (c : Core) (asked : Instant) : Prop
  | outstanding (sent : Instant) (epoch : ConnectionEpoch) (hle : asked ≤ sent)
      (h : c.mam.outstanding = some (.request (.loadUserData .include') sent epoch))
  | read (read : Instant) (hle : asked ≤ read) (h : c.mam.account.clientStatsRead = some read)
  | waiting (until' : ClockReading) (hle : asked + clientStatsEvery ≤ until'.monotonic)
      (h : c.mam.Waiting .loadUserData until')

section
variable {c : Core} {i : TimedEvent} {asked : Instant}
  (hbefore : i.occurredAt.monotonic < asked + clientStatsEvery)
include hbefore

theorem listAsked_read {read : Instant} (hle : asked ≤ read)
    (h : (c.received i.occurredAt i.event).mam.account.clientStatsRead = some read) :
    (core.step c i).1.ListAsked asked ∧ ¬ Sends (core.entry c i) (.loadUserData .include') := by
  refine ⟨.read read hle ?_, ?_⟩
  · rw [core_step, handle_clientStats]
    exact h
  · rintro ⟨cookie, hreq⟩
    have hspaced := (Nat.add_le_add_right hle clientStatsEvery).trans (include_cases hreq h)
    exact absurd hspaced (not_le.mpr hbefore)

theorem listAsked_waiting {until' : ClockReading} (hle : asked + clientStatsEvery ≤ until'.monotonic)
    (h : (c.received i.occurredAt i.event).mam.Waiting .loadUserData until') :
    (core.step c i).1.ListAsked asked ∧ ¬ Sends (core.entry c i) (.loadUserData .include') := by
  obtain ⟨hnot, hwait⟩ := rest_waiting h trivial (hbefore.trans_le hle)
  refine ⟨.waiting until' hle hwait, ?_⟩
  rintro ⟨cookie, hreq⟩
  exact absurd rfl (hnot _ cookie hreq)

omit hbefore in
theorem failed_waiting {clients : ClientListing} {failure : MamFailure} {now : ClockReading}
    {event : Event}
    (ha : c.mam.accepted event = some (.loadUserData clients, .error failure))
    (hlatest : now.monotonic + failure.wait accountFreshFor ≤ Instant.latest) :
    (c.received now event).mam.Waiting .loadUserData (now.later (failure.wait accountFreshFor)) := by
  obtain ⟨sent, epoch, rotated, ho, rfl⟩ := accepted_outstanding ha
  refine ⟨?_, ?_⟩
  · obtain h | ⟨sale, he, -⟩ :=
      (received_receives c now (.mam (.answered (.error failure) rotated))).account
    · rw [ha] at h
      unfold Mam.Waits
      rw [h]
      refine ⟨rfl, now.monotonic + failure.wait accountFreshFor, ?_, le_rfl⟩
      exact Instant.checkedAdd_eq_some.mpr ⟨hlatest, rfl⟩
    · cases he
  · intro outstanding hout
    rw [received_outstanding] at hout
    simp [Mam.slotAfter, ho] at hout

theorem listAsked_answered {sent : Instant} {epoch : ConnectionEpoch} (hle : asked ≤ sent)
    (h : c.mam.outstanding = some (.request (.loadUserData .include') sent epoch))
    (hnow : asked ≤ i.occurredAt.monotonic) (hans : i.event.isAnswer)
    (hkept : clientListKept (core.entry c i)) :
    (core.step c i).1.ListAsked asked ∧ ¬ Sends (core.entry c i) (.loadUserData .include') := by
  obtain ⟨result, rotated, he⟩ := isAnswer_iff.mp hans
  unfold clientListKept at hkept
  rw [entry_before, h, entry_input, he] at hkept
  simp only [Bool.or_eq_true, decide_eq_true_eq] at hkept
  obtain hold | hkept := hkept
  · exact absurd ((Nat.add_le_add_right hle clientStatsEvery).trans hold) (not_le.mpr hbefore)
  · split at hkept
    · next request data ha =>
      have ha' : c.mam.accepted i.event = some (request, .ok (.userData data)) := ha
      obtain ⟨_, _, _, ho, -⟩ := accepted_outstanding ha'
      rw [h] at ho
      cases ho
      refine listAsked_read hbefore hnow ?_
      obtain hr | ⟨sale, hs, -⟩ := (received_receives c i.occurredAt i.event).account
      · rw [hr, ha']
        unfold Account.answered
        dsimp only
        rw [read_frame, if_pos hkept]
      · rw [he] at hs
        cases hs
    · next request failure ha =>
      have ha' : c.mam.accepted i.event = some (request, .error failure) := ha
      obtain ⟨_, _, _, ho, -⟩ := accepted_outstanding ha'
      rw [h] at ho
      cases ho
      simp only [Bool.and_eq_true, decide_eq_true_eq] at hkept
      refine listAsked_waiting hbefore ?_ (failed_waiting ha' hkept.2)
      exact (Nat.add_le_add_right hle clientStatsEvery).trans hkept.1
    · cases hkept

/-- Within half an hour of a list asked for, a step keeps what spaces the next one
and does not ask for it. -/
theorem listAsked_step (h : c.ListAsked asked) (hnow : asked ≤ i.occurredAt.monotonic)
    (hkept : clientListKept (core.entry c i)) :
    (core.step c i).1.ListAsked asked ∧ ¬ Sends (core.entry c i) (.loadUserData .include') := by
  cases h with
  | outstanding sent epoch hsent ho =>
    by_cases hans : i.event.isAnswer
    · exact listAsked_answered hbefore hsent ho hnow hans hkept
    · obtain ⟨ho', hreq⟩ := unanswered_step i.occurredAt ho (by simpa using hans)
      refine ⟨.outstanding sent epoch hsent ho', ?_⟩
      rintro ⟨cookie, hmem⟩
      rw [entry_out, ← mem_requests, hreq] at hmem
      cases hmem
  | read read hread h =>
    obtain hr | hr := received_clientStats c i.occurredAt i.event
    · exact listAsked_read hbefore hnow hr
    · exact listAsked_read hbefore hread (hr.trans h)
  | waiting until' huntil h => exact listAsked_waiting hbefore huntil (received_waiting h trivial)

end

/-- Two readings with the client list are asked for at least half an hour apart,
as long as each answer to one keeps the spacing. -/
theorem client_list_spaced {is : List TimedEvent} (hs : Steady (core.run is))
    (hkept : ∀ e ∈ core.run is, clientListKept e) {pre mid post : List Handled} {e f : Handled}
    (hrun : core.run is = pre ++ e :: (mid ++ f :: post)) (he : Sends e (.loadUserData .include'))
    (hf : Sends f (.loadUserData .include')) : e.time + clientStatsEvery ≤ f.time := by
  by_contra hlt
  rw [not_le] at hlt
  rw [hrun] at hs hkept
  have hsteady := (List.pairwise_append.mp hs).2.1
  have hafter : ∀ g ∈ mid ++ f :: post, e.time ≤ g.time := (List.pairwise_cons.mp hsteady).1
  have hbefore : ∀ g ∈ mid, g.time < e.time + clientStatsEvery := by
    intro g hg
    exact lt_of_le_of_lt
      ((List.pairwise_append.mp (List.pairwise_cons.mp hsteady).2).2.2 g hg f List.mem_cons_self) hlt
  obtain ⟨js, i, ks, -, -, rfl, hpost⟩ := Reactive.run_split core hrun
  have h0 : (core.step (core.last js) i).1.ListAsked i.occurredAt.monotonic := by
    obtain ⟨cookie, he⟩ := he
    obtain ⟨-, epoch, ho⟩ := sent_step he
    exact .outstanding _ epoch le_rfl ho
  obtain ⟨t, j, ht, rfl⟩ := Reactive.trace_until core
    (I := fun c => c.ListAsked i.occurredAt.monotonic)
    (P := fun g : Handled => i.occurredAt.monotonic ≤ g.time ∧
      g.time < i.occurredAt.monotonic + clientStatsEvery ∧
      clientListKept g)
    (fun c j hc hP => (listAsked_step hP.2.1 hc hP.1 hP.2.2).1) hpost.symm h0
    (fun g hg => ⟨hafter g (by simp [hg]), hbefore g hg, hkept g (by simp [hg])⟩)
  exact (listAsked_step hlt ht (hafter _ (by simp)) (hkept _ (by simp))).2 hf

def registeredAt (seconds : Nat) : TimedEvent := replyAt seconds (.registered .completed (.v4 1))

def noBookmarks : MamReply := .bookmarks { found := 0, bookmarks := [] }

theorem client_list_asked_after_half_an_hour :
    Sends (core.entry (core.last (startedEvents ++ [attemptSaved])) (registeredAt 63))
    (.loadUserData .include') ∧
    (registeredAt 63).occurredAt.monotonic + clientStatsEvery ≤
    (shownAt 1864 (.v4 1) 1).occurredAt.monotonic := by
  have hrun := Reactive.run_stretch core (startedEvents ++ [attemptSaved])
    [replyAt 64 (.userData accountData), replyAt 65 noBookmarks,
      wakeAt 1864] (registeredAt 63) (shownAt 1864 (.v4 1) 1)
  have hsent : Sends (core.entry (core.last (startedEvents ++ [attemptSaved])) (registeredAt 63))
      (.loadUserData .include') := ⟨some savedCookie, by decide +kernel⟩
  refine ⟨hsent, client_list_spaced (steady_iff.mpr ?_) ?_ hrun hsent ⟨some savedCookie, ?_⟩⟩
  · decide +kernel
  · decide +kernel
  · decide +kernel

/-- A failed reading is asked for again after five minutes, the list included. -/
theorem client_list_asked_again_too_soon : ∃ (pre mid post : List Handled) (e f : Handled),
    core.run ((startedEvents ++ [attemptSaved]) ++ registeredAt 63 ::
        ([failureAt 64 .unreachable, replyAt 65 noBookmarks, wakeAt 364] ++ [shownAt 365 (.v4 1) 1])) =
      pre ++ e :: (mid ++ f :: post) ∧
    Steady (pre ++ e :: (mid ++ f :: post)) ∧ Sends e (.loadUserData .include') ∧
    Sends f (.loadUserData .include') ∧ f.time < e.time + clientStatsEvery := by
  have hrun := Reactive.run_stretch core (startedEvents ++ [attemptSaved])
    [failureAt 64 .unreachable, replyAt 65 noBookmarks,
      wakeAt 364] (registeredAt 63) (shownAt 365 (.v4 1) 1)
  refine ⟨_, _, [], _, _, hrun, hrun ▸ steady_iff.mpr ?_, ⟨some savedCookie, ?_⟩,
    ⟨some savedCookie, ?_⟩, ?_⟩
  · decide +kernel
  · decide +kernel
  · decide +kernel
  · decide +kernel

end Windlass
