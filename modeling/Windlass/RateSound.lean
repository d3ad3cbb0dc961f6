import Windlass.SnatchSound
import Windlass.BucketSound

/-!
# Ten requests at once, and one every three seconds after

Every request takes a token from one bucket. A registration takes its token when
the attempt to register is decided on and leaves only when the attempt was
saved, so it is counted on until then: the rate bounds the requests sent with
the registration still to be sent. Its token may have been restored by then, and
a registration that leaves a full bucket is one request more than the bucket
counts.
-/

namespace Windlass

/-! ## Registrations that leave without a token -/

section
variable {b : Budget} {now : Instant}

/-- A registration may leave without a token: the bucket lacks two, or lacks one
and gets one back just then. -/
def Budget.Spares (b : Budget) (now : Instant) : Prop :=
  (b.refilled now).1 + 2 ≤ requestBurst ∨
    ((b.refilled now).1 + 1 ≤ requestBurst ∧ (b.refilled now).2 = some now)

instance : Decidable (b.Spares now) := inferInstanceAs (Decidable (_ ∨ _))

theorem spares_keeps {start : Instant} (hb : b.Valid now) (h : b.Spares now) (hstart : start ≤ now) :
    b.bucket.Keeps requestBurst requestRefill 1 start now := by
  obtain ⟨hfull, hr⟩ | ⟨since, hs, hlevel, hr⟩ := refilled_cases hb.full
  · unfold Budget.Spares at h
    rw [hr] at h
    obtain h | ⟨-, h⟩ := h
    · exact absurd h (by decide)
    · cases h
  · unfold Budget.Spares at h
    rw [hr] at h
    obtain h | ⟨h, hnow⟩ := h
    · exact TokenBucket.Bucket.keeps_of_lacking_two requestRefill_pos hb.since h hstart
    · obtain ⟨-, hnow⟩ := Instant.checkedAdd_eq_some.mp hnow
      exact TokenBucket.Bucket.keeps_of_lacking_one requestRefill_pos hs hnow.symm h hstart

end

/-! ## What a step spends -/

section
variable (c : Core) (now : ClockReading) (event : Event)

theorem received_budget : (c.received now event).mam.budget = c.mam.budget := by
  rw [received_mam]
  by_cases h : ∃ e, event = .mam e
  · obtain ⟨e, rfl⟩ := h
    rw [dispatch_mam_eq, mam_handle_frame]
    rfl
  · rw [(dispatch_nudged (c.note event) now fun e he => h ⟨e, he⟩).frame]
    rfl

theorem prepared_budget : (c.prepared now event).budget = c.mam.budget := by
  rw [← received_budget c now event]
  unfold Core.prepared
  rw [prepare_frame, connect_frame]

theorem handle_budget : (c.handle now event).1.mam.budget = (c.sending now event).1.budget := by
  obtain ⟨wake, h⟩ := handle_mam c now event
  rw [h]

def pendingIn : Option Outstanding → ℕ
  | some (.savingRegistration ..) => 1
  | _ => 0

/-- A decision takes a token for the request it sends, or for the registration it
starts to save. -/
theorem send_spends (m : Mam) (context : Context) (plan : Plan) :
    m.send now context plan = (m, []) ∨
    m.outstanding = none ∧ m.budget.take now.monotonic = some (m.send now context plan).1.budget ∧
      (requests (m.send now context plan).2).length +
      pendingIn (m.send now context plan).1.outstanding = 1 := by
  by_cases h : m.gate = .open' ∧ m.outstanding = none
  · unfold Mam.send
    rw [if_pos h]
    split
    · next hb => exact .inr ⟨h.2, hb, rfl⟩
    · next hb => exact .inr ⟨h.2, hb, rfl⟩
    · exact .inl rfl
  · exact .inl (if_neg h)

theorem sentAtOnce_pending : (c.mam.sentAtOnce event).length + pendingIn (c.mam.slotAfter now event) ≤
    pendingIn c.mam.outstanding := by
  unfold Mam.sentAtOnce Mam.slotAfter
  split
  · next hm =>
    rw [hm]
    dsimp only
    split <;> simp [pendingIn]
  · next hno =>
    split
    · next hm => exact absurd hm (hno _ _ _ rfl)
    · simp [pendingIn]
    · simp [pendingIn]
    · simp

/-- A step sends what was pending and leaves the bucket alone, or takes one token
for one request or one registration. -/
theorem handle_spends :
    ((c.handle now event).1.mam.budget = c.mam.budget ∧
      requests (c.handle now event).2 = c.mam.sentAtOnce event ∧
      (requests (c.handle now event).2).length + pendingIn (c.handle now event).1.mam.outstanding ≤
        pendingIn c.mam.outstanding) ∨
    (c.mam.budget.take now.monotonic = some (c.handle now event).1.mam.budget ∧
      (requests (c.handle now event).2).length + pendingIn (c.handle now event).1.mam.outstanding =
      1) := by
  rw [handle_budget, handle_requests, handle_outstanding, dispatch_requests]
  obtain h | ⟨hnone, htake, hspent⟩ :=
    send_spends now (c.prepared now event) (c.received now event).context
    (c.planned now event)
  · have h' : c.sending now event = _ := h
    rw [h', prepared_budget, prepared_outstanding, received_outstanding, requests_nil, List.append_nil]
    exact .inl ⟨rfl, rfl, sentAtOnce_pending c now event⟩
  · rw [prepared_outstanding, received_outstanding] at hnone
    rw [prepared_budget] at htake
    rw [sentAtOnce_empty now event hnone, List.nil_append]
    exact .inr ⟨htake, hspent⟩

end

/-! ## The rate over a run -/

section
variable (tr : List Handled)

def requestsSince (start : Instant) : ℕ :=
  (sentRequests (tr.filter fun e : Handled => start ≤ e.time)).length

def requestsWithin (start finish : Instant) : ℕ :=
  (sentRequests (tr.filter fun e : Handled => start ≤ e.time ∧ e.time ≤ finish)).length

end

/-- When a step sends a registration that was saved, the bucket is short enough of
tokens to spare one. -/
def Handled.SparesRegistration (e : Handled) : Prop :=
  e.before.mam.sentAtOnce e.input.event ≠ [] → e.before.mam.budget.Spares e.time

instance (e : Handled) : Decidable e.SparesRegistration := inferInstanceAs (Decidable (_ → _))

structure RateInv (tr : List Handled) (c : Core) (now : Instant) : Prop where
  valid : c.mam.budget.Valid now
  keeps : ∀ start, requestsSince tr start = 0 ∨ start ≤ now ∧
    c.mam.budget.bucket.Keeps requestBurst requestRefill
      (requestsSince tr start + pendingIn c.mam.outstanding) start now

section
variable {tr : List Handled} {e : Handled} {c : Core} {i : TimedEvent} {start finish now : Instant}

theorem requestsSince_snoc (h : start ≤ e.time) :
    requestsSince (tr ++ [e]) start = requestsSince tr start + (requests e.out).length := by
  simp [requestsSince, sentRequests, List.filter_append, h]

theorem requestsSince_past (h : ∀ e ∈ tr, e.time < start) : requestsSince tr start = 0 := by
  unfold requestsSince
  rw [List.filter_eq_nil_iff.mpr fun e he => by simpa using h e he]
  rfl

theorem requestsWithin_all (h : ∀ e ∈ tr, e.time ≤ finish) :
    requestsWithin tr start finish = requestsSince tr start := by
  unfold requestsWithin requestsSince
  congr 2
  apply List.filter_congr
  intro e he
  simp [h e he]

theorem requestsWithin_snoc (h : finish < e.time) : requestsWithin (tr ++ [e]) start finish =
    requestsWithin tr start finish := by
  simp [requestsWithin, List.filter_append, not_le.mpr h]

theorem RateInv.waiting (h : RateInv tr c now) (hle : now ≤ finish) : RateInv tr c finish where
  valid := ⟨h.valid.full, fun since hs => (h.valid.since since hs).trans hle⟩
  keeps start := by
    obtain hnone | ⟨hstart, hkeeps⟩ := h.keeps start
    · exact .inl hnone
    · exact .inr ⟨hstart.trans hle, hkeeps.waiting hle⟩

theorem valid_step (h : c.mam.budget.Valid i.occurredAt.monotonic) :
    (core.step c i).1.mam.budget.Valid i.occurredAt.monotonic := by
  rw [core_step]
  obtain ⟨hbudget, -⟩ | ⟨htake, -⟩ := handle_spends c i.occurredAt i.event
  · rw [hbudget]
    exact h
  · exact (take_takes h htake).2

/-- Requests counted from a time that has come keep the rate, whether they go on
or start with this step. -/
theorem keeps_step (hspares : Handled.SparesRegistration (core.entry c i))
    (h : RateInv tr c i.occurredAt.monotonic)
    (hstart : start ≤ i.occurredAt.monotonic) :
    requestsSince (tr ++ [core.entry c i]) start = 0 ∨
      (core.step c i).1.mam.budget.bucket.Keeps requestBurst requestRefill
        (requestsSince (tr ++ [core.entry c i]) start + pendingIn (core.step c i).1.mam.outstanding) start
        i.occurredAt.monotonic := by
  have hburst : 0 < requestBurst := by decide
  rw [requestsSince_snoc (e := core.entry c i) hstart, core_step, entry_out]
  obtain ⟨hbudget, hsent, hspent⟩ | ⟨htake, hspent⟩ := handle_spends c i.occurredAt i.event
  · rw [hbudget]
    obtain hnone | ⟨-, hkeeps⟩ := h.keeps start
    · by_cases hone : c.mam.sentAtOnce i.event = []
      · rw [hnone, hsent, hone]
        exact .inl rfl
      · have hpending : pendingIn c.mam.outstanding ≤ 1 := by
          unfold pendingIn
          split <;> omega
        right
        exact (spares_keeps h.valid (hspares hone) hstart).fewer (by omega)
    · right
      exact hkeeps.fewer (by omega)
  · obtain ⟨htakes, -⟩ := take_takes h.valid htake
    obtain hnone | ⟨-, hkeeps⟩ := h.keeps start
    · right
      exact (htakes.first requestRefill_pos hburst hstart).fewer (by omega)
    · right
      have hfewer : requestsSince tr start ≤ requestsSince tr start + pendingIn c.mam.outstanding :=
        Nat.le_add_right _ _
      exact (htakes.keeps requestRefill_pos hburst (hkeeps.fewer hfewer) hstart).fewer (by omega)

theorem rateInv_step (hspares : Handled.SparesRegistration (core.entry c i))
    (hpast : ∀ e ∈ tr, e.time ≤ i.occurredAt.monotonic) (h : RateInv tr c i.occurredAt.monotonic) :
    RateInv (tr ++ [core.entry c i]) (core.step c i).1 i.occurredAt.monotonic where
  valid := valid_step h.valid
  keeps start := by
    rcases Nat.lt_or_ge i.occurredAt.monotonic start with hlater | hstart
    · left
      apply requestsSince_past
      intro e he
      rcases List.mem_append.mp he with he | he
      · exact lt_of_le_of_lt (hpast e he) hlater
      · rw [List.mem_singleton.mp he]
        exact hlater
    · exact (keeps_step hspares h hstart).imp_right fun hkeeps => ⟨hstart, hkeeps⟩

end

def KeepsRate (tr : List Handled) (c : Core) : Prop :=
  (∀ now, (∀ e ∈ tr, e.time ≤ now) → RateInv tr c now) ∧
    ∀ start wait, requestsWithin tr start (start + wait) ≤ requestBurst + wait / requestRefill

theorem keepsRate_init : KeepsRate [] Core.new :=
  ⟨fun _ _ => ⟨⟨fun _ => rfl, nofun⟩, fun _ => .inl rfl⟩, fun _ _ => Nat.zero_le _⟩

theorem keepsRate_step {tr : List Handled} {c : Core} {i : TimedEvent}
    (hs : Steady (tr ++ [core.entry c i]))
    (hspares : Handled.SparesRegistration (core.entry c i)) (h : KeepsRate tr c) :
    KeepsRate (tr ++ [core.entry c i]) (core.step c i).1 := by
  have hpast : ∀ e ∈ tr, e.time ≤ i.occurredAt.monotonic := by
    intro e he
    exact (List.pairwise_append.mp hs).2.2 e he _ (List.mem_singleton.mpr rfl)
  have hinv := rateInv_step hspares hpast (h.1 _ hpast)
  refine ⟨fun now hnow => hinv.waiting (hnow (core.entry c i) (by simp)), fun start wait => ?_⟩
  rcases Nat.lt_or_ge (start + wait) i.occurredAt.monotonic with hafter | hbefore
  · rw [requestsWithin_snoc (e := core.entry c i) hafter]
    exact h.2 start wait
  · have hall : ∀ e ∈ tr ++ [core.entry c i], e.time ≤ start + wait := by
      intro e he
      rcases List.mem_append.mp he with he | he
      · exact (hpast e he).trans hbefore
      · rw [List.mem_singleton.mp he]
        exact hbefore
    rw [requestsWithin_all hall]
    obtain hnone | ⟨-, hkeeps⟩ := (hinv.waiting hbefore).keeps start
    · rw [hnone]
      exact Nat.zero_le _
    · have hrate := hkeeps.rate
      rw [Nat.add_sub_cancel_left] at hrate
      exact (Nat.le_add_right _ _).trans hrate

/-- In every window at most ten requests are sent, and one more for every three
seconds of it, as long as a registration that was saved leaves only a bucket that
spares a token. -/
theorem requests_rate {is : List TimedEvent} (hs : Steady (core.run is))
    (hspares : ∀ e ∈ core.run is, Handled.SparesRegistration e) (start : Instant) (wait : Duration) :
    requestsWithin (core.run is) start (start + wait) ≤ requestBurst + wait / requestRefill := by
  have h := Reactive.run_invariant core (I := KeepsRate)
    (H := fun tr => Steady tr ∧ ∀ e ∈ tr, Handled.SparesRegistration e)
    (fun tr e h => ⟨(List.pairwise_append.mp h.1).1, fun x hx => h.2 x (by simp [hx])⟩) keepsRate_init
    (fun tr c i hi h => keepsRate_step h.1 (h.2 _ (by simp)) hi) is ⟨hs, hspares⟩
  exact h.2 start wait

theorem registration_spared :
    (core.last startedEvents).mam.sentAtOnce attemptSaved.event ≠ [] ∧
    requestsWithin (core.run (startedEvents ++ [attemptSaved])) (Duration.fromSecs 60)
      (Duration.fromSecs 60 + Duration.fromSecs 2) ≤ requestBurst + Duration.fromSecs 2 / requestRefill :=
  ⟨by decide +kernel, requests_rate (steady_iff.mpr (by decide +kernel)) (by decide +kernel) _ _⟩

def lateRegistrationEvents : List TimedEvent :=
  -- a registration is saved for so long that the bucket is full again when it leaves, and ten
  -- requests follow it at once
  startedEvents ++ [.after 100 (.mam .registrationAttemptSaved), registeredAt 100,
    replyAt 100 (.userData accountData)] ++
    List.replicate 9 (replyAt 100 (.bookmarks { found := 100, bookmarks := [listing 5 .no] }))

theorem eleven_requests_at_once : Steady (core.run lateRegistrationEvents) ∧
    requestBurst + 0 / requestRefill <
      requestsWithin (core.run lateRegistrationEvents) (Duration.fromSecs 100)
      (Duration.fromSecs 100 + 0) :=
  ⟨steady_iff.mpr (by decide +kernel), by decide +kernel⟩

end Windlass
