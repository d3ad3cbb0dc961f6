import Windlass.TimerSound
import Windlass.LookupSound
import Windlass.RateSound

/-!
# MAM work always has a timer to wake it

With the gate open and nothing outstanding, a step has sent nothing because the
IP is not to be looked up yet, or because the budget has no token. Either is over
at a time that is known, so a timer for MAM work runs.
-/

namespace Windlass

/-! ## What is waited for -/

theorem network_nextDue_ahead {n : Network} {now sent : Instant} (hd : n.due now = false)
    (hs : n.lastSent = some sent)
    (hle : sent ≤ now) (hr : now + lookupSpacing ≤ Instant.latest) :
    ∃ due, n.nextDue = some due ∧ now < due := by
  have hspaced : sent.checkedAdd lookupSpacing = some (sent + lookupSpacing) :=
    Instant.checkedAdd_eq_some.mpr ⟨(Nat.add_le_add_right hle _).trans hr, rfl⟩
  have hwait : (n.nextLookup.all fun next => next ≤ now) = true → now < sent + lookupSpacing := by
    intro hnext
    simp only [Network.due, hnext, hs, Option.all_some, Bool.true_and, decide_eq_false_iff_not,
      not_le] at hd
    exact Instant.lt_add_of_durationSince hd
  unfold Network.nextDue
  rw [hs, Option.bind_some, hspaced]
  cases hn : n.nextLookup with
  | none =>
    rw [hn] at hwait
    exact ⟨_, rfl, hwait rfl⟩
  | some next =>
    refine ⟨_, rfl, ?_⟩
    by_cases hle : next ≤ now
    · rw [hn] at hwait
      exact lt_max_of_lt_right (hwait (by simp [hle]))
    · exact lt_max_of_lt_left (not_le.mp hle)

theorem nextToken_ahead {b : Budget} {now : Instant} (hv : b.Valid now) (ht : b.take now = none)
    (hr : now + lookupSpacing ≤ Instant.latest) : ∃ due, b.nextToken now = some due ∧ now < due := by
  obtain ⟨since, hs, -, hlt⟩ := (take_none_some hv.full).mp ht
  have hshort : requestRefill ≤ lookupSpacing := by decide
  have hroom : since + requestRefill ≤ Instant.latest :=
    (Nat.add_le_add (hv.since since hs) hshort).trans hr
  exact ⟨since + requestRefill,
    (nextToken_eq hv.full ht hs).trans (Instant.checkedAdd_eq_some.mpr ⟨hroom, rfl⟩), hlt⟩

/-- With the gate open and nothing outstanding, nothing was sent, and for a reason
that ends by itself. -/
theorem unsent_cases {m : Mam} {now : ClockReading} {context : Context} {plan : Plan}
    (hg : m.gate = .open')
    (ho : (m.send now context plan).1.outstanding = none) :
    m.send now context plan = (m, []) ∧
    (m.network.due now.monotonic = false ∨ m.budget.take now.monotonic = none) := by
  obtain hs | ⟨-, -, ⟨cookie, budget, -, -, hs⟩ | ⟨request, budget, -, hs⟩⟩ :=
    send_cases m now context plan
  · refine ⟨hs, ?_⟩
    have hnone : m.outstanding = none := by rwa [hs] at ho
    cases hd : m.network.due now.monotonic with
    | false => exact .inl rfl
    | true =>
      cases ht : m.budget.take now.monotonic with
      | none => exact .inr rfl
      | some budget =>
        have hw : m.wanted now context.reserve plan = some (.request .lookUpIp) := if_pos hd
        unfold Mam.send at hs
        rw [if_pos ⟨hg, hnone⟩, hw, ht] at hs
        cases (Prod.mk.inj hs).2
  · rw [hs] at ho
    cases ho
  · rw [hs] at ho
    cases ho

theorem wakeDue_some {m : Mam} {now : ClockReading} {early : Bool} (hg : m.gate = .open')
    (ho : m.outstanding = none)
    (h : (∃ due, m.network.nextDue = some due ∧ now.monotonic < due) ∨
      ∃ due, m.budget.nextToken now.monotonic = some due ∧ now.monotonic < due) :
    ∃ due, m.wakeDue now early = some due := by
  cases hw : m.wakeDue now early with
  | some due => exact ⟨due, rfl⟩
  | none =>
    unfold Mam.wakeDue at hw
    dsimp only at hw
    rw [if_pos ⟨hg, ho⟩] at hw
    have hnone := minOf_eq_none.mp hw
    have hno {time : Option Instant} {due : Instant} (ht : time = some due) (hlt : now.monotonic < due) :
        time.filter (fun due => now.monotonic < due) = some due := by
      rw [ht]
      simp [hlt]
    obtain ⟨due, hd, hlt⟩ | ⟨due, hd, hlt⟩ := h
    · refine absurd ?_ (hnone due)
      rw [← hno hd hlt]
      simp
    · refine absurd ?_ (hnone due)
      rw [← hno hd hlt]
      simp

/-! ## The timers of one step -/

def Action.mamTimer? : Action → Option (TimerId × Deadline)
  | .startTimer .mam id deadline => some (id, deadline)
  | _ => none

def mamTimers (out : List Action) : List (TimerId × Deadline) := out.filterMap Action.mamTimer?

theorem mamTimer_mam (a : Action) (h : a.part ≠ .mam) : a.mamTimer? = none := by
  cases a with
  | startTimer name id deadline =>
    cases name with
    | mam => exact absurd rfl h
    | _ => rfl
  | _ => rfl

section
variable (c : Core) (now : ClockReading) (event : Event)

theorem mam_handle_mamTimers (e : MamEvent) : mamTimers (c.mam.handle now e c.registry).2.2.1 = [] := by
  by_cases he : e = .registrationAttemptSaved
  · subst he
    simp only [Mam.handle, Mam.registrationAttemptSaved]
    split
    · split <;> rfl
    · rfl
  · apply List.filterMap_eq_nil_iff.mpr
    intro a ha
    obtain hr | ⟨guard, rfl⟩ := mam_handle_books c.mam now c.registry he _ ha
    · exact mamTimer_mam a (by rw [hr]; decide)
    · rfl

theorem dispatch_mamTimers : mamTimers (c.dispatch now event).2 = [] := by
  unfold mamTimers
  by_cases hs : ∃ e, event = .startup e
  · obtain ⟨e, rfl⟩ := hs
    rw [Core.dispatch, handleStartup_mam_out mamTimer_mam]
    split <;> rfl
  · rw [dispatch_mam_out mamTimer_mam c now fun e h => hs ⟨e, h⟩]
    split
    · exact mam_handle_mamTimers c now _
    · rfl

def Core.wakeLeft : Option (TimerId × Instant) :=
  match event with
  | .timerExpired .mam id => (c.mam.timerExpired id).wake
  | _ => c.mam.wake

theorem received_wake : (c.received now event).mam.wake = c.wakeLeft event := by
  rw [received_mam]
  cases event with
  | mam e =>
    rw [dispatch_mam_eq, mam_handle_frame]
    rfl
  | startup e =>
    obtain ⟨hm, -⟩ | ⟨-, -, hm, -⟩ := handleStartup_eq (c.note (.startup e)) e
    · exact congrArg Mam.wake hm
    · exact (congrArg Mam.wake hm).trans rfl
  | timerExpired name id => cases name <;> rfl
  | tunnel e =>
    simp only [Core.dispatch, Core.handleTunnel]
    split <;> rfl
  | _ => rfl

theorem sending_wake : (c.sending now event).1.wake = c.wakeLeft event := by
  rw [Core.sending, send_frame, prepared_eq]
  change (c.surveyed now event).wake = _
  rw [Core.surveyed, survey_frame, connect_frame]
  exact received_wake c now event

/-- The step leaves the timer for MAM work, or starts one for the time that is due. -/
theorem wake_cases :
    (mamTimers (c.handle now event).2 = [] ∧ (c.handle now event).1.mam.wake = c.wakeLeft event ∧
      ∀ due, (c.sending now event).1.wakeDue now (c.planned now event).early = some due →
        (c.wakeLeft event).map (·.2) = some due) ∨
    ∃ id deadline due, mamTimers (c.handle now event).2 = [(id, deadline)] ∧
      (c.handle now event).1.mam.wake = some (id, due) ∧
      (c.sending now event).1.wakeDue now (c.planned now event).early = some due ∧
      deadline.at' = (now.monotonic.checkedAdd (due.durationSince now.monotonic)).getD now.monotonic := by
  have hleft := sending_wake c now event
  have hout : mamTimers (c.handle now event).2 = mamTimers ((c.sending now event).1.scheduleWake now
      (c.planned now event).early (c.received now event).timers).2.2 := by
    obtain ⟨hreminded, hsent⟩ :=
      @decision_out _ Action.mamTimer? (fun _ => rfl) (fun _ => rfl) (fun _ _ => rfl) c now event
    have hdispatched := dispatch_mamTimers (c.note event) now event
    unfold mamTimers at hdispatched ⊢
    rw [handle_mam_out mamTimer_mam, hdispatched, hreminded, hsent]
    rfl
  have hwake : (c.handle now event).1.mam.wake = ((c.sending now event).1.scheduleWake now
      (c.planned now event).early (c.received now event).timers).1.wake := by
    rw [handle_eq, decided_eq, decideQbittorrent_frame, renewLease_frame, decideMam_eq]
  rw [hout, hwake]
  unfold Mam.scheduleWake
  cases hd : (c.sending now event).1.wakeDue now (c.planned now event).early with
  | none => exact .inl ⟨rfl, hleft, nofun⟩
  | some due =>
    dsimp only
    split
    · next harmed =>
      left
      refine ⟨rfl, hleft, ?_⟩
      rintro due' ⟨⟩
      rw [← hleft]
      obtain ⟨⟨id, at'⟩, hw, heq⟩ := (Option.any_eq_true _ _).mp harmed
      rw [hw]
      exact congrArg some (beq_iff_eq.mp heq)
    · exact .inr ⟨_, _, due, rfl, rfl, rfl, rfl⟩

end

/-! ## Whole runs -/

/-- The timer for MAM work that was started last; its expiry has not been handled. -/
def Runs (tr : List Handled) (id : TimerId) (due : Instant) : Prop :=
  ∃ (pre : List Handled) (g : Handled) (post : List Handled) (deadline : Deadline),
    tr = pre ++ g :: post ∧ mamTimers g.out = [(id, deadline)] ∧ deadline.at' = due ∧
      ∀ x ∈ post, mamTimers x.out = [] ∧ x.input.event ≠ .timerExpired .mam id

theorem Runs.snoc {tr : List Handled} {id : TimerId} {due : Instant} {e : Handled} (h : Runs tr id due)
    (ht : mamTimers e.out = []) (he : e.input.event ≠ .timerExpired .mam id) :
    Runs (tr ++ [e]) id due := by
  obtain ⟨pre, g, post, deadline, rfl, hg, hd, hpost⟩ := h
  refine ⟨pre, g, post ++ [e], deadline, by simp, hg, hd, ?_⟩
  intro x hx
  rw [List.mem_append, List.mem_singleton] at hx
  obtain hx | rfl := hx
  · exact hpost x hx
  · exact ⟨ht, he⟩

theorem wakeLeft_eq_some {c : Core} {event : Event} {id : TimerId} {due : Instant}
    (h : c.wakeLeft event = some (id, due)) :
    c.mam.wake = some (id, due) ∧ event ≠ .timerExpired .mam id := by
  unfold Core.wakeLeft at h
  split at h
  · next id' =>
    unfold Mam.timerExpired at h
    split at h
    · cases h
    · next hn =>
      refine ⟨h, ?_⟩
      rintro ⟨⟩
      simp [h] at hn
  · next hn => exact ⟨h, hn id⟩

structure WakeInv (tr : List Handled) (c : Core) : Prop where
  told : c.mam.Told
  runs : ∀ id due, c.mam.wake = some (id, due) → Runs tr id due
  started : c.mam.hosts = .configured → c.mam.network.lastSent.isSome
  sent : ∀ now, (∀ e ∈ tr, e.time ≤ now) → ∀ sent, c.mam.network.lastSent = some sent → sent ≤ now
  valid : ∀ now, (∀ e ∈ tr, e.time ≤ now) → c.mam.budget.Valid now

theorem wakeInv_init : WakeInv [] core.init where
  told := new_told
  runs _ _ h := nomatch h
  started h := nomatch h
  sent _ _ _ h := nomatch h
  valid _ _ := ⟨fun _ => rfl, nofun⟩

section
variable {tr : List Handled} {c : Core} {i : TimedEvent} (h : WakeInv tr c)
include h

theorem runs_step {id : TimerId} {due : Instant}
    (hw : (c.handle i.occurredAt i.event).1.mam.wake = some (id, due)) :
    Runs (tr ++ [core.entry c i]) id due := by
  obtain ⟨ht, hl, -⟩ | ⟨id', deadline, due', ht, hn, hd, hat⟩ := wake_cases c i.occurredAt i.event
  · rw [hl] at hw
    obtain ⟨hw, he⟩ := wakeLeft_eq_some hw
    exact (h.runs id due hw).snoc ht he
  · rw [hn] at hw
    cases hw
    obtain ⟨hlt, hle⟩ := wakeDue_ahead (sending_told h.told) hd
    refine ⟨tr, core.entry c i, [], deadline, rfl, ht, ?_, fun x hx => absurd hx List.not_mem_nil⟩
    have hsum : i.occurredAt.monotonic + due.durationSince i.occurredAt.monotonic = due :=
      Nat.add_sub_cancel' hlt.le
    have hsome : i.occurredAt.monotonic.checkedAdd (due.durationSince i.occurredAt.monotonic) =
        some due :=
      Instant.checkedAdd_eq_some.mpr ⟨hsum.trans_le hle, hsum.symm⟩
    rw [hat, hsome, Option.getD_some]

theorem started_wake (hh : (c.handle i.occurredAt i.event).1.mam.hosts = .configured) :
    (c.handle i.occurredAt i.event).1.mam.network.lastSent.isSome := by
  have hrec : (c.received i.occurredAt i.event).mam.network.lastSent.isSome := by
    rw [received_lastSent]
    rw [handle_hosts] at hh
    obtain hc | hc := received_hosts c i.occurredAt i.event hh
    · split
      · rfl
      · exact h.started hc
    · rw [if_pos hc]
      rfl
  obtain ⟨-, hs⟩ | ⟨-, -, hs, -⟩ := lookup_step c i.occurredAt i.event
  · rw [hs]
    exact hrec
  · rw [hs]
    rfl

theorem sent_wake {now : Instant} (hp : ∀ e ∈ tr ++ [core.entry c i], Handled.time e ≤ now)
    {sent : Instant}
    (hs : (c.handle i.occurredAt i.event).1.mam.network.lastSent = some sent) : sent ≤ now := by
  have hlast : i.occurredAt.monotonic ≤ now := hp _ (List.mem_append_right _ (List.mem_singleton_self _))
  obtain ⟨-, hl⟩ | ⟨-, -, hl, -⟩ := lookup_step c i.occurredAt i.event
  · rw [hl, received_lastSent] at hs
    split at hs
    · cases hs
      exact hlast
    · exact h.sent now (fun e he => hp e (List.mem_append_left _ he)) sent hs
  · rw [hl] at hs
    cases hs
    exact hlast

theorem wakeInv_step (hs : Steady (tr ++ [core.entry c i])) :
    WakeInv (tr ++ [core.entry c i]) (core.step c i).1 where
  told := handle_told h.told
  runs _ _ hw := runs_step h hw
  started hh := started_wake h hh
  sent _ hp _ hs := sent_wake h hp hs
  valid now hp := by
    have hpast : ∀ e ∈ tr, e.time ≤ i.occurredAt.monotonic := fun e he =>
      (List.pairwise_append.mp hs).2.2 e he _ (List.mem_singleton_self _)
    have hlast : i.occurredAt.monotonic ≤ now :=
      hp (core.entry c i) (List.mem_append_right _ (List.mem_singleton_self _))
    have hvalid := valid_step (h.valid _ hpast)
    exact ⟨hvalid.full, fun since hsince => (hvalid.since since hsince).trans hlast⟩

/-- With the gate open and nothing outstanding, the step leaves a timer that ends
after it. -/
theorem wake_step (hpast : ∀ e ∈ tr, e.time ≤ i.occurredAt.monotonic)
    (hr : i.occurredAt.monotonic + lookupSpacing ≤ Instant.latest)
    (hg : (c.handle i.occurredAt i.event).1.mam.gate = .open')
    (ho : (c.handle i.occurredAt i.event).1.mam.outstanding = none) :
    ∃ id due, (c.handle i.occurredAt i.event).1.mam.wake = some (id, due) ∧
    i.occurredAt.monotonic < due := by
  have hhosts := ((handle_gate_iff c i.occurredAt i.event).mp hg).1
  obtain ⟨wake, hmam⟩ := handle_mam c i.occurredAt i.event
  have hgate : (c.prepared i.occurredAt i.event).gate = .open' :=
    (prepared_gate c i.occurredAt i.event).trans hg
  have hout : (c.sending i.occurredAt i.event).1.outstanding = none := by rwa [hmam] at ho
  obtain ⟨hsame, hwhy⟩ := unsent_cases hgate hout
  have hsame' : (c.sending i.occurredAt i.event).1 = c.prepared i.occurredAt i.event :=
    congrArg Prod.fst hsame
  obtain ⟨sent, hsent⟩ := Option.isSome_iff_exists.mp (started_wake h hhosts)
  have hle : sent ≤ i.occurredAt.monotonic := by
    refine sent_wake h (fun e he => ?_) hsent
    rw [List.mem_append, List.mem_singleton] at he
    obtain he | rfl := he
    · exact hpast e he
    · exact le_rfl
  rw [hmam, hsame'] at hsent
  have hvalid : (c.prepared i.occurredAt i.event).budget.Valid i.occurredAt.monotonic := by
    rw [prepared_budget]
    exact h.valid _ hpast
  have hahead :=
    hwhy.imp (fun hd => network_nextDue_ahead hd hsent hle hr) fun ht => nextToken_ahead hvalid ht hr
  obtain ⟨due, hdue⟩ :=
    @wakeDue_some _ i.occurredAt (c.planned i.occurredAt i.event).early hgate (hsame' ▸ hout) hahead
  rw [← hsame'] at hdue
  have hlt := (wakeDue_ahead (sending_told h.told) hdue).1
  obtain ⟨-, hwake, hleft⟩ | ⟨id, -, due', -, hwake, hd, -⟩ := wake_cases c i.occurredAt i.event
  · obtain ⟨⟨id, at'⟩, hl, rfl⟩ := Option.map_eq_some_iff.mp (hleft due hdue)
    exact ⟨id, at', hwake.trans hl, hlt⟩
  · rw [hdue] at hd
    cases hd
    exact ⟨id, due, hwake, hlt⟩

end

theorem wakeInv_run {is : List TimedEvent} (hs : Steady (core.run is)) :
    WakeInv (core.run is) (core.last is) :=
  Reactive.run_invariant core (fun _ _ hs => (List.pairwise_append.mp hs).1) wakeInv_init
    (fun _ _ _ h hs => wakeInv_step h hs) is hs

/-- On a steady clock, at least a minute before the end of its range, a step that
leaves the gate open and nothing outstanding leaves a timer for MAM work: the one
started last, which ends after the step and has not expired. -/
theorem wake_runs {is : List TimedEvent} (hs : Steady (core.run is)) {pre post : List Handled}
    {e : Handled}
    (hrun : core.run is = pre ++ e :: post) (hr : e.time + lookupSpacing ≤ Instant.latest)
    (hg : e.after.mam.gate = .open') (ho : e.after.mam.outstanding = none) :
    ∃ id due, e.after.mam.wake = some (id, due) ∧ Handled.time e < due ∧ Runs (pre ++ [e]) id due := by
  obtain ⟨js, i, ks, -, hpre, rfl, -⟩ := Reactive.run_split core hrun
  have hsteady : Steady (core.run js) := by
    rw [hrun, hpre] at hs
    exact (List.pairwise_append.mp hs).1
  have hinv := wakeInv_run hsteady
  have hpast : ∀ e ∈ core.run js, Handled.time e ≤ i.occurredAt.monotonic := by
    intro e he
    rw [hrun, hpre] at hs
    exact (List.pairwise_append.mp hs).2.2 e he _ List.mem_cons_self
  obtain ⟨id, due, hw, hlt⟩ := wake_step hinv hpast hr hg ho
  refine ⟨id, due, hw, hlt, ?_⟩
  rw [hpre]
  exact runs_step hinv hw

/-- Windlass has started, and MAM work is about to. -/
def enablingEvents : List TimedEvent := startedEvents.take 7

def enabled : TimedEvent := .after 0 (.mam .enable)

theorem lookup_awaited :
    ∃ id due, (core.entry (core.last enablingEvents) enabled).after.mam.wake = some (id, due) ∧
    Handled.time (core.entry (core.last enablingEvents) enabled) < due ∧
    Runs (core.run enablingEvents ++ [core.entry (core.last enablingEvents) enabled]) id due := by
  have hsteady : Steady (core.run (enablingEvents ++ [enabled])) := steady_iff.mpr (by decide +kernel)
  exact wake_runs hsteady (Reactive.run_snoc core _ _) (by decide +kernel) (by decide +kernel)
    (by decide +kernel)

def lastSeconds : List TimedEvent :=
  (enablingEvents ++ [enabled]).map fun i =>
    { i with occurredAt := { i.occurredAt with monotonic := Instant.latest - Duration.fromSecs 10 } }

theorem lookup_never_due : Steady (core.run lastSeconds) ∧ (core.last lastSeconds).mam.gate = .open' ∧
    (core.last lastSeconds).mam.outstanding = none ∧ (core.last lastSeconds).mam.wake = none :=
  ⟨steady_iff.mpr (by decide +kernel), by decide +kernel, by decide +kernel, by decide +kernel⟩

end Windlass
