import Windlass.Ingress

/-!
# Shutdown loses nothing accepted

Everything that is enqueued is handled in order, so the events the core handled, the
one in hand and those in the queue are together the events enqueued so far. An
accepted call enqueues its event before it gives its borrow back, and nobody can
start the shutdown while a borrow is held: once the runner has seen that the ingress
is closing, no call can enqueue any more, and the worker count tells whether a
tracked action can.
-/

namespace Windlass

open Reactive

/-! ## What is on its way to the core -/

def Input.event? : Input → Option (Producer × TimedEvent)
  | .event producer occurred => some (producer, occurred)
  | .completed n (some completion) => some (.worker n, completion.event)
  | .completed _ none | .shutdown => none

def Input.isCompleted : Input → Bool
  | .completed .. => true
  | _ => false

def Input.isSpare : Input → Bool
  | .event .other _ | .shutdown => true
  | _ => false

def Call.sent? : Call → Option TimedEvent
  | .enqueued event | .accepted event => some event
  | _ => none

def RunnerAt.inHand : RunnerAt → List (Producer × TimedEvent)
  | .handling producer event => [(producer, event)]
  | _ => []

def Runtime.enqueued (s : Runtime) : List (Producer × TimedEvent) :=
  s.handled ++ s.runner.inHand ++ s.queue.filterMap Input.event?

def Runtime.producers (s : Runtime) : List Producer :=
  s.workers.map .worker ++ (s.enqueued.map Prod.fst).filter (· ≠ .other)

/-! ## The turns of all but the runner -/

inductive Runtime.Side (s : Runtime) : Runtime → Prop
  | calls (calls : List Call) (hs : ∀ k : Nat, calls[k]?.bind Call.sent? = s.calls[k]?.bind Call.sent?)
      (hb : s.ingress = .closing → (∀ c ∈ s.calls, c.holdsBorrow = false) → ∀ c ∈ calls,
        c.holdsBorrow = false) :
      Runtime.Side s { s with calls := calls }
  | sends (k : Nat) (event : TimedEvent) (h : s.calls[k]? = some (.borrowing event)) :
      Runtime.Side s ((s.setCall k (.enqueued event)).enqueue (.event (.call k) event))
  | stops (k : Nat) (h : s.calls[k]? = some .stopPermitted) (hb : s.borrowed = false) :
      Runtime.Side s { s.setCall k .stopReplaced with ingress := .closing }
  | stopped (k : Nat) (h : s.calls[k]? = some .stopReplaced) :
      Runtime.Side s ((s.setCall k (.stopped true)).enqueue .shutdown)
  | drops (n : Nat) (h : n ∈ s.workers) (hc : s.closed =
      true) : Runtime.Side s { s with workers := s.workers.erase n }
  | completes (n : Nat) (result : Option WorkerCompletion) (h : n ∈ s.workers) :
      Runtime.Side s { s with workers := s.workers.erase n, queue := s.queue ++ [.completed n result] }
  | reports (event : TimedEvent) : Runtime.Side s (s.enqueue (.event .other event))

section
variable {s : Runtime}

theorem Runtime.Side.same : s.Side s := .calls s.calls (fun _ => rfl) fun _ h => h

theorem set_sent (calls : List Call) {k : Nat} {call call' : Call} (h : calls[k]? = some call) (j : Nat) :
    (calls.set k call')[j]?.bind Call.sent? = if j =
    k then call'.sent? else calls[j]?.bind Call.sent? := by
  obtain ⟨hk, -⟩ := List.getElem?_eq_some_iff.mp h
  by_cases hj : j = k
  · rw [if_pos hj, hj, List.getElem?_set_self hk]
    rfl
  · rw [if_neg hj, List.getElem?_set_ne (Ne.symm hj)]

theorem Runtime.Side.setCall {k : Nat} {call call' : Call} (h : s.calls[k]? = some call)
    (hs : call'.sent? = call.sent?)
    (hb : call'.holdsBorrow = true → call.holdsBorrow = true ∨ s.ingress ≠ .closing) :
    s.Side (s.setCall k call') := by
  refine .calls _ (fun j => ?_) fun hi hnone c hc => ?_
  · rw [set_sent s.calls h]
    split
    · next hj => rw [hj, h, hs]; rfl
    · rfl
  · obtain hc | rfl := List.mem_or_eq_of_mem_set hc
    · exact hnone c hc
    · by_contra hborrow
      obtain hheld | hopen := hb (Bool.not_eq_false _ ▸ hborrow)
      · rw [hnone call (List.mem_of_getElem? h)] at hheld
        cases hheld
      · exact hopen hi

theorem side_new (call : Call) (hs : call.sent? = none) (hb : call.holdsBorrow = false) :
    s.Side { s with calls := s.calls ++ [call] } := by
  refine .calls _ (fun j => ?_) fun _ hnone c hc => ?_
  · obtain hj | hj := Nat.lt_or_ge j s.calls.length
    · rw [List.getElem?_append_left hj]
    · rw [List.getElem?_append_right hj, List.getElem?_eq_none hj]
      cases hd : j - s.calls.length with
      | zero => exact hs
      | succ d => rfl
  · obtain hc | hc := List.mem_append.mp hc
    · exact hnone c hc
    · rw [List.mem_singleton.mp hc]
      exact hb

theorem call_side (k : Nat) : s.Side (s.call k) := by
  unfold Runtime.call
  cases hc : s.calls[k]? with
  | none => exact .same
  | some call =>
    cases call with
    | sending event =>
      dsimp only
      split
      · exact .setCall hc rfl nofun
      · split
        · exact .setCall hc rfl nofun
        · exact .same
    | permitted event =>
      dsimp only
      split
      · exact .setCall hc rfl nofun
      · next hopen => exact .setCall hc rfl fun _ => .inr hopen
    | borrowing event => exact .sends k event hc
    | enqueued event => exact .setCall hc rfl nofun
    | stopping =>
      dsimp only
      split
      · exact .setCall hc rfl nofun
      · split
        · exact .setCall hc rfl nofun
        · exact .same
    | stopPermitted =>
      dsimp only
      split
      · exact .same
      · next hb => exact .stops k hc (Bool.eq_false_iff.mpr hb)
    | stopReplaced => exact .stopped k hc
    | accepted event => exact .same
    | rejected event => exact .same
    | stopped ok => exact .same

theorem turn_side {t : Scheduled} (h : ∀ processedAt joined, t ≠ .run processedAt joined) :
    s.Side (s.turn t) := by
  cases t with
  | send event => exact side_new (.sending event) rfl rfl
  | shutdown => exact side_new .stopping rfl rfl
  | call k => exact call_side k
  | work n result =>
    change s.Side (s.work n result)
    unfold Runtime.work
    split
    · next hn =>
      split
      · next hc => exact .drops n hn hc
      · split
        · exact .completes n result hn
        · exact .same
    · exact .same
  | report event =>
    change s.Side (s.report event)
    unfold Runtime.report
    split
    · exact .reports event
    · exact .same
  | run processedAt joined => exact absurd rfl (h processedAt joined)

end

/-! ## What the runner has handled -/

def Runtime.events (s : Runtime) : List TimedEvent := s.handled.map Prod.snd

def RunnerAt.unrecorded : RunnerAt → List (SystemTime × Event × List Action)
  | .recording event actions => [(event.occurredAt.wall, event.event, actions)]
  | _ => []

def RunnerAt.undispatched : RunnerAt → List Action
  | .recording _ actions | .dispatching actions => actions
  | _ => []

def HistoryEntry.content (e : HistoryEntry) : SystemTime × Event × List Action :=
  (e.occurredAt, e.event, e.actions)

def stepContents (run : List (Reactive.Entry Core TimedEvent Action)) :
    List (SystemTime × Event × List Action) :=
  run.map fun e => (e.input.occurredAt.wall, e.input.event, e.out)

def trackedActions (run : List (Reactive.Entry Core TimedEvent Action)) : List Action :=
  (run.flatMap Reactive.Entry.out).filter Action.isTracked

/-- The core has handled the events in order, their entries were handed over in the
same order, and their tracked actions were dispatched. -/
structure Runtime.Follows (s : Runtime) : Prop where
  core : s.core = Windlass.core.last s.events
  recorded : s.recorded.map HistoryEntry.content ++
    s.runner.unrecorded = stepContents (Windlass.core.run s.events)
  dispatched : s.dispatched ++
    s.runner.undispatched.filter Action.isTracked = trackedActions (Windlass.core.run s.events)

section
variable {s s' : Runtime}

theorem Runtime.Follows.quiet (h : s.Follows) (hcore : s'.core = s.core) (hh : s'.handled = s.handled)
    (hr : s'.recorded = s.recorded) (hd : s'.dispatched = s.dispatched)
    (hu : s'.runner.unrecorded = s.runner.unrecorded)
    (hn : s'.runner.undispatched = s.runner.undispatched) : s'.Follows where
  core := by
    rw [hcore, h.core, Runtime.events, Runtime.events, hh]
  recorded := by
    rw [hr, hu, h.recorded, Runtime.events, Runtime.events, hh]
  dispatched := by
    rw [hd, hn, h.dispatched, Runtime.events, Runtime.events, hh]

theorem Runtime.Follows.side (h : s.Follows) (hs : s.Side s') : s'.Follows := by
  cases hs <;> exact h.quiet rfl rfl rfl rfl rfl rfl

theorem dispatch_eq (action : Action) :
    (s.dispatch action).core = s.core ∧ (s.dispatch action).handled = s.handled ∧
      (s.dispatch action).recorded = s.recorded ∧ (s.dispatch action).queue = s.queue ∧
      (s.dispatch action).calls = s.calls ∧ (s.dispatch action).ingress = s.ingress ∧
      (s.dispatch action).closed = s.closed ∧
      (s.dispatch action).dispatched = s.dispatched ++ [action].filter Action.isTracked := by
  unfold Runtime.dispatch
  split
  · next ht => exact ⟨rfl, rfl, rfl, rfl, rfl, rfl, rfl, by rw [List.filter_singleton, ht]; rfl⟩
  · next ht => exact ⟨rfl, rfl, rfl, rfl, rfl, rfl, rfl,
      by rw [List.filter_singleton, Bool.eq_false_iff.mpr ht]; simp⟩

theorem receive_quiet (input : Input) :
    (s.receive input).core = s.core ∧ (s.receive input).handled = s.handled ∧
    (s.receive input).recorded = s.recorded ∧ (s.receive input).dispatched = s.dispatched ∧
    (s.receive input).runner.unrecorded = [] ∧ (s.receive input).runner.undispatched = [] := by
  cases input with
  | event producer event => exact ⟨rfl, rfl, rfl, rfl, rfl, rfl⟩
  | shutdown => exact ⟨rfl, rfl, rfl, rfl, rfl, rfl⟩
  | completed n result => cases result <;> exact ⟨rfl, rfl, rfl, rfl, rfl, rfl⟩

theorem Runtime.Follows.run (h : s.Follows) (processedAt : SystemTime) (joined : Bool) :
    (s.run processedAt joined).Follows := by
  unfold Runtime.run
  split
  · next hr =>
    refine h.quiet rfl rfl rfl rfl ?_ ?_
    · rw [hr]; dsimp only; split <;> rfl
    · rw [hr]; dsimp only; split <;> rfl
  · next hr =>
    refine h.quiet rfl rfl rfl rfl ?_ ?_
    · rw [hr]; dsimp only; split <;> rfl
    · rw [hr]; dsimp only; split <;> rfl
  · next hr => exact h.quiet rfl rfl rfl rfl (by rw [hr]; rfl) (by rw [hr]; rfl)
  · next hr =>
    split
    · split
      · exact h.quiet rfl rfl rfl rfl (by rw [hr]; rfl) (by rw [hr]; rfl)
      · exact h
    · next input queue hq =>
      obtain ⟨hcore, hhandled, hrecorded, hdispatched, hu, hn⟩ :=
        @receive_quiet { s with queue := queue } input
      exact h.quiet hcore hhandled hrecorded hdispatched (by rw [hu, hr]; rfl) (by rw [hn, hr]; rfl)
  · next hr =>
    split
    · exact h
    · exact h.quiet rfl rfl rfl rfl (by rw [hr]; rfl) (by rw [hr]; rfl)
  · next producer event hr =>
    have hevents : ∀ s' : Runtime, s'.handled = s.handled ++ [(producer, event)] →
        s'.events = s.events ++ [event] := by
      intro s' hs'
      simp [Runtime.events, hs']
    have hrecorded := h.recorded
    have hdispatched := h.dispatched
    rw [hr] at hrecorded hdispatched
    refine ⟨?_, ?_, ?_⟩
    · rw [hevents _ rfl, last_snoc, ← h.core]
      rfl
    · rw [hevents _ rfl, run_snoc, ← h.core, stepContents, List.map_append, ← stepContents, ← hrecorded]
      simp [RunnerAt.unrecorded]
    · rw [hevents _ rfl, run_snoc, ← h.core, trackedActions, List.flatMap_append,
        List.filter_append, ← trackedActions,
        ← hdispatched]
      simp [RunnerAt.undispatched]
  · next event actions hr =>
    have hrecorded := h.recorded
    have hdispatched := h.dispatched
    rw [hr] at hrecorded hdispatched
    refine ⟨h.core, ?_, hdispatched⟩
    refine Eq.trans ?_ hrecorded
    simp [RunnerAt.unrecorded, HistoryEntry.content]
  · next hr => exact h.quiet rfl rfl rfl rfl (by rw [hr]; rfl) (by rw [hr]; rfl)
  · next action actions hr =>
    obtain ⟨hcore, hhandled, hrecorded, -, -, -, -, hd⟩ := @dispatch_eq s action
    have hrec := h.recorded
    have hdispatched := h.dispatched
    rw [hr] at hrec hdispatched
    have hevents : s.events =
        ({ s.dispatch action with runner := .dispatching actions } : Runtime).events :=
      congrArg (List.map Prod.snd) hhandled.symm
    refine ⟨?_, ?_, ?_⟩
    · exact hcore.trans (h.core.trans (congrArg _ hevents))
    · refine Eq.trans ?_ (hrec.trans (congrArg (fun es => stepContents (Windlass.core.run es)) hevents))
      exact congrArg (fun l => List.map HistoryEntry.content l ++ []) hrecorded
    · refine Eq.trans ?_ (hdispatched.trans (congrArg (fun es =>
        trackedActions (Windlass.core.run es)) hevents))
      change (s.dispatch action).dispatched ++ actions.filter Action.isTracked = _
      rw [hd, List.append_assoc, ← List.filter_append]
      rfl
  · next hr => exact h.quiet rfl rfl rfl rfl (by rw [hr]; rfl) (by rw [hr]; rfl)
  · exact h

end

/-! ## Who has enqueued what -/

/-- Every accepted call has its event enqueued, once, and so does every tracked
action that ended. -/
structure Runtime.Accounts (s : Runtime) : Prop where
  calls : ∀ k event, (Producer.call k, event) ∈ s.enqueued ↔ s.calls[k]?.bind Call.sent? = some event
  once : s.producers.Nodup
  known : ∀ n, Producer.worker n ∈ s.producers → n < s.dispatched.length

section
variable {s s' : Runtime}

theorem Runtime.Accounts.same (h : s.Accounts) (he : s'.enqueued = s.enqueued)
    (hc : ∀ k : Nat, s'.calls[k]?.bind Call.sent? = s.calls[k]?.bind Call.sent?)
    (hw : s'.workers.Sublist s.workers)
    (hd : s'.dispatched = s.dispatched) : s'.Accounts := by
  have hsub : s'.producers.Sublist s.producers := by
    unfold Runtime.producers
    rw [he]
    exact (hw.map _).append (List.Sublist.refl _)
  refine ⟨fun k event => ?_, h.once.sublist hsub, fun n hn => ?_⟩
  · rw [he, hc]
    exact h.calls k event
  · rw [hd]
    exact h.known n (hsub.subset hn)

theorem Runtime.Accounts.report (h : s.Accounts) {event : TimedEvent}
    (he : s'.enqueued = s.enqueued ++ [(.other, event)])
    (hw : s'.workers = s.workers) (hc : s'.calls = s.calls) (hd : s'.dispatched = s.dispatched) :
    s'.Accounts := by
  have hp : s'.producers = s.producers := by
    unfold Runtime.producers
    rw [hw, he]
    simp
  refine ⟨fun k e => ?_, hp ▸ h.once, fun n hn => hd ▸ h.known n (hp ▸ hn)⟩
  rw [he, hc, ← h.calls k e]
  simp

/-- A call or a tracked action that has nothing enqueued yet enqueues an event. -/
theorem Runtime.Accounts.send (h : s.Accounts) {producer : Producer} (hne : producer ≠ .other)
    {event : TimedEvent}
    (he : s'.enqueued = s.enqueued ++ [(producer, event)]) (hw : ∀ n ∈ s'.workers, n ∈ s.workers)
    (hnodup : (s'.workers.map Producer.worker ++ [producer]).Nodup)
    (hnew : ∀ e, (producer, e) ∉ s.enqueued)
    (hworker : ∀ n, producer = .worker n → n ∈ s.workers)
    (hc : ∀ k e, s'.calls[k]?.bind Call.sent? = some e ↔
      s.calls[k]?.bind Call.sent? = some e ∨ (Producer.call k, e) = (producer, event))
    (hd : s'.dispatched = s.dispatched) : s'.Accounts := by
  have hp : s'.producers =
      s'.workers.map Producer.worker ++
      ((s.enqueued.map Prod.fst).filter (· ≠ .other) ++ [producer]) := by
    unfold Runtime.producers
    rw [he, List.map_append, List.filter_append]
    simp [hne]
  have hold : ∀ n ∈ s'.workers, Producer.worker n ∉ (s.enqueued.map Prod.fst).filter (· ≠ .other) := by
    intro n hn hmem
    exact (List.nodup_append.mp h.once).2.2 _ (List.mem_map_of_mem (hw n hn)) _ hmem rfl
  refine ⟨fun k e => ?_, ?_, fun n hn => ?_⟩
  · rw [he, hc, List.mem_append, List.mem_singleton, h.calls]
  · rw [hp]
    obtain ⟨hworkers, -, hapart⟩ := List.nodup_append.mp hnodup
    refine List.nodup_append.mpr ⟨hworkers, List.nodup_append.mpr ⟨(List.nodup_append.mp h.once).2.1,
      List.nodup_singleton _, ?_⟩, ?_⟩
    · rintro a ha b hb rfl
      rw [List.mem_singleton.mp hb] at ha
      obtain ⟨⟨p, e⟩, hmem, rfl⟩ := List.mem_map.mp (List.mem_filter.mp ha).1
      exact hnew e hmem
    · rintro a ha b hb rfl
      obtain hb | hb := List.mem_append.mp hb
      · obtain ⟨n, hn, rfl⟩ := List.mem_map.mp ha
        exact hold n hn hb
      · exact hapart a ha a hb rfl
  · rw [hd]
    rw [hp, List.mem_append, List.mem_append] at hn
    refine h.known n ?_
    obtain hn | hn | hn := hn
    · obtain ⟨m, hm, hmn⟩ := List.mem_map.mp hn
      exact List.mem_append_left _ (List.mem_map.mpr ⟨m, hw m hm, hmn⟩)
    · exact List.mem_append_right _ hn
    · exact List.mem_append_left _ (List.mem_map_of_mem (hworker n (List.mem_singleton.mp hn).symm))

theorem enqueue_enqueued (input : Input) :
    (s.enqueue input).enqueued = s.enqueued ++ [input].filterMap Input.event? := by
  simp [Runtime.enqueued, Runtime.enqueue]

theorem Runtime.Accounts.side (h : s.Accounts) (hs : s.Side s') : s'.Accounts := by
  cases hs with
  | calls calls hsent hb => exact h.same rfl hsent (List.Sublist.refl _) rfl
  | stops k hk hb =>
    refine h.same rfl (fun j => ?_) (List.Sublist.refl _) rfl
    change (s.calls.set k .stopReplaced)[j]?.bind Call.sent? = _
    rw [set_sent s.calls hk]
    split
    · next hj => rw [hj, hk]; rfl
    · rfl
  | stopped k hk =>
    refine h.same ?_ (fun j => ?_) (List.Sublist.refl _) rfl
    · rw [enqueue_enqueued]
      exact List.append_nil _
    · change (s.calls.set k (.stopped true))[j]?.bind Call.sent? = _
      rw [set_sent s.calls hk]
      split
      · next hj => rw [hj, hk]; rfl
      · rfl
  | drops n hn hc => exact h.same rfl (fun _ => rfl) List.erase_sublist rfl
  | reports event => exact h.report (enqueue_enqueued _) rfl rfl rfl
  -- a call enqueues its event once, as it is sent from then on
  | sends k event hk =>
    have hnone : s.calls[k]?.bind Call.sent? = none := by
      rw [hk]
      rfl
    refine @Runtime.Accounts.send s _ h (.call k) (by simp) event (enqueue_enqueued _)
      (fun _ hn => hn) ?_ ?_ nofun ?_ rfl
    · refine List.nodup_append.mpr ⟨(List.nodup_append.mp h.once).1, List.nodup_singleton _, ?_⟩
      rintro a ha b hb rfl
      obtain ⟨n, -, hn⟩ := List.mem_map.mp ha
      rw [← hn] at hb
      simp at hb
    · intro e he
      have hsent := (h.calls k e).mp he
      rw [hnone] at hsent
      cases hsent
    · intro j e
      change (s.calls.set k (.enqueued event))[j]?.bind Call.sent? = some e ↔ _
      rw [set_sent s.calls hk]
      by_cases hj : j = k
      · rw [if_pos hj, hj, hnone]
        simp [Call.sent?, eq_comm]
      · rw [if_neg hj]
        simp [hj]
  -- the worker that ends is the one that enqueues its event
  | completes n result hn =>
    cases result with
    | none =>
      refine h.same ?_ (fun _ => rfl) List.erase_sublist rfl
      simp [Runtime.enqueued, Input.event?]
    | some completion =>
      have hnodup := (List.nodup_append.mp h.once).1
      have hapart := (List.nodup_append.mp h.once).2.2
      have hworkers : s.workers.Nodup := List.Nodup.of_map _ hnodup
      refine @Runtime.Accounts.send s _ h (.worker n) (by simp) completion.event ?_
        (fun _ => List.mem_of_mem_erase) ?_ ?_
        ?_ ?_ rfl
      · simp [Runtime.enqueued, Input.event?]
      · refine List.nodup_append.mpr ⟨(List.erase_sublist.map _).nodup hnodup, List.nodup_singleton _, ?_⟩
        rintro a ha b hb rfl
        obtain ⟨m, hm, hmn⟩ := List.mem_map.mp ha
        rw [← hmn, List.mem_singleton] at hb
        cases hb
        exact (hworkers.mem_erase_iff.mp hm).1 rfl
      · intro e he
        refine hapart _ (List.mem_map_of_mem hn) _
          (List.mem_filter.mpr ⟨List.mem_map_of_mem he, by simp⟩) rfl
      · intro m hm
        cases hm
        exact hn
      · intro k e
        simp

theorem receive_enqueued (input : Input) :
    (s.receive input).enqueued = s.handled ++ input.event?.toList ++ s.queue.filterMap Input.event? ∧
      (s.receive input).calls = s.calls ∧ (s.receive input).workers = s.workers ∧
      (s.receive input).dispatched = s.dispatched := by
  cases input with
  | event producer event => exact ⟨rfl, rfl, rfl, rfl⟩
  | shutdown => exact ⟨rfl, rfl, rfl, rfl⟩
  | completed n result => cases result <;> exact ⟨rfl, rfl, rfl, rfl⟩

theorem run_enqueued (processedAt : SystemTime) (joined : Bool) :
    (s.run processedAt joined).enqueued = s.enqueued ∧ (s.run processedAt joined).calls = s.calls ∧
      ((s.run processedAt joined).workers = s.workers ∧
        (s.run processedAt joined).dispatched = s.dispatched ∨
        ∃ action, (s.run processedAt joined).workers = s.workers ++ [s.dispatched.length] ∧
          (s.run processedAt joined).dispatched = s.dispatched ++ [action]) := by
  have hidle : ∀ s' : Runtime, s'.handled = s.handled → s'.queue = s.queue → s.runner.inHand = [] →
      s'.runner.inHand = [] → s'.enqueued = s.enqueued := by
    intro s' hh hq hr hr'
    unfold Runtime.enqueued
    rw [hh, hq, hr, hr']
  unfold Runtime.run
  split
  · next hr =>
    refine ⟨hidle _ rfl rfl (by rw [hr]; rfl) ?_, rfl, .inl ⟨rfl, rfl⟩⟩
    dsimp only
    split <;> rfl
  · next hr =>
    refine ⟨hidle _ rfl rfl (by rw [hr]; rfl) ?_, rfl, .inl ⟨rfl, rfl⟩⟩
    dsimp only
    split <;> rfl
  · next hr => exact ⟨hidle _ rfl rfl (by rw [hr]; rfl) rfl, rfl, .inl ⟨rfl, rfl⟩⟩
  · next hr =>
    split
    · split
      · exact ⟨hidle _ rfl rfl (by rw [hr]; rfl) rfl, rfl, .inl ⟨rfl, rfl⟩⟩
      · exact ⟨rfl, rfl, .inl ⟨rfl, rfl⟩⟩
    · next input queue hq =>
      have hin : s.runner.inHand = [] := by
        rw [hr]
        rfl
      obtain ⟨he, hc, hw, hd⟩ := @receive_enqueued { s with queue := queue } input
      refine ⟨he.trans ?_, hc, .inl ⟨hw, hd⟩⟩
      unfold Runtime.enqueued
      rw [hin, hq, List.append_nil, List.append_assoc]
      cases hi : input.event? with
      | none =>
        rw [List.filterMap_cons_none hi]
        rfl
      | some x =>
        rw [List.filterMap_cons_some hi]
        rfl
  · next hr =>
    split
    · exact ⟨rfl, rfl, .inl ⟨rfl, rfl⟩⟩
    · exact ⟨hidle _ rfl rfl (by rw [hr]; rfl) rfl, rfl, .inl ⟨rfl, rfl⟩⟩
  · next producer event hr =>
    refine ⟨?_, rfl, .inl ⟨rfl, rfl⟩⟩
    unfold Runtime.enqueued
    rw [hr]
    simp [RunnerAt.inHand]
  · next event actions hr => exact ⟨hidle _ rfl rfl (by rw [hr]; rfl) rfl, rfl, .inl ⟨rfl, rfl⟩⟩
  · next hr => exact ⟨hidle _ rfl rfl (by rw [hr]; rfl) rfl, rfl, .inl ⟨rfl, rfl⟩⟩
  · next action actions hr =>
    obtain ⟨-, hh, -, hq, hc, -⟩ := @dispatch_eq s action
    refine ⟨hidle _ hh hq (by rw [hr]; rfl) rfl, hc, ?_⟩
    unfold Runtime.dispatch
    split
    · exact .inr ⟨action, rfl, rfl⟩
    · exact .inl ⟨rfl, rfl⟩
  · next hr => exact ⟨hidle _ rfl rfl (by rw [hr]; rfl) rfl, rfl, .inl ⟨rfl, rfl⟩⟩
  · exact ⟨rfl, rfl, .inl ⟨rfl, rfl⟩⟩

theorem Runtime.Accounts.run (h : s.Accounts) (processedAt : SystemTime) (joined : Bool) :
    (s.run processedAt joined).Accounts := by
  obtain ⟨he, hc, ⟨hw, hd⟩ | ⟨action, hw, hd⟩⟩ := @run_enqueued s processedAt joined
  · refine h.same he (fun k => ?_) ?_ hd
    · rw [hc]
    · rw [hw]
  · have hnew : Producer.worker s.dispatched.length ∉ s.producers :=
      fun hmem => lt_irrefl _ (h.known _ hmem)
    have hp : (s.run processedAt joined).producers.Perm (Producer.worker s.dispatched.length ::
        s.producers) := by
      unfold Runtime.producers
      rw [hw, he, List.map_append, List.append_assoc]
      exact List.perm_middle
    refine ⟨fun k e => ?_, hp.nodup_iff.mpr (List.nodup_cons.mpr ⟨hnew, h.once⟩), fun n hn => ?_⟩
    · rw [he, hc]
      exact h.calls k e
    · rw [hd, List.length_append, List.length_singleton]
      obtain hn | hn := List.mem_cons.mp (hp.subset hn)
      · cases hn
        exact Nat.lt_succ_self _
      · exact Nat.lt_succ_of_lt (h.known n hn)

end

/-! ## The end of the loop -/

def RunnerAt.sawClosing : RunnerAt → Bool
  | .emptying | .closing | .finishing | .finished true => true
  | _ => false

def RunnerAt.isEnding : RunnerAt → Bool
  | .closing | .finishing | .finished true => true
  | _ => false

def RunnerAt.isOver : RunnerAt → Bool
  | .finishing | .finished _ => true
  | _ => false

def RunnerAt.failed : RunnerAt → Bool
  | .finished false => true
  | _ => false

structure Runtime.Guarded (s : Runtime) : Prop where
  borrow : s.ingress = .closing → ∀ c ∈ s.calls, c.holdsBorrow = false
  closing : s.runner.sawClosing = true → s.ingress = .closing
  closed : s.closed = true → s.runner.isOver = true
  active : s.runner.failed = false → s.activeWorkers = s.workers.length + s.queue.countP Input.isCompleted
  spare : s.runner.isEnding = true → s.workers = [] ∧ ∀ i ∈ s.queue, i.isSpare = true

def Runtime.Tracks (s : Runtime) : Prop :=
  s.runner.failed = false → ∀ n < s.dispatched.length,
    n ∈ s.workers ∨ (∃ event, (Producer.worker n, event) ∈ s.enqueued) ∨ .completed n none ∈ s.queue

theorem ending_saw {at' : RunnerAt} (h : at'.isEnding = true) : at'.sawClosing = true := by
  cases at' with
  | finished ok => cases ok <;> exact h
  | closing => rfl
  | finishing => rfl
  | _ => cases h

theorem over_ending {at' : RunnerAt} (h : at'.isOver = true) (hf : at'.failed = false) :
    at'.isEnding = true := by
  cases at' with
  | finished ok =>
    cases ok with
    | true => rfl
    | false => cases hf
  | finishing => rfl
  | _ => cases h

section
variable {s s' : Runtime}

theorem Runtime.Guarded.calls (h : s.Guarded) {calls : List Call}
    (hb : s.ingress = .closing → ∀ c ∈ calls, c.holdsBorrow = false) :
    ({ s with calls := calls } : Runtime).Guarded :=
  ⟨hb, h.closing, h.closed, h.active, h.spare⟩

/-- What is enqueued when the runner is about to end is not waited for. -/
theorem Runtime.Guarded.enqueue (h : s.Guarded) {input : Input} (hc : input.isCompleted = false)
    (hi : s.runner.isEnding = true → input.isSpare = true) : (s.enqueue input).Guarded := by
  refine ⟨h.borrow, h.closing, h.closed, fun hf => ?_, fun he => ⟨(h.spare he).1, fun i hmem => ?_⟩⟩
  · have hcount : (s.queue ++ [input]).countP Input.isCompleted = s.queue.countP Input.isCompleted := by
      rw [List.countP_append, List.countP_singleton, hc]
      rfl
    exact (h.active hf).trans (congrArg (s.workers.length + ·) hcount.symm)
  · obtain hmem | hmem := List.mem_append.mp hmem
    · exact (h.spare he).2 i hmem
    · rw [List.mem_singleton.mp hmem]
      exact hi he

theorem Runtime.Guarded.side (h : s.Guarded) (hs : s.Side s') : s'.Guarded := by
  have hending : s.runner.isEnding = true → s.ingress = .closing := fun he => h.closing (ending_saw he)
  cases hs with
  | calls calls hsent hb => exact h.calls fun hi => hb hi (h.borrow hi)
  | stops k hk hb =>
    refine ⟨fun _ c hc => ?_, fun _ => rfl, h.closed, h.active, h.spare⟩
    obtain hc | rfl := List.mem_or_eq_of_mem_set hc
    · exact Bool.eq_false_iff.mpr fun hheld =>
        (Bool.eq_false_iff.mp hb) (List.any_eq_true.mpr ⟨c, hc, hheld⟩)
    · rfl
  | sends k event hk =>
    have hopen : s.ingress ≠ .closing := by
      intro hi
      have hnone := h.borrow hi _ (List.mem_of_getElem? hk)
      cases hnone
    have hcalls := @Runtime.Guarded.calls s h (s.calls.set k (.enqueued event)) fun hi => absurd hi hopen
    exact hcalls.enqueue rfl fun he => absurd (hending he) hopen
  | stopped k hk =>
    have hcalls := @Runtime.Guarded.calls s h (s.calls.set k (.stopped true)) fun hi c hc => by
      obtain hc | rfl := List.mem_or_eq_of_mem_set hc
      · exact h.borrow hi c hc
      · rfl
    exact hcalls.enqueue rfl fun _ => rfl
  | reports event => exact h.enqueue rfl fun _ => rfl
  | drops n hn hc =>
    have hfailed : s.runner.failed ≠ false := by
      intro hf
      rw [(h.spare (over_ending (h.closed hc) hf)).1] at hn
      cases hn
    refine ⟨h.borrow, h.closing, h.closed, fun hf => absurd hf hfailed, fun he => ⟨?_, (h.spare he).2⟩⟩
    change s.workers.erase n = []
    rw [(h.spare he).1]
    rfl
  | completes n result hn =>
    have hbusy : s.runner.isEnding ≠ true := by
      intro he
      rw [(h.spare he).1] at hn
      cases hn
    refine ⟨h.borrow, h.closing, h.closed, fun hf => ?_, fun he => absurd he hbusy⟩
    change s.activeWorkers = (s.workers.erase n).length + (s.queue ++ [_]).countP Input.isCompleted
    have hpos := List.length_pos_of_mem hn
    have hone : List.countP Input.isCompleted [Input.completed n result] = 1 := rfl
    rw [List.countP_append, h.active hf, List.length_erase_of_mem hn, hone]
    omega

theorem Runtime.Tracks.enqueue (h : s.Tracks) (input : Input) : (s.enqueue input).Tracks := by
  intro hf n hn
  rw [enqueue_enqueued]
  obtain hw | ⟨e, he⟩ | hq := h hf n hn
  · exact .inl hw
  · exact .inr (.inl ⟨e, List.mem_append_left _ he⟩)
  · exact .inr (.inr (List.mem_append_left _ hq))

theorem Runtime.Tracks.side (h : s.Tracks) (hg : s.Guarded) (hs : s.Side s') : s'.Tracks := by
  cases hs with
  | calls calls hsent hb => exact h
  | stops k hk hb => exact h
  | sends k event hk => exact @Runtime.Tracks.enqueue (s.setCall k (.enqueued event)) h _
  | stopped k hk => exact @Runtime.Tracks.enqueue (s.setCall k (.stopped true)) h _
  | reports event => exact h.enqueue _
  | drops n hn hc =>
    intro hf
    rw [(hg.spare (over_ending (hg.closed hc) hf)).1] at hn
    cases hn
  | completes n result hn =>
    intro hf m hm
    have henqueued : ({ s with workers := s.workers.erase n,
                               queue := s.queue ++ [.completed n result] } : Runtime).enqueued =
        s.enqueued ++ [Input.completed n result].filterMap Input.event? := enqueue_enqueued _
    rw [henqueued]
    obtain hw | ⟨e, he⟩ | hq := h hf m hm
    · by_cases hmn : m = n
      · subst hmn
        cases result with
        | none => exact .inr (.inr (List.mem_append_right _ (List.mem_singleton_self _)))
        | some completion =>
          exact .inr (.inl ⟨completion.event, List.mem_append_right _ (List.mem_singleton_self _)⟩)
      · exact .inl ((List.mem_erase_of_ne hmn).mpr hw)
    · exact .inr (.inl ⟨e, List.mem_append_left _ he⟩)
    · exact .inr (.inr (List.mem_append_left _ hq))

/-- An action that ends without a result ends the loop when the runner receives it. -/
theorem run_queue (processedAt : SystemTime) (joined : Bool) :
    (s.run processedAt joined).queue = s.queue ∨
      ∃ input, s.queue = input :: (s.run processedAt joined).queue ∧
        ∀ n, input = .completed n none → (s.run processedAt joined).runner.failed = true := by
  unfold Runtime.run
  split
  · exact .inl rfl
  · exact .inl rfl
  · exact .inl rfl
  · split
    · split
      · exact .inl rfl
      · exact .inl rfl
    · next input queue hq =>
      right
      refine ⟨input, ?_, ?_⟩
      · rw [hq]
        cases input with
        | completed n result => cases result <;> rfl
        | _ => rfl
      · rintro n rfl
        rfl
  · split
    · exact .inl rfl
    · exact .inl rfl
  · exact .inl rfl
  · exact .inl rfl
  · exact .inl rfl
  · next action actions hr => exact .inl (@dispatch_eq s action).2.2.2.1
  · exact .inl rfl
  · exact .inl rfl

theorem run_failed (processedAt : SystemTime) (joined : Bool)
    (h : (s.run processedAt joined).runner.failed = false) :
    s.runner.failed = false := by
  cases hr : s.runner with
  | finished ok =>
    cases ok with
    | true => rfl
    | false =>
      unfold Runtime.run at h
      rw [hr] at h
      dsimp only at h
      rw [hr] at h
      cases h
  | _ => rfl

theorem Runtime.Tracks.run (h : s.Tracks) (processedAt : SystemTime) (joined : Bool) :
    (s.run processedAt joined).Tracks := by
  intro hf n hn
  obtain ⟨he, -, hworkers⟩ := @run_enqueued s processedAt joined
  have hkept : n < s.dispatched.length →
      (∃ event, (Producer.worker n, event) ∈ (s.run processedAt joined).enqueued) ∨
        .completed n none ∈ (s.run processedAt joined).queue ∨ n ∈ s.workers := by
    intro hlt
    rw [he]
    obtain hw | henqueued | hq := h (run_failed processedAt joined hf) n hlt
    · exact .inr (.inr hw)
    · exact .inl henqueued
    · obtain hqueue | ⟨input, hqueue, hfail⟩ := @run_queue s processedAt joined
      · exact .inr (.inl (hqueue ▸ hq))
      · rw [hqueue] at hq
        obtain hq | hq := List.mem_cons.mp hq
        · rw [hfail n hq.symm] at hf
          cases hf
        · exact .inr (.inl hq)
  obtain ⟨hw, hd⟩ | ⟨action, hw, hd⟩ := hworkers
  · obtain henqueued | hq | hworks := hkept (hd ▸ hn)
    · exact .inr (.inl henqueued)
    · exact .inr (.inr hq)
    · exact .inl (hw ▸ hworks)
  · rw [hd, List.length_append, List.length_singleton] at hn
    rw [hw]
    obtain hlt | heq := Nat.lt_or_eq_of_le (Nat.le_of_lt_succ hn)
    · obtain henqueued | hq | hworks := hkept hlt
      · exact .inr (.inl henqueued)
      · exact .inr (.inr hq)
      · exact .inl (List.mem_append_left _ hworks)
    · exact .inl (List.mem_append_right _ (List.mem_singleton.mpr heq))

theorem receive_counts {input : Input} {queue : List Input} (hq : s.queue = input :: queue)
    (h : s.Guarded)
    (hf : s.runner.failed = false) (hc : s.closed = false) :
    (({ s with queue := queue } : Runtime).receive input).ingress = s.ingress ∧
      (({ s with queue := queue } : Runtime).receive input).calls = s.calls ∧
      (({ s with queue := queue } : Runtime).receive input).runner.sawClosing = false ∧
      ((({ s with queue := queue } : Runtime).receive input).closed = true →
        (({ s with queue := queue } : Runtime).receive input).runner.isOver = true) ∧
      ((({ s with queue := queue } : Runtime).receive input).runner.failed = false →
        (({ s with queue := queue } : Runtime).receive input).activeWorkers =
          s.workers.length + queue.countP Input.isCompleted) := by
  have hactive := h.active hf
  rw [hq] at hactive
  cases input with
  | event producer event =>
    exact ⟨rfl, rfl, rfl, fun hc' => absurd hc' (by simp [hc, Runtime.receive]), fun _ => hactive⟩
  | shutdown =>
    exact ⟨rfl, rfl, rfl, fun hc' => absurd hc' (by simp [hc, Runtime.receive]), fun _ => hactive⟩
  | completed n result =>
    rw [List.countP_cons_of_pos (by rfl)] at hactive
    cases result with
    | none => exact ⟨rfl, rfl, rfl, fun _ => rfl, nofun⟩
    | some completion =>
      refine ⟨rfl, rfl, rfl, fun hc' => absurd hc' (by simp [hc, Runtime.receive]), fun _ => ?_⟩
      change s.activeWorkers - 1 = _
      omega

theorem Runtime.Guarded.open' (h : s.Guarded) (ho : s.runner.isOver = false) : s.closed = false := by
  by_contra hc
  rw [h.closed (Bool.not_eq_false _ ▸ hc)] at ho
  cases ho

/-- A runner that moves on without ending leaves what the others rely on as it was. -/
theorem Runtime.Guarded.onward (h : s.Guarded) (hf : s.runner.failed = false)
    (ho : s.runner.isOver = false) {at' : RunnerAt} (he : at'.isEnding = false)
    (hs : at'.sawClosing = true → s.ingress = .closing) :
    ({ s with runner := at' } : Runtime).Guarded where
  borrow := h.borrow
  closing := hs
  closed hc := absurd hc (by simp [h.open' ho])
  active _ := h.active hf
  spare hend := absurd hend (by simp [he])

theorem Runtime.Guarded.receive (h : s.Guarded) (hr : s.runner = .receiving) {input : Input}
    {queue : List Input} (hq : s.queue = input :: queue) :
    (({ s with queue := queue } : Runtime).receive input).Guarded := by
  obtain ⟨hi, hc, hsaw, hover, hactive⟩ :=
    receive_counts hq h (by rw [hr]; rfl) (h.open' (by rw [hr]; rfl))
  obtain ⟨-, -, hw, -⟩ := @receive_enqueued { s with queue := queue } input
  refine ⟨?_, fun hs => ?_, hover, fun hf => ?_, fun he => ?_⟩
  · rw [hi, hc]
    exact h.borrow
  · rw [hsaw] at hs
    cases hs
  · rw [hactive hf, hw]
    refine congrArg (s.workers.length + ·) (congrArg _ ?_)
    cases input with
    | completed n result => cases result <;> rfl
    | _ => rfl
  · have hs := ending_saw he
    rw [hsaw] at hs
    cases hs

theorem Runtime.Guarded.dispatch (h : s.Guarded) {action : Action} {actions : List Action}
    (hr : s.runner = .dispatching (action :: actions)) :
    ({ s.dispatch action with runner := .dispatching actions } : Runtime).Guarded := by
  obtain ⟨-, -, -, hq, hcalls, hi, hclosed, -⟩ := @dispatch_eq s action
  refine ⟨?_, nofun, fun hc => ?_, fun _ => ?_, nofun⟩
  · change (s.dispatch action).ingress = .closing →
      ∀ c ∈ (s.dispatch action).calls, c.holdsBorrow = false
    rw [hi, hcalls]
    exact h.borrow
  · have hnot := h.open' (by rw [hr]; rfl)
    rw [← hclosed] at hnot
    exact absurd hc (Bool.eq_false_iff.mp hnot)
  · have hactive := h.active (by rw [hr]; rfl)
    change (s.dispatch action).activeWorkers = (s.dispatch action).workers.length +
      (s.dispatch action).queue.countP Input.isCompleted
    rw [hq]
    unfold Runtime.dispatch
    split
    · dsimp only
      rw [List.length_append, List.length_singleton]
      omega
    · exact hactive

theorem Runtime.Guarded.emptied (h : s.Guarded) (hr : s.runner = .emptying)
    (hnone : s.activeWorkers = 0) (hempty : s.queue = []) :
    ({ s with runner := .closing } : Runtime).Guarded := by
  have hactive := h.active (by rw [hr]; rfl)
  rw [hnone, hempty] at hactive
  refine ⟨h.borrow, fun _ => h.closing (by rw [hr]; rfl), fun hc => ?_,
    fun _ => h.active (by rw [hr]; rfl), fun _ => ⟨List.length_eq_zero_iff.mp hactive.symm, ?_⟩⟩
  · rw [h.open' (by rw [hr]; rfl)] at hc
    cases hc
  · intro i hi
    rw [hempty] at hi
    cases hi

theorem Runtime.Guarded.run (h : s.Guarded) (processedAt : SystemTime) (joined : Bool) :
    (s.run processedAt joined).Guarded := by
  unfold Runtime.run
  -- one case for each place the runner can be at
  split
  · next hr =>
    by_cases hi : s.ingress = .closing
    · rw [if_pos hi]
      exact h.onward (by rw [hr]; rfl) (by rw [hr]; rfl) rfl fun _ => hi
    · rw [if_neg hi]
      exact h.onward (by rw [hr]; rfl) (by rw [hr]; rfl) rfl nofun
  · next hr =>
    by_cases hnone : s.activeWorkers = 0 ∧ s.queue.isEmpty
    · rw [if_pos hnone]
      exact h.emptied hr hnone.1 (List.isEmpty_iff.mp hnone.2)
    · rw [if_neg hnone]
      exact h.onward (by rw [hr]; rfl) (by rw [hr]; rfl) rfl nofun
  · next hr =>
    exact ⟨h.borrow, fun _ => h.closing (by rw [hr]; rfl), fun _ => rfl,
      fun _ => h.active (by rw [hr]; rfl), fun _ => h.spare (by rw [hr]; rfl)⟩
  · next hr =>
    split
    · rw [if_neg (by simp [h.open' (by rw [hr]; rfl)])]
      exact h
    · next input queue hq => exact h.receive hr hq
  · next hr =>
    split
    · exact h
    · next hb =>
      refine ⟨fun _ c hc => ?_, nofun, fun hc => ?_, fun _ => h.active (by rw [hr]; rfl), nofun⟩
      · exact Bool.eq_false_iff.mpr fun hheld => hb (List.any_eq_true.mpr ⟨c, hc, hheld⟩)
      · rw [h.open' (by rw [hr]; rfl)] at hc
        cases hc
  · next producer event hr =>
    obtain ⟨hb, hs, hc, ha, hp⟩ :=
      @Runtime.Guarded.onward s h (by rw [hr]; rfl) (by rw [hr]; rfl) (.recording event []) rfl nofun
    exact ⟨hb, hs, hc, ha, hp⟩
  · next event actions hr =>
    obtain ⟨hb, hs, hc, ha, hp⟩ :=
      @Runtime.Guarded.onward s h (by rw [hr]; rfl) (by rw [hr]; rfl) (.dispatching actions) rfl nofun
    exact ⟨hb, hs, hc, ha, hp⟩
  · next hr => exact h.onward (by rw [hr]; rfl) (by rw [hr]; rfl) rfl nofun
  · next action actions hr => exact h.dispatch hr
  · next hr =>
    exact ⟨h.borrow, fun _ => h.closing (by rw [hr]; rfl), fun _ => rfl,
      fun _ => h.active (by rw [hr]; rfl), fun _ => h.spare (by rw [hr]; rfl)⟩
  · exact h

end

/-! ## Every interleaving -/

structure Runtime.Sound (s : Runtime) : Prop where
  follows : s.Follows
  accounts : s.Accounts
  guarded : s.Guarded
  tracks : s.Tracks

theorem Runtime.Sound.turn {s : Runtime} (h : s.Sound) (t : Scheduled) : (s.turn t).Sound := by
  by_cases ht : ∃ processedAt joined, t = .run processedAt joined
  · obtain ⟨processedAt, joined, rfl⟩ := ht
    exact ⟨h.follows.run processedAt joined, h.accounts.run processedAt joined,
      h.guarded.run processedAt joined,
      h.tracks.run processedAt joined⟩
  · have hs : s.Side (s.turn t) := turn_side fun processedAt joined hrun => ht ⟨processedAt, joined, hrun⟩
    exact ⟨h.follows.side hs, h.accounts.side hs, h.guarded.side hs, h.tracks.side h.guarded hs⟩

theorem runtime_sound (turns : List Scheduled) : (runtime.last turns).Sound := by
  refine last_invariant runtime (I := Runtime.Sound) ⟨⟨rfl, rfl, rfl⟩, ⟨?_, List.nodup_nil, ?_⟩, ?_, ?_⟩
    (fun s t h => h.turn t) turns
  · intro k event
    simp [runtime, Runtime.enqueued, RunnerAt.inHand]
  · intro n hn
    simp [runtime, Runtime.producers, Runtime.enqueued, RunnerAt.inHand] at hn
  · exact ⟨fun _ c hc => absurd hc List.not_mem_nil, nofun, nofun, fun _ => rfl, nofun⟩
  · intro _ n hn
    exact absurd hn (Nat.not_lt_zero n)

def Call.passed : Call → Bool
  | .borrowing _ | .enqueued _ | .accepted _ => true
  | _ => false

theorem passed_iff (call : Call) :
    call.passed = false ↔ call.holdsBorrow = false ∧ call.sent? = none := by
  cases call <;> simp [Call.passed, Call.holdsBorrow, Call.sent?]

theorem filter_once {events : List (Producer × TimedEvent)}
    (h : ((events.map Prod.fst).filter (· ≠ .other)).Nodup)
    {producer : Producer} (hp : producer ≠ .other) {event : TimedEvent}
    (he : (producer, event) ∈ events) :
    events.filter (fun x => x.1 = producer) = [(producer, event)] := by
  induction events with
  | nil => cases he
  | cons x events ih =>
    obtain ⟨p, e⟩ := x
    rw [List.map_cons] at h
    by_cases hx : p = producer
    · subst hx
      rw [List.filter_cons_of_pos (by simpa using hp), List.nodup_cons] at h
      have hnone : events.filter (fun x => x.1 = p) = [] := by
        refine List.filter_eq_nil_iff.mpr fun y hy hyp => h.1 ?_
        refine List.mem_filter.mpr ⟨?_, by simpa using hp⟩
        exact List.mem_map.mpr ⟨y, hy, of_decide_eq_true hyp⟩
      rw [List.filter_cons_of_pos (by simp), hnone]
      obtain he | he := List.mem_cons.mp he
      · rw [he]
      · have hmem : (p, event) ∈ events.filter (fun x => x.1 = p) := List.mem_filter.mpr ⟨he, by simp⟩
        rw [hnone] at hmem
        cases hmem
    · rw [List.filter_cons_of_neg (by simpa using hx)]
      obtain he | he := List.mem_cons.mp he
      · exact absurd (Prod.mk.inj he).1.symm hx
      · refine ih (h.sublist ?_) he
        exact (List.sublist_cons_self _ _).filter _

section
variable {s : Runtime}

/-- What a call or a tracked action enqueued is handled when the loop ends. -/
theorem Runtime.Sound.handled (h : s.Sound) (hr : s.runner = .finished true) {producer : Producer}
    (hp : producer ≠ .other) {event : TimedEvent} (he : (producer, event) ∈ s.enqueued) :
    s.handled.filter (fun x => x.1 = producer) = [(producer, event)] := by
  have hspare := (h.guarded.spare (by rw [hr]; rfl)).2
  have hqueue : (producer, event) ∉ s.queue.filterMap Input.event? := by
    intro hmem
    obtain ⟨i, hi, hevent⟩ := List.mem_filterMap.mp hmem
    have hsp := hspare i hi
    cases i with
    | shutdown => cases hevent
    | completed n result => cases hsp
    | event producer' occurred =>
      cases producer' with
      | other =>
        cases hevent
        exact hp rfl
      | _ => cases hsp
  have hhandled : (producer, event) ∈ s.handled := by
    unfold Runtime.enqueued at he
    rw [hr] at he
    obtain he | he := List.mem_append.mp he
    · obtain he | he := List.mem_append.mp he
      · exact he
      · cases he
    · exact absurd he hqueue
  refine filter_once ?_ hp hhandled
  refine h.accounts.once.sublist ?_
  unfold Runtime.producers Runtime.enqueued
  rw [List.append_assoc, List.map_append, List.filter_append]
  exact (List.sublist_append_left _ _).trans (List.sublist_append_right _ _)

/-- What is not accepted when the ingress closes is not accepted later. -/
theorem closing_turn (h : s.Sound) (hi : s.ingress = .closing) {k : Nat}
    (hk : s.calls[k]?.bind Call.sent? = none)
    (t : Scheduled) : (s.turn t).ingress = .closing ∧ (s.turn t).calls[k]?.bind Call.sent? = none := by
  by_cases ht : ∃ processedAt joined, t = .run processedAt joined
  · obtain ⟨processedAt, joined, rfl⟩ := ht
    constructor
    · change (s.run processedAt joined).ingress = .closing
      unfold Runtime.run
      split
      · exact hi
      · exact hi
      · exact hi
      · split
        · split
          · exact hi
          · exact hi
        · next input queue hq =>
          cases input with
          | completed n result => cases result <;> exact hi
          | _ => exact hi
      · split
        · exact hi
        · rfl
      · exact hi
      · exact hi
      · exact hi
      · next action actions hr => exact (@dispatch_eq s action).2.2.2.2.2.1.trans hi
      · exact hi
      · exact hi
    · change (s.run processedAt joined).calls[k]?.bind Call.sent? = none
      rw [(run_enqueued processedAt joined).2.1]
      exact hk
  · have hs : s.Side (s.turn t) := turn_side fun processedAt joined hrun => ht ⟨processedAt, joined, hrun⟩
    generalize s.turn t = s' at hs
    -- no call is let in any more, so none is left that may enqueue
    cases hs with
    | calls calls hsent hb => exact ⟨hi, (hsent k).trans hk⟩
    | sends j event hj =>
      have hnone := h.guarded.borrow hi _ (List.mem_of_getElem? hj)
      cases hnone
    | stops j hj hb =>
      refine ⟨rfl, ?_⟩
      change (s.calls.set j .stopReplaced)[k]?.bind Call.sent? = none
      rw [set_sent s.calls hj]
      split
      · rfl
      · exact hk
    | stopped j hj =>
      refine ⟨hi, ?_⟩
      change (s.calls.set j (.stopped true))[k]?.bind Call.sent? = none
      rw [set_sent s.calls hj]
      split
      · rfl
      · exact hk
    | drops n hn hc => exact ⟨hi, hk⟩
    | completes n result hn => exact ⟨hi, hk⟩
    | reports event => exact ⟨hi, hk⟩

end

theorem closing_rejects (turns later : List Scheduled) {k : Nat}
    (hi : (runtime.last turns).ingress = .closing)
    (hk : ∀ call, (runtime.last turns).calls[k]? = some call → call.passed = false) :
    (runtime.last (turns ++ later)).ingress = .closing ∧
      (runtime.last (turns ++ later)).calls[k]?.bind Call.sent? = none := by
  -- on the turns taken since the ingress closed
  induction later using List.reverseRecOn with
  | nil =>
    rw [List.append_nil]
    refine ⟨hi, ?_⟩
    cases hc : (runtime.last turns).calls[k]? with
    | none => rfl
    | some call => exact ((passed_iff call).mp (hk call hc)).2
  | append_singleton later t ih =>
    rw [← List.append_assoc, last_snoc]
    exact closing_turn (runtime_sound _) ih.1 ih.2 t

/-- Over every interleaving of calls, tracked actions, timers, the history writer and
the runner. When the loop ends well, the core has handled the event of every accepted
call once and the completion of every dispatched action once, and every handled event
was handed to the history writer with its actions, in the order it was handled. The
worker count is positive whenever a completion is received. A call that checks after
the ingress state was set to closing is rejected and its event is never handled. -/
theorem shutdown_loses_nothing (turns : List Scheduled) :
    ((runtime.last turns).runner = .finished true →
      (∀ (k : Nat) (event : TimedEvent), (runtime.last turns).calls[k]? = some (.accepted event) →
        (runtime.last turns).handled.filter (fun x => x.1 = .call k) = [(.call k, event)]) ∧
      (∀ n < (runtime.last turns).dispatched.length, ∃ event,
        (runtime.last turns).handled.filter (fun x => x.1 = .worker n) = [(.worker n, event)]) ∧
      (runtime.last turns).core = core.last (runtime.last turns).events ∧
      (runtime.last turns).dispatched = trackedActions (core.run (runtime.last turns).events) ∧
      (runtime.last turns).recorded.map HistoryEntry.content =
      stepContents (core.run (runtime.last turns).events)) ∧
    (∀ n result queue, (runtime.last turns).runner = .receiving →
      (runtime.last turns).queue = .completed n result :: queue →
      0 < (runtime.last turns).activeWorkers) ∧
    ((runtime.last turns).ingress = .closing →
      (∀ (k : Nat) (event : TimedEvent), (runtime.last turns).calls[k]? = some (.permitted event) →
        ((runtime.last turns).call k).calls[k]? = some (.rejected event)) ∧
      ∀ k : Nat, (∀ call, (runtime.last turns).calls[k]? = some call → call.passed = false) → ∀ later,
        (∀ call, (runtime.last (turns ++ later)).calls[k]? = some call → call.passed = false) ∧
        ∀ x ∈ (runtime.last (turns ++ later)).handled, x.1 ≠ .call k) := by
  have h := runtime_sound turns
  refine ⟨fun hr => ⟨fun k event hk => ?_, fun n hn => ?_, h.follows.core, ?_, ?_⟩,
    fun n result queue hr hq => ?_,
    fun hi => ⟨fun k event hk => ?_, fun k hk later => ?_⟩⟩
  · refine h.handled hr (by simp) ((h.accounts.calls k event).mpr ?_)
    rw [hk]
    rfl
  · have hspare := h.guarded.spare (by rw [hr]; rfl)
    -- its worker is under way, its event is enqueued, or its end still waits in the queue
    obtain hw | ⟨event, he⟩ | hq := h.tracks (by rw [hr]; rfl) n hn
    · rw [hspare.1] at hw
      cases hw
    · exact ⟨event, h.handled hr (by simp) he⟩
    · have hsp := hspare.2 _ hq
      cases hsp
  · have hdispatched := h.follows.dispatched
    rw [hr] at hdispatched
    rw [← hdispatched]
    exact (List.append_nil _).symm
  · have hrecorded := h.follows.recorded
    rw [hr] at hrecorded
    rw [← hrecorded]
    exact (List.append_nil _).symm
  · have hactive := h.guarded.active (by rw [hr]; rfl)
    rw [hq, List.countP_cons_of_pos (by rfl)] at hactive
    omega
  · obtain ⟨hlt, -⟩ := List.getElem?_eq_some_iff.mp hk
    unfold Runtime.call
    rw [hk]
    dsimp only
    rw [if_pos hi]
    exact List.getElem?_set_self hlt
  · obtain ⟨hclosing, hsent⟩ := closing_rejects turns later hi hk
    have hlater := runtime_sound (turns ++ later)
    constructor
    · intro call hc
      rw [hc] at hsent
      exact (passed_iff call).mpr ⟨hlater.guarded.borrow hclosing call (List.mem_of_getElem? hc), hsent⟩
    · rintro ⟨producer, event⟩ hx rfl
      have henqueued : (Producer.call k, event) ∈ (runtime.last (turns ++ later)).enqueued :=
        List.mem_append_left _ (List.mem_append_left _ hx)
      have hsome := (hlater.accounts.calls k event).mp henqueued
      rw [hsent] at hsome
      cases hsome

/-- One call is accepted, another asks for shutdown, and the loop ends well. -/
example :
    let clock : ClockReading := { monotonic := 0, wall := 0 }
    let event : TimedEvent := { occurredAt := clock, event := .history .trimFailed }
    let turns : List Scheduled :=
      [.send event, .call 0, .call 0, .call 0, .call 0, .shutdown, .call 1, .call 1, .call 1] ++
      List.replicate 13 (.run 0 true)
    ((runtime.last turns).runner.isEnding && (runtime.last turns).runner.isOver) = true ∧
      (runtime.last turns).handled.map Prod.fst = [.call 0] := by
  decide +kernel

end Windlass
