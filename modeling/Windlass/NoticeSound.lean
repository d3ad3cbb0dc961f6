import Windlass.TimerSound

/-!
# The notice log

Every notice takes the next place in the log once the log's last place is known;
until then notices wait, in order. A push names the entry of its notice. When the
log cannot be read, notices are pushed without an entry.
-/

namespace Windlass

/-! ## Recording notices -/

def entries (next : NoticeId) : List (SystemTime × Notice) → List Logged
  | [] => []
  | (at', notice) :: notices =>
    { id := next, at' := at', notice := notice, reach := notice.reach } :: entries next.following notices

def NoticeId.skip (next : NoticeId) : Nat → NoticeId
  | 0 => next
  | k + 1 => next.following.skip k

def pushOf (entry : Option NoticeId) (notice : Notice) : List Push :=
  if notice.reach = .push then [{ entry := entry, notice := notice }] else []

def NoticeLog.held : NoticeLog → List (SystemTime × Notice)
  | .waiting notices => notices
  | .ready _ | .unavailable => []

section
variable (log : NoticeLog) (notices : List (SystemTime × Notice))

def NoticeLog.saved : List Logged :=
  match log with
  | .ready next => entries next notices
  | .waiting _ | .unavailable => []

def NoticeLog.pushes : List Push :=
  match log with
  | .waiting _ => []
  | .ready next => (entries next notices).flatMap fun entry => pushOf (some entry.id) entry.notice
  | .unavailable => notices.flatMap fun (_, notice) => pushOf none notice

def NoticeLog.after : NoticeLog :=
  match log with
  | .waiting held => .waiting (held ++ notices)
  | .ready next => .ready (next.skip notices.length)
  | .unavailable => .unavailable

end

def Notifications.enqueueAll (n : Notifications) (pushes : List Push) : Notifications :=
  pushes.foldl Notifications.enqueue n

def Action.logged? : Action → Option (Logged × Option NoticeId)
  | .saveNotice entry forgetThrough => some (entry, forgetThrough)
  | _ => none

def Action.sent? : Action → Option (NtfyTopic × Push)
  | .sendNotification topic push => some (topic, push)
  | _ => none

def Logged.saving (entry : Logged) : Action := .saveNotice entry entry.id.forgetThrough

section
variable (n : Notifications)

theorem enqueueAll_frame {f : Notifications → Notifications}
    (hf : ∀ n push, (f n).enqueue push = f (n.enqueue push))
    (pushes : List Push) : (f n).enqueueAll pushes = f (n.enqueueAll pushes) := by
  induction pushes generalizing n with
  | nil => rfl
  | cons push pushes ih =>
    change Notifications.enqueueAll ((f n).enqueue push) pushes = _
    rw [hf]
    exact ih (n.enqueue push)

theorem enqueueAll_log (log : NoticeLog) (pushes : List Push) :
    { n with log := log }.enqueueAll pushes = { n.enqueueAll pushes with log := log } := by
  refine @enqueueAll_frame n (fun n => { n with log := log }) (fun n push => ?_) pushes
  unfold Notifications.enqueue
  dsimp only
  split <;> rfl

theorem enqueueAll_conditions (conditions : Std.ExtTreeMap Condition Phase) (pushes : List Push) :
    { n with conditions := conditions }.enqueueAll pushes =
    { n.enqueueAll pushes with conditions := conditions } := by
  refine @enqueueAll_frame n (fun n => { n with conditions := conditions }) (fun n push => ?_) pushes
  unfold Notifications.enqueue
  dsimp only
  split <;> rfl

theorem push_eq (entry : Option NoticeId) (notice : Notice) :
    n.push entry notice = n.enqueueAll (pushOf entry notice) := by
  unfold Notifications.push pushOf
  split <;> rfl

theorem enqueueAll_append (pushes pushes' : List Push) :
    n.enqueueAll (pushes ++ pushes') = (n.enqueueAll pushes).enqueueAll pushes' := List.foldl_append

@[simp] theorem enqueue_keeps (push : Push) :
    (n.enqueue push).log = n.log ∧ (n.enqueue push).delivery = n.delivery := by
  unfold Notifications.enqueue
  split <;> exact ⟨rfl, rfl⟩

theorem enqueueAll_keeps (pushes : List Push) :
    (n.enqueueAll pushes).log = n.log ∧ (n.enqueueAll pushes).delivery = n.delivery := by
  induction pushes generalizing n with
  | nil => exact ⟨rfl, rfl⟩
  | cons push pushes ih =>
    obtain ⟨hl, hd⟩ := ih (n.enqueue push)
    obtain ⟨hl', hd'⟩ := enqueue_keeps n push
    exact ⟨hl.trans hl', hd.trans hd'⟩

theorem recordAll_cons (at' : SystemTime) (notice : Notice) (notices : List (SystemTime × Notice)) :
    n.recordAll ((at', notice) :: notices) = (((n.record at' notice).1.recordAll notices).1,
      (n.record at' notice).2.toList ++ ((n.record at' notice).1.recordAll notices).2) := by
  have hacc {f : Notifications × List Action → SystemTime × Notice → Notifications × List Action}
      (hf : ∀ n actions at' notice, f (n, actions) (at', notice) =
        ((n.record at' notice).1, actions ++ (n.record at' notice).2.toList)) :
      ∀ (notices : List (SystemTime × Notice)) (n : Notifications) (actions : List Action),
        notices.foldl f (n, actions) =
          ((notices.foldl f (n, [])).1, actions ++ (notices.foldl f (n, [])).2) := by
    intro notices
    induction notices with
    | nil => intro n actions; simp
    | cons p notices ih =>
      intro n actions
      rw [List.foldl_cons, List.foldl_cons, hf n actions p.1 p.2, hf n [] p.1 p.2, ih, ih _ ([] ++ _)]
      simp
  exact hacc (fun _ _ _ _ => rfl) notices (n.record at' notice).1 (n.record at' notice).2.toList

/-- Recording notices queues their pushes, asks for their entries, and moves the log on. -/
theorem recordAll_eq (notices : List (SystemTime × Notice)) : n.recordAll notices =
    ({ n.enqueueAll (n.log.pushes notices) with log := n.log.after notices },
      (n.log.saved notices).map Logged.saving) := by
  -- one notice at a time takes the next place of the log
  induction notices generalizing n with
  | nil =>
    cases hl : n.log with
    | waiting waiting =>
      simp [Notifications.recordAll, NoticeLog.pushes, NoticeLog.after, NoticeLog.saved,
        Notifications.enqueueAll, ← hl]
    | ready next => simp [Notifications.recordAll, NoticeLog.pushes, NoticeLog.after, NoticeLog.saved,
        Notifications.enqueueAll, entries, NoticeId.skip, ← hl]
    | unavailable => simp [Notifications.recordAll, NoticeLog.pushes, NoticeLog.after, NoticeLog.saved,
        Notifications.enqueueAll, ← hl]
  | cons p notices ih =>
    obtain ⟨at', notice⟩ := p
    rw [recordAll_cons, ih]
    cases hl : n.log with
    | waiting waiting =>
      simp [Notifications.record, hl, NoticeLog.pushes, NoticeLog.after, NoticeLog.saved,
        Notifications.enqueueAll]
    | ready next =>
      have hr : n.record at' notice =
        ({ n.enqueueAll (pushOf (some next) notice) with log := .ready next.following },
          some (Logged.saving { id := next, at' := at', notice := notice, reach := notice.reach })) := by
        simp only [Notifications.record, hl, push_eq, enqueueAll_log]
        rfl
      rw [hr]
      dsimp only
      rw [enqueueAll_log, ← enqueueAll_append]
      simp [NoticeLog.pushes, NoticeLog.after, NoticeLog.saved, entries, NoticeId.skip]
    | unavailable =>
      have hr : n.record at' notice = (n.enqueueAll (pushOf none notice), none) := by
        simp only [Notifications.record, hl, push_eq]
      rw [hr]
      dsimp only
      rw [(enqueueAll_keeps n _).1, hl]
      simp [NoticeLog.pushes, NoticeLog.after, NoticeLog.saved, enqueueAll_append]

end

/-! ## One step -/

def Core.failsLog (c : Core) : Event → Bool
  | .notification .logReadFailed => true
  | .startup event => (c.state.handleStartup event).1 = .failed
  | _ => false

def Core.logGiven (c : Core) : Event → Option NoticeLog
  | .notification (.logRead last) =>
    match c.notifications.log with
    | .waiting _ => some (.ready (last.elim .first NoticeId.following))
    | .ready _ | .unavailable => none
  | event => if c.failsLog event then some .unavailable else none

def Core.logAfter (c : Core) (event : Event) : NoticeLog :=
  match c.logGiven event with
  | some log => log.after c.notifications.log.held
  | none => c.notifications.log

def Core.given (c : Core) (now : ClockReading) (event : Event) : List (SystemTime × Notice) :=
  let decided := c.decided now event
  let taken : Core := { decided with mam := { decided.mam with notices := [] } }
  let happened := (c.notifications.reported event).2 ++
    decided.notifications.changed (c.note event).glance decided.glance ++ decided.mam.notices
  let tracked := (decided.notifications.trackAll now.monotonic (assess now.wall taken.conditionFacts)).2
  (tracked ++ happened).map fun notice => (now.wall, notice)

def Core.entriesOf (c : Core) (now : ClockReading) (event : Event) : List Logged :=
  ((c.logGiven event).elim [] fun log => log.saved c.notifications.log.held) ++
    (c.logAfter event).saved (c.given now event)

def Core.pushesOf (c : Core) (now : ClockReading) (event : Event) : List Push :=
  ((c.logGiven event).elim [] fun log => log.pushes c.notifications.log.held) ++
    (c.logAfter event).pushes (c.given now event)

section
variable (n : Notifications)

theorem logUnavailable_eq : n.logUnavailable =
    { n.enqueueAll (NoticeLog.unavailable.pushes n.log.held) with log := .unavailable } := by
  unfold Notifications.logUnavailable
  cases hl : n.log with
  | waiting waiting =>
    simp only [recordAll_eq, enqueueAll_log]
    rfl
  | ready next => rfl
  | unavailable => rfl

theorem track_frame (now : Instant) (condition : Condition) (status : Status) :
    (n.track now condition status).1 =
    { n with conditions := (n.track now condition status).1.conditions } := by
  unfold Notifications.track
  split
  · split <;> rfl
  · split <;> rfl
  all_goals rfl

theorem trackAll_frame (now : Instant) (statuses : List (Condition × Status)) :
    (n.trackAll now statuses).1 = { n with conditions := (n.trackAll now statuses).1.conditions } := by
  rw [trackAll_fst]
  induction statuses generalizing n with
  | nil => rfl
  | cons p statuses ih =>
    rw [List.foldl_cons, ih, track_frame]

theorem scheduleGrace_frame (now : Instant) (timers : Timers) :
    (n.scheduleGrace now timers).1 =
    { n with graceTimer := (n.scheduleGrace now timers).1.graceTimer } := by
  unfold Notifications.scheduleGrace
  split
  · rfl
  · split <;> rfl

theorem mail_send (log : NoticeLog) (conditions : Std.ExtTreeMap Condition Phase)
    (graceTimer : Option (TimerId × Instant))
    (settings : SettingsState) :
    { n with log := log, conditions := conditions, graceTimer := graceTimer }.send settings =
      ({ (n.send settings).1 with log := log, conditions := conditions, graceTimer := graceTimer },
        (n.send settings).2) := by
  unfold Notifications.send
  dsimp only
  split
  · rfl
  · rfl
  · rfl
  · split
    · rfl
    · split <;> rfl

/-- What a step's notices leave of the mail: they are recorded, and the oldest push is
sent. -/
theorem afterStep_mail (now : ClockReading) (happened : List Notice) (facts : ConditionFacts)
    (settings : SettingsState)
    (timers : Timers) {given : List (SystemTime × Notice)}
    (hg : ((n.trackAll now.monotonic (assess now.wall facts)).2 ++ happened).map (fun notice =>
      (now.wall, notice)) = given) :
    ∃ conditions graceTimer grace,
    (∀ a ∈ grace, ∃ id deadline, a = .startTimer .notificationGrace id deadline) ∧
      (n.afterStep now happened facts settings timers).1 =
        { ((n.enqueueAll (n.log.pushes given)).send settings).1 with
          log := n.log.after given, conditions := conditions, graceTimer := graceTimer } ∧
      (n.afterStep now happened facts settings timers).2.2 =
        (n.log.saved given).map Logged.saving ++ grace ++
        ((n.enqueueAll (n.log.pushes given)).send settings).2 := by
  have htracked := trackAll_frame n now.monotonic (assess now.wall facts)
  generalize htrack : n.trackAll now.monotonic (assess now.wall facts) = tracked at htracked hg
  obtain ⟨tracked, notices⟩ := tracked
  dsimp only at htracked hg
  have hrec : tracked.recordAll given =
      ({ n.enqueueAll (n.log.pushes given) with
          conditions := tracked.conditions, log := n.log.after given },
        (n.log.saved given).map Logged.saving) := by
    rw [recordAll_eq, htracked]
    simp only [enqueueAll_conditions]
  simp only [Notifications.afterStep, htrack, hg, hrec]
  generalize hrecorded : ({ n.enqueueAll (n.log.pushes given) with
    conditions := tracked.conditions, log := n.log.after given } : Notifications) = recorded
  have hgrace := scheduleGrace_frame recorded now.monotonic timers
  refine ⟨tracked.conditions, (recorded.scheduleGrace now.monotonic timers).1.graceTimer,
    (recorded.scheduleGrace now.monotonic timers).2.2, ?_, ?_, ?_⟩
  · intro a ha
    unfold Notifications.scheduleGrace at ha
    split at ha
    · cases ha
    · split at ha
      · cases ha
      · exact ⟨_, _, List.mem_singleton.mp ha⟩
  · rw [hgrace, ← hrecorded]
    dsimp only
    rw [mail_send]
  · rw [hgrace, ← hrecorded]
    dsimp only
    rw [mail_send]

end

/-! ## What the event does to the log and the mail -/

def Notifications.mail (n : Notifications) : List Push :=
  (match n.delivery with
   | .idle => []
   | .sending push | .retrying push _ => [push]) ++ n.outbox

theorem enqueue_mail (n : Notifications) (push : Push) {push' : Push}
    (h : push' ∈ (n.enqueue push).mail) :
    push' ∈ n.mail ∨ push' = push := by
  unfold Notifications.mail at h ⊢
  rw [(enqueue_keeps n push).2] at h
  unfold Notifications.enqueue at h
  rw [List.mem_append] at h ⊢
  obtain h | h := h
  · exact .inl (.inl h)
  · split at h
    · simp only [List.mem_append, List.mem_singleton] at h
      obtain h | h := h
      · exact .inl (.inr (List.mem_of_mem_tail h))
      · exact .inr h
    · simp only [List.mem_append, List.mem_singleton] at h
      obtain h | h := h
      · exact .inl (.inr h)
      · exact .inr h

theorem enqueueAll_mail (n : Notifications) (pushes : List Push) {push : Push}
    (h : push ∈ (n.enqueueAll pushes).mail) :
    push ∈ n.mail ∨ push ∈ pushes := by
  induction pushes generalizing n with
  | nil => exact .inl h
  | cons first pushes ih =>
    obtain h | h := ih (n.enqueue first) h
    · obtain h | rfl := enqueue_mail n first h
      · exact .inl h
      · exact .inr List.mem_cons_self
    · exact .inr (List.mem_cons_of_mem _ h)

theorem send_mail (n : Notifications) (settings : SettingsState) {push : Push}
    (h : push ∈ (n.send settings).1.mail) :
    push ∈ n.mail := by
  unfold Notifications.send at h
  dsimp only at h
  have hdiscarded {delivery : Delivery} (hkept : delivery = .idle ∨ delivery = n.delivery)
      (hd : push ∈ Notifications.mail { n with outbox := [], delivery := delivery }) : push ∈ n.mail := by
    obtain rfl | rfl := hkept
    · simp [Notifications.mail] at hd
    · cases hdel : n.delivery <;> simp_all [Notifications.mail]
  split at h
  · exact h
  · exact h
  · exact hdiscarded (by cases n.delivery <;> simp) h
  · split at h
    · exact hdiscarded (by cases n.delivery <;> simp) h
    · split at h
      · next hd ho => simpa [Notifications.mail, hd, ho] using h
      · exact h

theorem send_logged (n : Notifications) (settings : SettingsState) :
    (n.send settings).2.filterMap Action.logged? = [] := by
  unfold Notifications.send
  dsimp only
  split
  · rfl
  · rfl
  · rfl
  · split
    · rfl
    · split <;> rfl

theorem saving_sent (saved : List Logged) : (saved.map Logged.saving).filterMap Action.sent? = [] := by
  refine List.filterMap_eq_nil_iff.mpr fun a ha => ?_
  obtain ⟨entry, -, rfl⟩ := List.mem_map.mp ha
  rfl

theorem send_sends (n : Notifications) (settings : SettingsState) {topic : NtfyTopic} {push : Push}
    (h : .sendNotification topic push ∈ (n.send settings).2) : push ∈ (n.send settings).1.mail := by
  unfold Notifications.send at h ⊢
  dsimp only at h ⊢
  split at h
  · cases h
  · cases h
  · cases h
  · split at h
    · cases h
    · split at h
      · obtain ⟨-, rfl⟩ := Action.sendNotification.inj (List.mem_singleton.mp h)
        exact List.mem_append_left _ List.mem_cons_self
      · cases h

section
variable (c : Core) (now : ClockReading) (event : Event)

theorem handleStartup_notifications (event : StartupEvent) : (c.handleStartup event).1.notifications =
    if (c.state.handleStartup event).1 =
      .failed then c.notifications.logUnavailable else c.notifications := by
  unfold Core.handleStartup Core.startReading
  dsimp only
  split <;> split <;> rfl

theorem dispatch_log : (c.dispatch now event).1.notifications.log = c.logAfter event := by
  cases event with
  | startup event =>
    change (c.handleStartup event).1.notifications.log = _
    rw [handleStartup_notifications]
    unfold Core.logAfter Core.logGiven Core.failsLog
    by_cases hf : (c.state.handleStartup event).1 = .failed
    · simp only [hf, if_true, logUnavailable_eq, decide_true]
      rfl
    · simp only [hf, if_false, decide_false, Bool.false_eq_true]
  | notification event =>
    cases event with
    | logRead last =>
      unfold Core.logAfter Core.logGiven
      cases hl : c.notifications.log with
      | waiting waiting =>
        simp only [Core.dispatch, Core.handleNotification, Notifications.handle, hl, recordAll_eq]
        rfl
      | _ => simp only [Core.dispatch, Core.handleNotification, Notifications.handle, hl]
    | logReadFailed =>
      simp only [Core.dispatch, Core.handleNotification, Notifications.handle, logUnavailable_eq]
      rfl
    | delivered =>
      simp only [Core.dispatch, Core.handleNotification, Notifications.handle]
      split <;> rfl
    | deliveryFailed reason =>
      simp only [Core.dispatch, Core.handleNotification, Notifications.handle]
      split <;> rfl
    | _ => rfl
  | timerExpired name id =>
    have hexpired : (c.notifications.timerExpired id).log = c.notifications.log := by
      unfold Notifications.timerExpired
      dsimp only
      split
      · split <;> split <;> rfl
      · split <;> rfl
    cases name with
    | notificationGrace => exact hexpired
    | notificationRetry => exact hexpired
    | _ => rfl
  | _ => rfl

theorem dispatch_logged : (c.dispatch now event).2.filterMap Action.logged? =
    (((c.logGiven event).elim [] fun log =>
      log.saved c.notifications.log.held).map Logged.saving).filterMap
      Action.logged? := by
  have hquiet (hp : Part.notifications ∉ event.parts) :
      (c.dispatch now event).2.filterMap Action.logged? = [] := by
    refine List.filterMap_eq_nil_iff.mpr fun a ha => ?_
    have hne : a.part ≠ .notifications := fun h => hp (h ▸ dispatch_parts c now ha)
    cases a <;> first | rfl | exact absurd rfl hne
  cases event with
  | startup event =>
    have hnone {part : Part} {out : List Action} (he : Emits part out) (hp : part ≠ .notifications) :
        out.filterMap Action.logged? = [] := by
      refine List.filterMap_eq_nil_iff.mpr fun a ha => ?_
      have hne : a.part ≠ .notifications := fun h => hp ((he a ha).symm.trans h)
      cases a <;> first | rfl | exact absurd rfl hne
    have hout : (c.dispatch now (.startup event)).2.filterMap Action.logged? = [] := by
      simp only [Core.dispatch, Core.handleStartup, List.filterMap_append]
      rw [hnone (startup_emits c.state event) (by decide)]
      split <;> rfl
    rw [hout]
    unfold Core.logGiven
    by_cases hf : c.failsLog (.startup event) = true
    · simp only [hf, if_true]
      rfl
    · simp only [hf]
      rfl
  | notification event =>
    cases event with
    | logRead last =>
      unfold Core.logGiven
      cases hl : c.notifications.log with
      | waiting waiting =>
        simp only [Core.dispatch, Core.handleNotification, Notifications.handle, hl, recordAll_eq]
        rfl
      | _ => simp only [Core.dispatch, Core.handleNotification, Notifications.handle, hl]; rfl
    | deliveryFailed reason =>
      simp only [Core.dispatch, Core.handleNotification, Notifications.handle]
      split <;> rfl
    | delivered =>
      simp only [Core.dispatch, Core.handleNotification, Notifications.handle]
      split <;> rfl
    | _ => rfl
  | timerExpired name id =>
    cases name with
    | notificationGrace => rfl
    | notificationRetry => rfl
    | _ => exact hquiet (by simp [Event.parts, TimerName.part])
  | _ => exact hquiet (by simp [Event.parts])

theorem dispatch_sent : (c.dispatch now event).2.filterMap Action.sent? = [] := by
  have hquiet (hp : Part.notifications ∉ event.parts) :
      (c.dispatch now event).2.filterMap Action.sent? = [] := by
    refine List.filterMap_eq_nil_iff.mpr fun a ha => ?_
    have hne : a.part ≠ .notifications := fun h => hp (h ▸ dispatch_parts c now ha)
    cases a <;> first | rfl | exact absurd rfl hne
  cases event with
  | startup event =>
    simp only [Core.dispatch, Core.handleStartup, List.filterMap_append]
    have hstarted : (c.state.handleStartup event).2.filterMap Action.sent? = [] := by
      refine List.filterMap_eq_nil_iff.mpr fun a ha => ?_
      have hp := startup_emits c.state event a ha
      cases a <;> first | rfl | cases hp
    rw [hstarted]
    split <;> rfl
  | notification event =>
    simp only [Core.dispatch, Core.handleNotification, Notifications.handle]
    cases event with
    | logRead last =>
      dsimp only
      split
      · rw [recordAll_eq]
        exact saving_sent _
      · rfl
    | delivered =>
      dsimp only
      split <;> rfl
    | deliveryFailed reason =>
      dsimp only
      split <;> rfl
    | _ => rfl
  | timerExpired name id =>
    cases name with
    | notificationGrace => rfl
    | notificationRetry => rfl
    | _ => exact hquiet (by simp [Event.parts, TimerName.part])
  | _ => exact hquiet (by simp [Event.parts])

/-- A push whose retry is due goes back to the front of those that wait. -/
theorem timerExpired_eq (n : Notifications) (id : TimerId) : ∃ graceTimer, n.timerExpired id =
    { (match n.delivery with
       | .retrying push timer =>
         if timer = id then { n with outbox := push :: n.outbox, delivery := .idle } else n
       | _ => n) with graceTimer := graceTimer } := by
  obtain ⟨conditions, log, outbox, delivery, lastOutcome, dropped, failures, graceTimer, mode⟩ := n
  unfold Notifications.timerExpired
  dsimp only
  by_cases hg : (graceTimer.any fun p => p.1 == id) = true
  · refine ⟨none, ?_⟩
    simp only [hg, if_true]
    cases delivery with
    | retrying push timer =>
      dsimp only
      split <;> rfl
    | _ => rfl
  · refine ⟨graceTimer, ?_⟩
    rw [Bool.not_eq_true] at hg
    simp only [hg, Bool.false_eq_true, if_false]
    cases delivery with
    | retrying push timer =>
      dsimp only
      split <;> rfl
    | _ => rfl

theorem timerExpired_mail (n : Notifications) (id : TimerId) {push : Push}
    (h : push ∈ (n.timerExpired id).mail) :
    push ∈ n.mail := by
  obtain ⟨graceTimer, hn⟩ := timerExpired_eq n id
  rw [hn] at h
  obtain ⟨conditions, log, outbox, delivery, lastOutcome, dropped, failures, graceTimer', mode⟩ := n
  cases delivery with
  | retrying p timer =>
    dsimp only at h
    split at h
    · simpa [Notifications.mail] using h
    · exact h
  | _ => exact h

theorem dispatch_mail {push : Push} (h : push ∈ (c.dispatch now event).1.notifications.mail) :
    push ∈ c.notifications.mail ∨
      push ∈ (c.logGiven event).elim [] fun log => log.pushes c.notifications.log.held := by
  cases event with
  | startup event =>
    change push ∈ (c.handleStartup event).1.notifications.mail at h
    rw [handleStartup_notifications] at h
    unfold Core.logGiven Core.failsLog
    by_cases hf : (c.state.handleStartup event).1 = .failed
    · rw [if_pos hf, logUnavailable_eq] at h
      simp only [hf, decide_true, if_true]
      exact enqueueAll_mail _ _ h
    · rw [if_neg hf] at h
      exact .inl h
  | notification event =>
    simp only [Core.dispatch, Core.handleNotification, Notifications.handle] at h
    cases event with
    | logRead last =>
      unfold Core.logGiven
      cases hl : c.notifications.log with
      | waiting waiting =>
        simp only [hl, recordAll_eq, enqueueAll_log] at h
        exact enqueueAll_mail _ _ h
      | _ =>
        simp only [hl] at h
        exact .inl h
    | logReadFailed =>
      simp only [logUnavailable_eq] at h
      exact enqueueAll_mail _ _ h
    | delivered =>
      dsimp only at h
      split at h
      · next p hd =>
        refine .inl (List.mem_append_right _ ?_)
        simpa [Notifications.mail] using h
      · exact .inl h
    | deliveryFailed reason =>
      dsimp only at h
      split at h
      · next p hd =>
        refine .inl ?_
        simpa [Notifications.mail, hd] using h
      · exact .inl h
    | _ => exact .inl h
  | timerExpired name id =>
    cases name with
    | notificationGrace => exact .inl (timerExpired_mail _ id h)
    | notificationRetry => exact .inl (timerExpired_mail _ id h)
    | _ => exact .inl h
  | _ => exact .inl h

/-! ## A whole step -/

theorem note_given : (c.note event).notifications.log = c.notifications.log ∧
    (c.note event).notifications.mail = c.notifications.mail ∧
    (c.note event).logGiven event = c.logGiven event := by
  cases event with
  | startup event => cases event <;> exact ⟨rfl, rfl, rfl⟩
  | _ => exact ⟨rfl, rfl, rfl⟩

theorem note_logAfter : (c.note event).logAfter event = c.logAfter event := by
  unfold Core.logAfter
  rw [(note_given c event).2.2, (note_given c event).1]

theorem handle_notices_out {α : Type} {f : Action → Option α}
    (hf : ∀ a, a.part ≠ .notifications → f a = none) :
    (c.handle now event).2.filterMap f = ((c.note event).dispatch now event).2.filterMap f ++
      ((c.decided now event).notify now (c.note event).glance
        (c.notifications.reported event).2).2.filterMap f := by
  have hn {part : Part} {out : List Action} (h : Emits part out) (hp : part ≠ .notifications) :
      out.filterMap f = [] :=
    List.filterMap_eq_nil_iff.mpr fun a ha => hf a (h a ha ▸ hp)
  rw [handle_out]
  simp only [List.filterMap_append, hn (observe_emits now _) (by decide),
    hn (decideMam_emits c now event) (by decide),
    hn (renewLease_emits _) (by decide), hn (decideQbittorrent_emits now _) (by decide),
    hn (trimHistory_emits _) (by decide), List.append_nil]

end

theorem notify_mail (d : Core) (now : ClockReading) (before : Glance) (reported : List Notice)
    {given : List (SystemTime × Notice)}
    (hg : ((d.notifications.trackAll now.monotonic (assess now.wall
        { d with mam := { d.mam with notices := [] } : Core }.conditionFacts)).2 ++
      (reported ++ d.notifications.changed before d.glance ++ d.mam.notices)).map (fun notice =>
      (now.wall, notice)) = given) :
    ∃ conditions graceTimer grace,
      (∀ a ∈ grace, ∃ id deadline, a = .startTimer .notificationGrace id deadline) ∧
      (d.notify now before reported).1.notifications =
        { ((d.notifications.enqueueAll (d.notifications.log.pushes given)).send d.settings).1 with
          log := d.notifications.log.after given, conditions := conditions, graceTimer := graceTimer } ∧
      (d.notify now before reported).2 = (d.notifications.log.saved given).map Logged.saving ++ grace ++
        ((d.notifications.enqueueAll (d.notifications.log.pushes given)).send d.settings).2 := by
  simp only [Core.notify]
  generalize Core.conditionFacts _ = facts at hg ⊢
  exact afterStep_mail d.notifications now _ facts d.settings d.timers hg

section
variable (c : Core) (now : ClockReading) (event : Event)

/-- The mail once the event is handled and the step's notices are queued. -/
def Core.queued : Notifications :=
  ((c.note event).dispatch now event).1.notifications.enqueueAll
  ((c.logAfter event).pushes (c.given now event))

/-- In a step the notices are recorded where the event left the log, and then the
oldest push is sent. -/
theorem handle_mail : ∃ conditions graceTimer,
    (c.handle now event).1.notifications =
      { ((c.queued now event).send (c.handle now event).1.settings).1 with
        log := (c.logAfter event).after (c.given now event), conditions := conditions, graceTimer :=
          graceTimer } ∧
    (c.handle now event).2.filterMap Action.logged? =
      ((c.entriesOf now event).map Logged.saving).filterMap Action.logged? ∧
    (c.handle now event).2.filterMap Action.sent? =
      ((c.queued now event).send (c.handle now event).1.settings).2.filterMap Action.sent? := by
  have hsettings : (c.handle now event).1.settings = (c.decided now event).settings := by
    rw [handle_eq]
  have hlog : (c.decided now event).notifications.log = c.logAfter event := by
    rw [decided_notifications, dispatch_log, note_logAfter]
  obtain ⟨conditions, graceTimer, grace, hgrace, hstate, hout⟩ := notify_mail (c.decided now event) now
    (c.note event).glance (c.notifications.reported event).2 (rfl : _ = c.given now event)
  rw [hlog, decided_notifications] at hstate hout
  have hsent := send_logged (c.queued now event) (c.handle now event).1.settings
  refine ⟨conditions, graceTimer, ?_, ?_, ?_⟩
  · rw [handle_notifications, hstate, hsettings]
    rfl
  · have hgraced : grace.filterMap Action.logged? = [] := by
      refine List.filterMap_eq_nil_iff.mpr fun a ha => ?_
      obtain ⟨id, deadline, rfl⟩ := hgrace a ha
      rfl
    rw [handle_notices_out c now event fun a ha => by cases a <;> first | rfl | exact absurd rfl ha,
      dispatch_logged,
      hout, ← hsettings]
    change _ ++ (_ ++ ((c.queued now event).send (c.handle now event).1.settings).2).filterMap
      Action.logged? = _
    rw [List.filterMap_append, List.filterMap_append, hgraced, hsent, (note_given c event).2.2,
      (note_given c event).1,
      Core.entriesOf, List.map_append, List.filterMap_append, List.append_nil, List.append_nil]
  · have hgraced : grace.filterMap Action.sent? = [] := by
      refine List.filterMap_eq_nil_iff.mpr fun a ha => ?_
      obtain ⟨id, deadline, rfl⟩ := hgrace a ha
      rfl
    rw [handle_notices_out c now event fun a ha => by cases a <;> first | rfl | exact absurd rfl ha,
      dispatch_sent,
      hout, ← hsettings]
    change _ ++ (_ ++ ((c.queued now event).send (c.handle now event).1.settings).2).filterMap
      Action.sent? = _
    rw [List.filterMap_append, List.filterMap_append, hgraced, saving_sent, List.nil_append,
      List.append_nil, List.nil_append]

theorem handle_mail_sub {push : Push} (h : push ∈ (c.handle now event).1.notifications.mail) :
    push ∈ c.notifications.mail ∨ push ∈ c.pushesOf now event := by
  obtain ⟨conditions, graceTimer, hstate, -⟩ := handle_mail c now event
  rw [hstate] at h
  obtain h | h := enqueueAll_mail _ _ (send_mail _ _ h)
  · obtain ⟨hl, hm, hg⟩ := note_given c event
    have hd := dispatch_mail (c.note event) now event h
    rw [hm, hg, hl] at hd
    obtain hd | hd := hd
    · exact .inl hd
    · exact .inr (List.mem_append_left _ hd)
  · exact .inr (List.mem_append_right _ h)

theorem sent_mail {topic : NtfyTopic} {push : Push}
    (h : .sendNotification topic push ∈ (c.handle now event).2) :
    push ∈ (c.handle now event).1.notifications.mail := by
  obtain ⟨conditions, graceTimer, hstate, -, hsent⟩ := handle_mail c now event
  have hin : (topic, push) ∈ (c.handle now event).2.filterMap Action.sent? :=
    List.mem_filterMap.mpr ⟨_, h, rfl⟩
  rw [hsent] at hin
  obtain ⟨a, ha, hs⟩ := List.mem_filterMap.mp hin
  have hsend : a = .sendNotification topic push := by
    cases a <;> cases hs
    rfl
  rw [hstate]
  exact send_sends _ _ (hsend ▸ ha)

end

/-! ## Places in the log -/

theorem entries_append (next : NoticeId) (notices notices' : List (SystemTime × Notice)) :
    entries next (notices ++ notices') = entries next notices ++
    entries (next.skip notices.length) notices' := by
  induction notices generalizing next with
  | nil => rfl
  | cons p notices ih => exact congrArg (_ :: ·) (ih next.following)

theorem skip_add (next : NoticeId) (j k : Nat) : next.skip (j + k) = (next.skip j).skip k := by
  induction j generalizing next with
  | zero => rw [Nat.zero_add]; rfl
  | succ j ih =>
    rw [Nat.succ_add]
    exact ih next.following

theorem entries_notices (next : NoticeId) (notices : List (SystemTime × Notice)) :
    (entries next notices).map (fun entry => (entry.at', entry.notice)) = notices := by
  induction notices generalizing next with
  | nil => rfl
  | cons p notices ih => exact congrArg (p :: ·) (ih next.following)

theorem following_val (id : NoticeId) : id.following.val = min (id.val + 1) u64Max := rfl

theorem entries_ids (next : NoticeId) (notices : List (SystemTime × Notice))
    (h : next.val + notices.length ≤ u64Max + 1) :
    (entries next notices).map (fun entry => entry.id.val) = List.range' next.val notices.length := by
  induction notices generalizing next with
  | nil => rfl
  | cons p notices ih =>
    rw [List.length_cons] at h ⊢
    rw [List.range'_succ]
    refine congrArg (next.val :: ·) ?_
    cases notices with
    | nil => rfl
    | cons p' notices =>
      have hv : next.following.val = next.val + 1 := by
        rw [following_val]
        rw [List.length_cons] at h
        omega
      have hrest : next.following.val + (p' :: notices).length ≤ u64Max + 1 := by omega
      rw [ih next.following hrest, hv]

theorem forgetThrough_lt {id through : NoticeId} (h : id.forgetThrough = some through) :
    through < id := by
  unfold NoticeId.forgetThrough at h
  split at h
  · obtain rfl := Option.some.inj h
    exact Nat.sub_lt id.pos (by decide : 0 < logKept)
  · cases h

theorem pushes_refer {log : NoticeLog} {notices : List (SystemTime × Notice)}
    (hl : log ≠ .unavailable) {push : Push}
    (h : push ∈ log.pushes notices) :
    ∃ entry ∈ log.saved notices, push = ⟨some entry.id, entry.notice⟩ := by
  cases log with
  | waiting held => cases h
  | unavailable => exact absurd rfl hl
  | ready next =>
    obtain ⟨entry, he, hp⟩ := List.mem_flatMap.mp h
    unfold pushOf at hp
    split at hp
    · exact ⟨entry, he, List.mem_singleton.mp hp⟩
    · cases hp

theorem pushesOf_refer {c : Core} {now : ClockReading} {event : Event}
    (hg : c.logGiven event ≠ some .unavailable)
    (ha : c.logAfter event ≠ .unavailable) {push : Push} (h : push ∈ c.pushesOf now event) :
    ∃ entry ∈ c.entriesOf now event, push = ⟨some entry.id, entry.notice⟩ := by
  unfold Core.pushesOf at h
  obtain h | h := List.mem_append.mp h
  · cases hl : c.logGiven event with
    | none =>
      rw [hl] at h
      cases h
    | some log =>
      rw [hl] at h hg
      obtain ⟨entry, he, hp⟩ := pushes_refer (fun hu => hg (congrArg some hu)) h
      refine ⟨entry, List.mem_append_left _ ?_, hp⟩
      rw [hl]
      exact he
  · obtain ⟨entry, he, hp⟩ := pushes_refer ha h
    exact ⟨entry, List.mem_append_right _ he, hp⟩

/-! ## Runs -/

def noticesGiven (run : List (Reactive.Entry Core TimedEvent Action)) : List (SystemTime × Notice) :=
  run.flatMap fun e => e.before.given e.input.occurredAt e.input.event

/-- The entries asked for in a run, each with the place to forget through. -/
def logged (run : List (Reactive.Entry Core TimedEvent Action)) : List (Logged × Option NoticeId) :=
  run.flatMap fun e => e.out.filterMap Action.logged?

def Event.logRead? : Event → Option (Option NoticeId)
  | .notification (.logRead last) => some last
  | _ => none

def firstRead (run : List (Reactive.Entry Core TimedEvent Action)) : Option (Option NoticeId) :=
  run.findSome? fun e => e.input.event.logRead?

def place (last : Option NoticeId) : NoticeId := last.elim .first NoticeId.following

def LogKept (run : List (Reactive.Entry Core TimedEvent Action)) (c : Core) : Prop :=
  (match c.notifications.log with
   | .waiting held => held = noticesGiven run ∧ logged run = [] ∧ firstRead run = none
   | .ready next =>
     ∃ last, firstRead run = some last ∧ next = (place last).skip (noticesGiven run).length ∧
      logged run = (entries (place last) (noticesGiven run)).map fun entry =>
        (entry, entry.id.forgetThrough)
   | .unavailable => False) ∧
  ∀ push ∈ c.notifications.mail, ∃ p ∈ logged run, push = ⟨some p.1.id, p.1.notice⟩

theorem saving_logged (saved : List Logged) : (saved.map Logged.saving).filterMap Action.logged? =
    saved.map fun entry => (entry, entry.id.forgetThrough) := by
  induction saved with
  | nil => rfl
  | cons entry saved ih => exact congrArg (_ :: ·) ih

section
variable {run : List (Reactive.Entry Core TimedEvent Action)} {c : Core} {i : TimedEvent}

theorem logGiven_sound (hf : c.failsLog i.event = false) :
    c.logGiven i.event = none ∧ (∀ held, c.notifications.log = .waiting held → i.event.logRead? = none) ∨
      ∃ last held, i.event = .notification (.logRead last) ∧ c.notifications.log = .waiting held ∧
        c.logGiven i.event = some (.ready (place last)) := by
  have hnone : ∀ event : Event, event.logRead? = none → c.failsLog event = false →
      c.logGiven event = none := by
    intro event hr hf
    unfold Core.logGiven
    split
    · cases hr
    · rw [hf]
      rfl
  cases hr : i.event.logRead? with
  | none => exact .inl ⟨hnone i.event hr hf, fun _ _ => rfl⟩
  | some last =>
    have he : i.event = .notification (.logRead last) := by
      cases hev : i.event with
      | notification event =>
        rw [hev] at hr
        cases event with
        | logRead last' => exact congrArg _ (congrArg _ (Option.some.inj hr))
        | _ => cases hr
      | _ =>
        rw [hev] at hr
        cases hr
    rw [he]
    cases hl : c.notifications.log with
    | waiting held => exact .inr ⟨last, held, rfl, rfl, by simp only [Core.logGiven, hl, place]⟩
    | _ => exact .inl ⟨by simp only [Core.logGiven, hl], nofun⟩

theorem logKept_step (h : LogKept run c) (hf : c.failsLog i.event = false) :
    LogKept (run ++ [core.entry c i]) (core.step c i).1 := by
  obtain ⟨hlog, hmail⟩ := h
  obtain ⟨conditions, graceTimer, hstate, hout, -⟩ := handle_mail c i.occurredAt i.event
  rw [saving_logged] at hout
  have hgiven : noticesGiven (run ++ [core.entry c i]) = noticesGiven run ++
      c.given i.occurredAt i.event := by
    simp [noticesGiven]
  have hlogged : logged (run ++ [core.entry c i]) = logged run ++
      (c.entriesOf i.occurredAt i.event).map fun entry => (entry, entry.id.forgetThrough) := by
    simp only [logged, List.flatMap_append, List.flatMap_singleton, entry_out, hout]
  have hread : firstRead (run ++ [core.entry c i]) = (firstRead run).or i.event.logRead? := by
    simp [firstRead, List.findSome?_append]
  have hafter : (core.step c i).1.notifications.log =
      (c.logAfter i.event).after (c.given i.occurredAt i.event) := by
    rw [core_step, hstate]
  have hrefer (hg : c.logGiven i.event ≠ some .unavailable) (ha : c.logAfter i.event ≠ .unavailable) :
      ∀ push ∈ (core.step c i).1.notifications.mail,
        ∃ p ∈ logged (run ++ [core.entry c i]), push = ⟨some p.1.id, p.1.notice⟩ := by
    intro push hp
    rw [hlogged]
    obtain hp | hp := handle_mail_sub c i.occurredAt i.event hp
    · obtain ⟨p, hin, he⟩ := hmail push hp
      exact ⟨p, List.mem_append_left _ hin, he⟩
    · obtain ⟨entry, hin, he⟩ := pushesOf_refer hg ha hp
      exact ⟨(entry, entry.id.forgetThrough), List.mem_append_right _ (List.mem_map_of_mem hin), he⟩
  -- no reading of the log came, or the first one did
  obtain ⟨hnone, hunread⟩ | ⟨last, held, he, hl, hsome⟩ := logGiven_sound hf
  · have hla : c.logAfter i.event = c.notifications.log := by simp only [Core.logAfter, hnone]
    have hentries : c.entriesOf i.occurredAt i.event =
        c.notifications.log.saved (c.given i.occurredAt i.event) := by
      simp only [Core.entriesOf, hnone, hla, Option.elim_none, List.nil_append]
    have hready : c.logAfter i.event ≠ .unavailable := by
      intro hu
      rw [hla] at hu
      rw [hu] at hlog
      exact hlog
    refine ⟨?_, hrefer (by simp [hnone]) hready⟩
    rw [hafter, hgiven, hlogged, hread, hla, hentries]
    cases hl : c.notifications.log with
    | waiting held =>
      rw [hl] at hlog
      obtain ⟨hheld, hnothing, hno⟩ := hlog
      refine ⟨congrArg (· ++ _) hheld, ?_, ?_⟩
      · rw [hnothing]
        rfl
      · rw [hno, hunread held hl]
        rfl
    | ready next =>
      rw [hl] at hlog
      obtain ⟨last, hlast, hnext, hsaved⟩ := hlog
      refine ⟨last, ?_, ?_, ?_⟩
      · rw [hlast]
        rfl
      · rw [hnext, List.length_append, skip_add]
      · rw [hsaved, entries_append, List.map_append, ← hnext]
        rfl
    | unavailable =>
      rw [hl] at hlog
      exact hlog
  · have hla : c.logAfter i.event = .ready ((place last).skip held.length) := by
      simp only [Core.logAfter, hsome, hl]
      rfl
    have hentries : c.entriesOf i.occurredAt i.event =
        entries (place last) held ++
        entries ((place last).skip held.length) (c.given i.occurredAt i.event) := by
      simp only [Core.entriesOf, hsome, hla, hl]
      rfl
    refine ⟨?_, hrefer (by simp [hsome]) (by simp [hla])⟩
    rw [hafter, hgiven, hlogged, hread, hla, hentries]
    rw [hl] at hlog
    obtain ⟨hheld, hnothing, hno⟩ := hlog
    refine ⟨last, ?_, ?_, ?_⟩
    · rw [hno, he]
      rfl
    · rw [hheld, List.length_append, skip_add]
    · rw [hnothing, hheld, ← entries_append]
      rfl

end

/-- In a run whose steps do not report the log unreadable, the invariant holds. -/
theorem logKept_run (is : List TimedEvent)
    (h : ∀ e ∈ core.run is, e.before.failsLog e.input.event = false) :
    LogKept (core.run is) (core.last is) := by
  refine Reactive.run_invariant core (I := LogKept)
    (H := fun run => ∀ e ∈ run, e.before.failsLog e.input.event = false) ?_ ?_ ?_ is h
  · exact fun run e h f hf => h f (List.mem_append_left _ hf)
  · exact ⟨⟨rfl, rfl, rfl⟩, by simp [core, Core.new, Notifications.mail, Notifications.new]⟩
  · exact fun run c i hk h =>
      logKept_step hk (h (core.entry c i) (List.mem_append_right _ List.mem_cons_self))

/-! ## A log that cannot be read -/

/-- Once the log is reported unreadable, a step saves nothing and leaves it so. -/
theorem unreadable_step {c : Core} {i : TimedEvent}
    (h : c.failsLog i.event = true ∨ c.notifications.log = .unavailable) :
    (core.entry c i).out.filterMap Action.logged? = [] ∧
    (core.step c i).1.notifications.log = .unavailable := by
  obtain ⟨conditions, graceTimer, hstate, hout, -⟩ := handle_mail c i.occurredAt i.event
  have hgiven : (c.logGiven i.event = none ∧ c.notifications.log = .unavailable) ∨
      c.logGiven i.event = some .unavailable := by
    unfold Core.logGiven
    split
    · next last he =>
      obtain h | h := h
      · rw [he] at h
        cases h
      · exact .inl ⟨by rw [h], h⟩
    · split
      · exact .inr rfl
      · next hf =>
        obtain h | h := h
        · exact absurd h hf
        · exact .inl ⟨rfl, h⟩
  have hla : c.logAfter i.event = .unavailable := by
    obtain ⟨hg, hl⟩ | hg := hgiven
    · simp only [Core.logAfter, hg, hl]
    · simp only [Core.logAfter, hg]
      rfl
  have hentries : c.entriesOf i.occurredAt i.event = [] := by
    obtain ⟨hg, -⟩ | hg := hgiven
    · simp only [Core.entriesOf, hg, hla]
      rfl
    · simp only [Core.entriesOf, hg, hla]
      rfl
  refine ⟨?_, ?_⟩
  · rw [entry_out, hout, hentries]
    rfl
  · rw [core_step, hstate, hla]
    rfl

theorem unreadable_trace {c : Core} (is : List TimedEvent) (h : c.notifications.log = .unavailable) :
    logged (core.trace c is) = [] := by
  induction is generalizing c with
  | nil => rfl
  | cons i is ih =>
    obtain ⟨hout, hlog⟩ := unreadable_step (i := i) (.inr h)
    change (core.entry c i).out.filterMap Action.logged? ++ logged (core.trace (core.step c i).1 is) = []
    rw [hout, ih hlog]
    rfl

theorem place_ids {last : Option NoticeId} {notices : List (SystemTime × Notice)}
    (hn : last.elim 0 PNat.val + notices.length ≤ u64Max) :
    (entries (place last) notices).map (fun entry => entry.id.val) =
      List.range' (last.elim 0 PNat.val + 1) notices.length := by
  cases notices with
  | nil => rfl
  | cons p notices =>
    have hp : (place last).val = last.elim 0 PNat.val + 1 := by
      cases last with
      | none => rfl
      | some id =>
        have hid : id.val + (p :: notices).length ≤ u64Max := hn
        have hv : (place (some id)).val = min (id.val + 1) u64Max := following_val id
        rw [List.length_cons] at hid
        change (place (some id)).val = id.val + 1
        omega
    rw [← hp]
    refine entries_ids _ _ ?_
    omega

/-- In a run whose steps do not report the log unreadable, in which it is read as
ending at a place: the notices given have one entry each, in order, in the places
that follow; every push names the entry of its notice; and an entry forgets only
places before its own. Once a step reports the log unreadable nothing is saved any
more. -/
theorem notices_logged_in_order (is : List TimedEvent) (last : Option NoticeId)
    (hs : ∀ e ∈ core.run is, e.before.failsLog e.input.event = false)
    (hread : firstRead (core.run is) = some last)
    (hn : last.elim 0 PNat.val + (noticesGiven (core.run is)).length ≤ u64Max) :
    (logged (core.run is)).map (fun p => (p.1.at', p.1.notice)) = noticesGiven (core.run is) ∧
    (logged (core.run is)).map (fun p => p.1.id.val) =
      List.range' (last.elim 0 PNat.val + 1) (noticesGiven (core.run is)).length ∧
    (∀ pre e post, core.run is = pre ++ e :: post → ∀ topic push, .sendNotification topic push ∈ e.out →
      ∃ p ∈ logged (pre ++ [e]), push = { entry := some p.1.id, notice := p.1.notice }) ∧
    (∀ p ∈ logged (core.run is), ∀ through, p.2 = some through → through < p.1.id) ∧
    ∀ i js, (core.last is).failsLog i.event = true →
    logged (core.run (is ++ i :: js)) = logged (core.run is) := by
  obtain ⟨hlog, -⟩ := logKept_run is hs
  have hsaved : logged (core.run is) =
      (entries (place last) (noticesGiven (core.run is))).map fun entry =>
        (entry, entry.id.forgetThrough) := by
    cases hl : (core.last is).notifications.log with
    | waiting held =>
      rw [hl] at hlog
      rw [hlog.2.2] at hread
      cases hread
    | ready next =>
      rw [hl] at hlog
      obtain ⟨last', hlast, -, hsaved⟩ := hlog
      obtain rfl := Option.some.inj (hread.symm.trans hlast)
      exact hsaved
    | unavailable =>
      rw [hl] at hlog
      exact hlog.elim
  refine ⟨?_, ?_, ?_, ?_, ?_⟩
  · rw [hsaved, List.map_map]
    exact entries_notices _ _
  · rw [hsaved, List.map_map]
    exact place_ids hn
  · intro pre e post hrun topic push hsent
    obtain ⟨js, i, ks, -, rfl, rfl, -⟩ := Reactive.run_split core hrun
    have hsound : ∀ e ∈ core.run (js ++ [i]), e.before.failsLog e.input.event = false := by
      intro e he
      refine hs e ?_
      rw [Reactive.run_snoc, List.mem_append, List.mem_singleton] at he
      rw [hrun, List.mem_append, List.mem_cons]
      obtain he | he := he
      · exact .inl he
      · exact .inr (.inl he)
    obtain ⟨-, hmail⟩ := logKept_run (js ++ [i]) hsound
    rw [Reactive.last_snoc, Reactive.run_snoc] at hmail
    exact hmail push (sent_mail _ _ _ hsent)
  · intro p hp through ht
    rw [hsaved] at hp
    obtain ⟨entry, -, rfl⟩ := List.mem_map.mp hp
    exact forgetThrough_lt ht
  · intro i js hf
    have hcut : core.run (is ++ i :: js) = core.run is ++ core.entry (core.last is) i ::
        core.trace (core.step (core.last is) i).1 js := Reactive.trace_append core core.init is (i :: js)
    obtain ⟨hout, hlog⟩ := unreadable_step (i := i) (.inl hf)
    rw [hcut, logged, List.flatMap_append, List.flatMap_cons, hout]
    change _ ++ ([] ++ logged (core.trace (core.step (core.last is) i).1 js)) = _
    rw [unreadable_trace js hlog, List.append_nil, List.append_nil]
    rfl

/-! ## Two runs -/

def openedEvents : List TimedEvent :=
  [.after 0 (.startup (.start .resume)), .after 0 (.startup .storageOpened),
    .after 0 (.notification .sendTest)]

def pushTopic : NtfyTopic := ⟨"topic", by decide⟩

def loggedEvents : List TimedEvent :=
  openedEvents ++ [.after 0 (.notification (.logRead (some (Nat.toPNat' 9)))),
    .after 0 (.settings (.read none none (some pushTopic) none none)), .after 1 (.notification .sendTest)]

theorem tests_logged : (noticesGiven (core.run loggedEvents)).length = 2 ∧
    (logged (core.run loggedEvents)).map (fun p => p.1.id.val) = [10, 11] := by
  have hs : ∀ e ∈ core.run loggedEvents, e.before.failsLog e.input.event = false := by decide +kernel
  have hread : firstRead (core.run loggedEvents) = some (some 9) := by decide +kernel
  have hlen : (noticesGiven (core.run loggedEvents)).length = 2 := by decide +kernel
  obtain ⟨-, hids, -⟩ := notices_logged_in_order loggedEvents (some 9) hs hread (by rw [hlen]; decide)
  rw [hlen] at hids
  exact ⟨hlen, hids⟩

def unreadableEvents : List TimedEvent :=
  -- the log is read as empty, and then reported unreadable
  openedEvents ++ [.after 0 (.notification (.logRead none)), .after 1 (.notification .logReadFailed),
    .after 2 (.notification .sendTest)]

def fullLogEvents : List TimedEvent :=
  -- the log is read as ending at the last place there is
  openedEvents ++ [.after 0 (.notification (.logRead (some ⟨u64Max, by decide⟩))),
    .after 1 (.notification .sendTest)]

theorem notice_without_entry :
    (firstRead (core.run unreadableEvents) = some none ∧
      (noticesGiven (core.run unreadableEvents)).map Prod.snd = [.test, .test] ∧
      (logged (core.run unreadableEvents)).map (fun p => (p.1.id.val, p.1.notice)) = [(1, .test)]) ∧
    (firstRead (core.run fullLogEvents) = some (some ⟨u64Max, by decide⟩) ∧
      (logged (core.run fullLogEvents)).map (fun p => p.1.id.val) = [u64Max, u64Max]) := by
  decide +kernel

end Windlass
