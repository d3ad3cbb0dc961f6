import Windlass.NoticeSound
import Windlass.SettingSound
import Windlass.Outbox

/-!
# The push outbox

A ledger follows every push from the step that queues it, and says what became of
it. The notifications hold what the ledger holds: pushes are sent in the order
they were queued, one at a time.
-/

namespace Windlass

open Post

/-! ## The ledger -/

def SettingsState.noTopic : SettingsState → Bool
  | .loaded settings => settings.ntfyTopic.saved.isNone
  | .readFailed => true
  | .unread | .reading => false

def Notifications.retries (n : Notifications) (id : TimerId) : Bool :=
  match n.delivery with
  | .retrying _ timer => timer = id
  | .idle | .sending _ => false

def ledgerEvent (n : Notifications) (event : Event) (o : Outbox Push) : Outbox Push :=
  match event with
  | .notification .delivered => o.deliver
  | .notification (.deliveryFailed _) => o.fail
  | .timerExpired .notificationGrace id | .timerExpired .notificationRetry id =>
    if n.retries id then o.retry else o
  | _ => o

def ledgerSend (settings : SettingsState) (sent : List (NtfyTopic × Push)) (o : Outbox Push) :
    Outbox Push :=
  let kept := if settings.noTopic then o.discard else o
  if sent = [] then kept else kept.send

def ledgerNext (o : Outbox Push) (e : Reactive.Entry Core TimedEvent Action) : Outbox Push :=
  ledgerSend e.after.settings (e.out.filterMap Action.sent?)
    ((ledgerEvent e.before.notifications e.input.event o).queueAll outboxLimit
      (e.before.pushesOf e.input.occurredAt e.input.event))

def ledger (run : List (Reactive.Entry Core TimedEvent Action)) : Outbox Push :=
  run.foldl ledgerNext .empty

def pushesQueued (run : List (Reactive.Entry Core TimedEvent Action)) : List Push :=
  run.flatMap fun e => e.before.pushesOf e.input.occurredAt e.input.event

def pushesSent (run : List (Reactive.Entry Core TimedEvent Action)) : List Push :=
  run.flatMap fun e => (e.out.filterMap Action.sent?).map Prod.snd

structure Matches (n : Notifications) (o : Outbox Push) : Prop where
  waiting : n.outbox = o.waiting.map Prod.snd
  delivery : match n.delivery with
    | .idle => o.current = none
    | .sending push => ∃ k, o.current = some ((k, push), .underway)
    | .retrying push _ => ∃ k, o.current = some ((k, push), .failed)
  dropped : n.dropped = min o.dropped.length u64Max

section
variable {n : Notifications} {o : Outbox Push}

theorem Matches.congr (h : Matches n o) {n' : Notifications} (ho : n'.outbox = n.outbox)
    (hd : n'.delivery = n.delivery)
    (hdr : n'.dropped = n.dropped) : Matches n' o where
  waiting := ho.trans h.waiting
  delivery := hd ▸ h.delivery
  dropped := hdr.trans h.dropped

theorem Matches.queue (h : Matches n o) (push : Push) :
    Matches (n.enqueue push) (o.queue outboxLimit push) := by
  have hlen : n.outbox.length = o.waiting.length := by rw [h.waiting, List.length_map]
  unfold Notifications.enqueue Outbox.queue
  rw [hlen]
  dsimp only
  split
  · next hfull =>
    refine ⟨?_, h.delivery, ?_⟩
    · change n.outbox.tail ++ [push] = (o.waiting.tail ++ [(o.queued.length, push)]).map Prod.snd
      rw [h.waiting, List.map_append, List.map_tail]
      rfl
    · change satAdd u64Max n.dropped 1 = min (o.dropped ++ o.waiting.head?.toList).length u64Max
      have hone : o.waiting.head?.toList.length = 1 := by
        cases hw : o.waiting with
        | nil =>
          rw [hw] at hfull
          exact absurd hfull (by decide)
        | cons first rest => rfl
      rw [h.dropped, List.length_append, hone]
      unfold satAdd
      omega
  · refine ⟨?_, h.delivery, h.dropped⟩
    change n.outbox ++ [push] = (o.waiting ++ [(o.queued.length, push)]).map Prod.snd
    rw [h.waiting, List.map_append]
    rfl

theorem Matches.queueAll (h : Matches n o) (pushes : List Push) :
    Matches (n.enqueueAll pushes) (o.queueAll outboxLimit pushes) := by
  induction pushes generalizing n o with
  | nil => exact h
  | cons push pushes ih => exact ih (h.queue push)

theorem Matches.discard (h : Matches n o) : Matches { n with
    outbox := []
    delivery :=
      match n.delivery with
      | .retrying .. => .idle
      | delivery => delivery } o.discard := by
  have hd := h.delivery
  unfold Outbox.discard
  cases hn : n.delivery with
  | idle =>
    rw [hn] at hd
    rw [hd]
    exact ⟨rfl, rfl, h.dropped⟩
  | sending push =>
    rw [hn] at hd
    obtain ⟨k, hk⟩ := hd
    rw [hk]
    exact ⟨rfl, ⟨k, rfl⟩, h.dropped⟩
  | retrying push timer =>
    rw [hn] at hd
    obtain ⟨k, hk⟩ := hd
    rw [hk]
    exact ⟨rfl, rfl, h.dropped⟩

theorem discard_attempts (o : Outbox Push) : o.discard.attempts = o.attempts := by
  unfold Outbox.discard
  split <;> rfl

theorem Matches.send (h : Matches n o) (settings : SettingsState) :
    Matches (n.send settings).1 (ledgerSend settings ((n.send settings).2.filterMap Action.sent?) o) ∧
      (ledgerSend settings ((n.send settings).2.filterMap Action.sent?) o).attempts.map Prod.snd =
        o.attempts.map Prod.snd ++ ((n.send settings).2.filterMap Action.sent?).map Prod.snd := by
  have hnone : o.discard.attempts.map Prod.snd = o.attempts.map Prod.snd ++ [] := by
    rw [discard_attempts, List.append_nil]
  unfold Notifications.send ledgerSend
  cases settings with
  | unread => exact ⟨h, (List.append_nil _).symm⟩
  | reading => exact ⟨h, (List.append_nil _).symm⟩
  | readFailed => exact ⟨h.discard, hnone⟩
  | loaded settings =>
    cases ht : settings.ntfyTopic.saved with
    | none =>
      simp only [SettingsState.noTopic, ht, Option.isNone_none, if_true]
      exact ⟨h.discard, hnone⟩
    | some topic =>
      simp only [SettingsState.noTopic, ht, Option.isNone_some, Bool.false_eq_true, if_false]
      have hd := h.delivery
      have hw := h.waiting
      cases hn : n.delivery with
      | idle =>
        rw [hn] at hd
        cases ho : n.outbox with
        | nil => exact ⟨h, (List.append_nil _).symm⟩
        | cons push rest =>
          rw [ho] at hw
          cases hwait : o.waiting with
          | nil =>
            rw [hwait] at hw
            cases hw
          | cons item items =>
            rw [hwait, List.map_cons] at hw
            obtain ⟨rfl, rfl⟩ := List.cons.inj hw
            have hsend : o.send = { o with
                waiting := items, current := some (item, .underway), attempts :=
                  o.attempts ++ [item] } := by
              simp only [Outbox.send, hd, hwait]
            change Matches _ o.send ∧ o.send.attempts.map Prod.snd = _
            rw [hsend]
            refine ⟨⟨rfl, ⟨item.1, rfl⟩, h.dropped⟩, ?_⟩
            exact List.map_append
      | sending push => exact ⟨h, (List.append_nil _).symm⟩
      | retrying push timer => exact ⟨h, (List.append_nil _).symm⟩

theorem queue_attempts (limit : Nat) (pushes : List Push) (o : Outbox Push) :
    (o.queueAll limit pushes).attempts = o.attempts ∧
      (o.queueAll limit pushes).queued.map Prod.snd = o.queued.map Prod.snd ++ pushes := by
  induction pushes generalizing o with
  | nil => exact ⟨rfl, (List.append_nil _).symm⟩
  | cons push pushes ih =>
    obtain ⟨kept, -, -, -, hq, -, ha, -⟩ := @queue_held Push o limit push
    obtain ⟨hattempts, hqueued⟩ := ih (o.queue limit push)
    refine ⟨hattempts.trans ha, hqueued.trans ?_⟩
    rw [hq, List.map_append, List.append_assoc]
    rfl

theorem queueAll_append (limit : Nat) (pushes pushes' : List Push) (o : Outbox Push) :
    o.queueAll limit (pushes ++ pushes') = (o.queueAll limit pushes).queueAll limit pushes' :=
      List.foldl_append

end

/-! ## What an event does -/

section
variable (c : Core) (now : ClockReading) (event : Event) {o : Outbox Push}

theorem Matches.timerExpired {n : Notifications} (h : Matches n o) (id : TimerId) :
    Matches (n.timerExpired id) (if n.retries id then o.retry else o) := by
  obtain ⟨graceTimer, hn⟩ := timerExpired_eq n id
  rw [hn]
  unfold Notifications.retries
  have hd := h.delivery
  cases hdel : n.delivery with
  | retrying push timer =>
    rw [hdel] at hd
    obtain ⟨k, hk⟩ := hd
    by_cases ht : timer = id
    · simp only [ht, if_true, decide_true]
      have hr : o.retry = { o with current := none, waiting := (k, push) :: o.waiting } := by
        simp only [Outbox.retry, hk]
      rw [hr]
      exact ⟨congrArg (push :: ·) h.waiting, rfl, h.dropped⟩
    · simp only [ht, if_false, decide_false, Bool.false_eq_true]
      exact h.congr rfl rfl rfl
  | _ => exact h.congr rfl rfl rfl

theorem dispatch_matches (h : Matches c.notifications o) : Matches (c.dispatch now event).1.notifications
    ((ledgerEvent c.notifications event o).queueAll outboxLimit
      ((c.logGiven event).elim [] fun log => log.pushes c.notifications.log.held)) := by
  cases event with
  | startup event =>
    change Matches (c.handleStartup event).1.notifications _
    rw [handleStartup_notifications]
    unfold Core.logGiven Core.failsLog
    by_cases hf : (c.state.handleStartup event).1 = .failed
    · rw [if_pos hf, logUnavailable_eq]
      simp only [hf, decide_true, if_true]
      exact (h.queueAll _).congr rfl rfl rfl
    · rw [if_neg hf]
      simp only [hf, decide_false, Bool.false_eq_true, if_false]
      exact h
  | notification event =>
    simp only [Core.dispatch, Core.handleNotification, Notifications.handle]
    cases event with
    | logRead last =>
      unfold Core.logGiven
      cases hl : c.notifications.log with
      | waiting waiting =>
        simp only [recordAll_eq, enqueueAll_log]
        exact (h.queueAll _).congr rfl rfl rfl
      | _ => exact h
    | logReadFailed =>
      simp only [logUnavailable_eq]
      exact (h.queueAll _).congr rfl rfl rfl
    | delivered =>
      have hd := h.delivery
      change Matches _ o.deliver
      -- a report counts only for the push that is being sent
      cases hn : c.notifications.delivery with
      | sending push =>
        rw [hn] at hd
        obtain ⟨k, hk⟩ := hd
        have ho : o.deliver = { o with current := none, delivered := o.delivered ++ [(k, push)] } := by
          simp only [Outbox.deliver, hk]
        rw [ho]
        exact ⟨h.waiting, rfl, h.dropped⟩
      | idle =>
        rw [hn] at hd
        have ho : o.deliver = o := by simp only [Outbox.deliver, hd]
        rw [ho]
        exact h
      | retrying push timer =>
        rw [hn] at hd
        obtain ⟨k, hk⟩ := hd
        have ho : o.deliver = o := by simp only [Outbox.deliver, hk]
        rw [ho]
        exact h
    | deliveryFailed reason =>
      have hd := h.delivery
      change Matches _ o.fail
      cases hn : c.notifications.delivery with
      | sending push =>
        rw [hn] at hd
        obtain ⟨k, hk⟩ := hd
        have ho : o.fail = { o with current := some ((k, push), .failed) } := by
          simp only [Outbox.fail, hk]
        rw [ho]
        exact ⟨h.waiting, ⟨k, rfl⟩, h.dropped⟩
      | idle =>
        rw [hn] at hd
        have ho : o.fail = o := by simp only [Outbox.fail, hd]
        rw [ho]
        exact h
      | retrying push timer =>
        rw [hn] at hd
        obtain ⟨k, hk⟩ := hd
        have ho : o.fail = o := by simp only [Outbox.fail, hk]
        rw [ho]
        exact h
    | _ => exact h
  | timerExpired name id =>
    cases name with
    | notificationGrace => exact h.timerExpired id
    | notificationRetry => exact h.timerExpired id
    | _ => exact h
  | _ => exact h

theorem note_mail : (c.note event).notifications.outbox = c.notifications.outbox ∧
    (c.note event).notifications.delivery = c.notifications.delivery ∧
    (c.note event).notifications.dropped = c.notifications.dropped := by
  cases event with
  | startup event => cases event <;> exact ⟨rfl, rfl, rfl⟩
  | _ => exact ⟨rfl, rfl, rfl⟩

theorem ledgerEvent_delivery {n n' : Notifications} (h : n'.delivery = n.delivery) (o : Outbox Push) :
    ledgerEvent n' event o = ledgerEvent n event o := by
  unfold ledgerEvent Notifications.retries
  rw [h]

theorem queued_matches (h : Matches c.notifications o) : Matches (c.queued now event)
    ((ledgerEvent c.notifications event o).queueAll outboxLimit (c.pushesOf now event)) := by
  obtain ⟨ho, hd, hdr⟩ := note_mail c event
  obtain ⟨hl, -, hg⟩ := note_given c event
  have hdispatched := dispatch_matches (c.note event) now event (h.congr ho hd hdr)
  rw [ledgerEvent_delivery event hd, hg, hl] at hdispatched
  unfold Core.pushesOf
  rw [queueAll_append]
  exact hdispatched.queueAll _

end

/-! ## Settings that were read stay read -/

def SettingsState.isRead : SettingsState → Bool
  | .loaded _ | .readFailed => true
  | .unread | .reading => false

theorem isRead_handle {s : SettingsState} (h : s.isRead = true) (event : SettingsEvent) :
    (s.handle event).1.isRead = true := by
  cases s with
  | loaded s => cases event <;> rfl
  | readFailed => cases event <;> rfl
  | _ => cases h

theorem isRead_step {c : Core} {now : ClockReading} {event : Event} (hc : CookieInv c)
    (h : c.settings.isRead = true) :
    (c.handle now event).1.settings.isRead = true := by
  by_cases hs : ∃ e, event = .settings e
  · obtain ⟨e, rfl⟩ := hs
    rw [(step_settings .ntfyTopic c now e).1]
    exact isRead_handle h e
  · obtain ⟨k, -, hsettings, -⟩ | ⟨-, -, hsettings | ⟨he, hsettings⟩⟩ :=
      step_other .ntfyTopic c now fun e he => hs ⟨e, he⟩
    · rw [hsettings]
      cases hst : c.settings with
      | loaded s => rfl
      | readFailed => rfl
      | _ =>
        rw [hst] at h
        cases h
    · rw [hsettings]
      exact h
    · have hearly := hc.started (by rintro hu; rw [hu] at h; cases h)
      rw [he] at hearly
      cases hearly

/-! ## The bound -/

section
variable {n : Notifications} {o : Outbox Push}

theorem ledgerEvent_room (h : Matches n o) (event : Event) :
    (ledgerEvent n event o).waiting.length ≤ o.waiting.length ∨
      (ledgerEvent n event o).waiting.length ≤ o.waiting.length + 1 ∧
      (ledgerEvent n event o).current = none ∧
        n.delivery ≠ .idle := by
  have hretry (id : TimerId) : (if n.retries id then o.retry else o).waiting.length ≤ o.waiting.length ∨
      (if n.retries id then o.retry else o).waiting.length ≤ o.waiting.length + 1 ∧
        (if n.retries id then o.retry else o).current = none ∧ n.delivery ≠ .idle := by
    by_cases hr : n.retries id = true
    · rw [if_pos hr]
      unfold Notifications.retries at hr
      have hd := h.delivery
      cases hn : n.delivery with
      | retrying push timer =>
        rw [hn] at hd
        obtain ⟨k, hk⟩ := hd
        refine .inr ⟨?_, ?_, by simp⟩
        · simp [Outbox.retry, hk]
        · simp [Outbox.retry, hk]
      | _ =>
        rw [hn] at hr
        cases hr
    · rw [if_neg hr]
      exact .inl (le_refl _)
  have hdeliver : o.deliver.waiting = o.waiting := by
    unfold Outbox.deliver
    split <;> rfl
  have hfail : o.fail.waiting = o.waiting := by
    unfold Outbox.fail
    split <;> rfl
  unfold ledgerEvent
  split
  · exact .inl (by rw [hdeliver])
  · exact .inl (by rw [hfail])
  · exact hretry _
  · exact hretry _
  · exact .inl (le_refl _)

theorem queueAll_current (limit : Nat) (pushes : List Push) (o : Outbox Push) :
    (o.queueAll limit pushes).current = o.current := by
  induction pushes generalizing o with
  | nil => rfl
  | cons push pushes ih =>
    obtain ⟨kept, -, -, -, -, hc, -⟩ := @queue_held Push o limit push
    exact (ih (o.queue limit push)).trans hc

theorem Matches.idle (h : Matches n o) : n.delivery = .idle ↔ o.current = none := by
  have hd := h.delivery
  cases hn : n.delivery with
  | idle =>
    rw [hn] at hd
    exact ⟨fun _ => hd, fun _ => rfl⟩
  | sending push =>
    rw [hn] at hd
    obtain ⟨k, hk⟩ := hd
    simp [hk]
  | retrying push timer =>
    rw [hn] at hd
    obtain ⟨k, hk⟩ := hd
    simp [hk]

theorem ledgerEvent_idle (h : o.current = none) (n : Notifications) (event : Event) :
    (ledgerEvent n event o).current = none := by
  have hdeliver : o.deliver.current = none := by simp [Outbox.deliver, h]
  have hfail : o.fail.current = none := by simp [Outbox.fail, h]
  have hretry : o.retry.current = none := by simp [Outbox.retry, h]
  unfold ledgerEvent
  split
  · exact hdeliver
  · exact hfail
  · split
    · exact hretry
    · exact h
  · split
    · exact hretry
    · exact h
  · exact h

theorem send_idle {settings : SettingsState} (h : n.delivery = .idle) (hs : settings.isRead = false) :
    (n.send settings).1.delivery = .idle := by
  cases settings with
  | unread => exact h
  | reading => exact h
  | _ => cases hs

theorem send_room (settings : SettingsState) (h : n.outbox.length ≤ outboxLimit ∨
      n.outbox.length ≤ outboxLimit + 1 ∧ n.delivery = .idle ∧ settings.isRead = true) :
    (n.send settings).1.outbox.length ≤ outboxLimit := by
  unfold Notifications.send
  dsimp only
  split
  · obtain h | ⟨-, -, hs⟩ := h
    · exact h
    · cases hs
  · obtain h | ⟨-, -, hs⟩ := h
    · exact h
    · cases hs
  · exact Nat.zero_le _
  · split
    · exact Nat.zero_le _
    · split
      · next push rest hd ho =>
        rw [ho, List.length_cons] at h
        change rest.length ≤ outboxLimit
        omega
      · next hno =>
        obtain h | ⟨-, hd, -⟩ := h
        · exact h
        · cases ho : n.outbox with
          | nil => exact Nat.zero_le _
          | cons push rest => exact absurd ho (hno push rest hd)

end

theorem handle_room {c : Core} {o : Outbox Push} (now : ClockReading) (event : Event) (hc : CookieInv c)
    (h : Matches c.notifications o) (hu : c.settings.isRead = false → c.notifications.delivery = .idle)
    (hb : c.notifications.outbox.length ≤ outboxLimit) :
    (c.handle now event).1.notifications.outbox.length ≤ outboxLimit := by
  obtain ⟨conditions, graceTimer, hstate, -⟩ := handle_mail c now event
  rw [hstate]
  change ((c.queued now event).send _).1.outbox.length ≤ outboxLimit
  refine send_room _ ?_
  have hq := queued_matches c now event h
  have hlen : (c.queued now event).outbox.length =
    ((ledgerEvent c.notifications event o).queueAll outboxLimit
      (c.pushesOf now event)).waiting.length := by
    rw [hq.waiting, List.length_map]
  have hmax := @queueAll_length Push (ledgerEvent c.notifications event o) outboxLimit (by decide)
    (c.pushesOf now event)
  have hwait : o.waiting.length ≤ outboxLimit := by
    rw [h.waiting, List.length_map] at hb
    exact hb
  obtain hroom | ⟨hroom, hcurrent, hd⟩ := ledgerEvent_room h event
  · left
    rw [hlen]
    omega
  · right
    refine ⟨?_, ?_, ?_⟩
    · rw [hlen]
      omega
    · rw [hq.idle, queueAll_current, hcurrent]
    · refine isRead_step hc ?_
      cases hr : c.settings.isRead with
      | true => rfl
      | false => exact absurd (hu hr) hd

/-! ## Runs -/

structure Posted (run : List (Reactive.Entry Core TimedEvent Action)) (c : Core) : Prop where
  inv : CookieInv c
  sound : (ledger run).Sound
  held : Matches c.notifications (ledger run)
  unread : c.settings.isRead = false → c.notifications.delivery = .idle
  bounded : c.notifications.outbox.length ≤ outboxLimit
  queued : (ledger run).queued.map Prod.snd = pushesQueued run
  sent : (ledger run).attempts.map Prod.snd = pushesSent run

theorem ledgerEvent_sound {o : Outbox Push} (h : o.Sound) (n : Notifications) (event : Event) :
    (ledgerEvent n event o).Sound ∧ (ledgerEvent n event o).queued = o.queued ∧
      (ledgerEvent n event o).attempts = o.attempts := by
  have hdeliver : o.deliver.queued = o.queued ∧ o.deliver.attempts = o.attempts := by
    unfold Outbox.deliver
    split <;> exact ⟨rfl, rfl⟩
  have hfail : o.fail.queued = o.queued ∧ o.fail.attempts = o.attempts := by
    unfold Outbox.fail
    split <;> exact ⟨rfl, rfl⟩
  have hretry : o.retry.queued = o.queued ∧ o.retry.attempts = o.attempts := by
    unfold Outbox.retry
    split <;> exact ⟨rfl, rfl⟩
  unfold ledgerEvent
  split
  · exact ⟨h.deliver, hdeliver⟩
  · exact ⟨h.fail, hfail⟩
  · split
    · exact ⟨h.retry, hretry⟩
    · exact ⟨h, rfl, rfl⟩
  · split
    · exact ⟨h.retry, hretry⟩
    · exact ⟨h, rfl, rfl⟩
  · exact ⟨h, rfl, rfl⟩

theorem ledgerSend_sound {o : Outbox Push} (h : o.Sound) (settings : SettingsState)
    (sent : List (NtfyTopic × Push)) :
    (ledgerSend settings sent o).Sound ∧ (ledgerSend settings sent o).queued = o.queued := by
  have hdiscard : o.discard.queued = o.queued := by
    unfold Outbox.discard
    split <;> rfl
  have hsend (o : Outbox Push) : o.send.queued = o.queued := by
    unfold Outbox.send
    split <;> rfl
  unfold ledgerSend
  dsimp only
  split
  · split
    · exact ⟨h.discard, hdiscard⟩
    · exact ⟨h, rfl⟩
  · split
    · exact ⟨h.discard.send, (hsend _).trans hdiscard⟩
    · exact ⟨h.send, hsend o⟩

theorem posted_step {run : List (Reactive.Entry Core TimedEvent Action)} {c : Core}
    (h : Posted run c) (i : TimedEvent) :
    Posted (run ++ [core.entry c i]) (core.step c i).1 := by
  obtain ⟨conditions, graceTimer, hstate, -, hsent⟩ := handle_mail c i.occurredAt i.event
  have hledger : ledger (run ++ [core.entry c i]) = ledgerSend (c.handle i.occurredAt i.event).1.settings
      (((c.queued i.occurredAt i.event).send (c.handle i.occurredAt i.event).1.settings).2.filterMap
        Action.sent?)
      ((ledgerEvent c.notifications i.event (ledger run)).queueAll outboxLimit
        (c.pushesOf i.occurredAt i.event)) := by
    rw [← hsent]
    unfold ledger
    rw [List.foldl_append]
    rfl
  obtain ⟨hevent, heq, hea⟩ := ledgerEvent_sound h.sound c.notifications i.event
  obtain ⟨hqa, hqq⟩ := queue_attempts outboxLimit (c.pushesOf i.occurredAt i.event)
    (ledgerEvent c.notifications i.event (ledger run))
  have hqueued := queued_matches c i.occurredAt i.event h.held
  obtain ⟨hmatches, hattempts⟩ := hqueued.send (c.handle i.occurredAt i.event).1.settings
  obtain ⟨hsound, hq⟩ := ledgerSend_sound (hevent.queueAll outboxLimit (c.pushesOf i.occurredAt i.event))
    (c.handle i.occurredAt i.event).1.settings
    (((c.queued i.occurredAt i.event).send (c.handle i.occurredAt i.event).1.settings).2.filterMap
      Action.sent?)
  rw [← hledger] at hmatches hattempts hsound hq
  refine ⟨cookieInv_step i.occurredAt i.event h.inv, hsound, ?_, ?_, ?_, ?_, ?_⟩
  · rw [core_step, hstate]
    exact hmatches.congr rfl rfl rfl
  · intro hr
    have hbefore : c.settings.isRead = false := by
      cases hb : c.settings.isRead with
      | false => rfl
      | true => exact absurd (isRead_step h.inv hb) (by rw [Bool.not_eq_true]; exact hr)
    have hnone := h.held.idle.mp (h.unread hbefore)
    have hidle : (c.queued i.occurredAt i.event).delivery = .idle := by
      refine hqueued.idle.mpr ?_
      rw [queueAll_current]
      exact ledgerEvent_idle hnone _ _
    rw [core_step, hstate]
    exact send_idle hidle hr
  · exact handle_room i.occurredAt i.event h.inv h.held h.unread h.bounded
  · rw [hq, hqq, heq, h.queued]
    simp [pushesQueued]
  · rw [hattempts, hqa, hea, h.sent, ← hsent]
    simp [pushesSent]

theorem posted_run (is : List TimedEvent) : Posted (core.run is) (core.last is) := by
  refine Reactive.run_invariant core (I := Posted) (H := fun _ => True)
    (fun _ _ _ => trivial) ?_ ?_ is trivial
  · exact ⟨cookieInv_init, sound_empty, ⟨rfl, rfl, rfl⟩, fun _ => rfl, Nat.zero_le _, rfl, rfl⟩
  · exact fun run c i h _ => posted_step h i

/-- In every run, with the ledger of what became of each push queued: the outbox, the
push under way and the count of those dropped are the ledger's; every push queued has
one fate; pushes are sent in the order they were queued, and a later one only once an
earlier one that was sent is delivered, dropped from a full outbox, or discarded
without a topic; and no more than the limit wait. -/
theorem pushes_in_order (is : List TimedEvent) :
    (ledger (core.run is)).queued.map Prod.snd = pushesQueued (core.run is) ∧
    (ledger (core.run is)).queued.map Prod.fst = List.range (pushesQueued (core.run is)).length ∧
    (ledger (core.run is)).attempts.map Prod.snd = pushesSent (core.run is) ∧
    Matches (core.last is).notifications (ledger (core.run is)) ∧
    ((ledger (core.run is)).delivered ++ ((ledger (core.run is)).current.map Prod.fst).toList ++
      (ledger (core.run is)).waiting ++ (ledger (core.run is)).dropped ++
      (ledger (core.run is)).discarded).Perm
        (ledger (core.run is)).queued ∧
    (ledger (core.run is)).attempts.Pairwise (fun a b => a.1 ≤ b.1) ∧
    (∀ a ∈ (ledger (core.run is)).attempts, ∀ b ∈ (ledger (core.run is)).attempts, a.1 < b.1 →
      a ∈ (ledger (core.run is)).delivered ∨ a ∈ (ledger (core.run is)).dropped ∨
        a ∈ (ledger (core.run is)).discarded) ∧
    (core.last is).notifications.outbox.length ≤ outboxLimit := by
  have h := posted_run is
  refine ⟨h.queued, ?_, h.sent, h.held, ?_, h.sound.sorted, ?_, h.bounded⟩
  · rw [h.sound.numbers, ← h.queued, List.length_map]
  · have hfates := h.sound.fates
    rw [Outbox.held, ← List.append_assoc] at hfates
    exact hfates
  · exact fun a ha b hb hlt => h.sound.settled ha hb hlt

/-! ## Two runs -/

def topicEvents : List TimedEvent :=
  openedEvents ++ [.after 0 (.notification (.logRead none)),
    .after 0 (.settings (.read none none (some pushTopic) none none))]

def clearedEvents : List TimedEvent :=
  -- the push sent fails, and the owner has no topic for a while
  topicEvents ++ [.after 1 (.notification (.deliveryFailed .unreachable)),
    .after 2 (.settings .clearNtfyTopic),
    .after 2 (.settings .ntfyTopicWritten), .after 3 (.settings (.setNtfyTopic pushTopic)),
    .after 3 (.settings .ntfyTopicWritten), .after 4 (.notification .sendTest)]

def fullOutboxEvents : List TimedEvent :=
  -- the retry is due in a step that queues a push into a full outbox
  topicEvents ++ [.after 0 (.portForwarding .enable),
    .after 1 (.notification (.deliveryFailed .unreachable))] ++
    List.replicate 50 (.after 2 (.notification .sendTest)) ++
    [.after 300 (.timerExpired .notificationRetry 1)]

set_option maxRecDepth 10000 in
theorem failed_push_not_retried :
    ((ledger (core.run clearedEvents)).attempts.map Prod.fst = [0, 1] ∧
      (ledger (core.run clearedEvents)).delivered = [] ∧
      (ledger (core.run clearedEvents)).discarded.map Prod.fst = [0]) ∧
    ((ledger (core.run fullOutboxEvents)).attempts.map Prod.fst = [0, 1] ∧
      (ledger (core.run fullOutboxEvents)).delivered = [] ∧
      (ledger (core.run fullOutboxEvents)).dropped.map Prod.fst = [0]) := by
  decide +kernel

end Windlass
