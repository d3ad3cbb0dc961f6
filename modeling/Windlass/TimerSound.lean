import Windlass.Answers

/-!
# Timers end in the future

A timer is asked for in eight places. Most of them wait a fixed time or one that
was filtered to lie ahead; the grace timer alone is set for when the earliest
pending condition's grace ends, which has passed if the condition could not be
read when it ended.
-/

namespace Windlass

/-! ## Timers among the actions -/

def Ahead (now : Instant) (out : List Action) : Prop :=
  ∀ name id deadline, .startTimer name id deadline ∈ out → now < deadline.at'

section
variable {now : Instant}

@[simp] theorem ahead_nil : Ahead now [] := by simp [Ahead]

@[simp] theorem ahead_cons {a : Action} {out : List Action} : Ahead now (a :: out) ↔
    (∀ name id deadline, a = .startTimer name id deadline → now < deadline.at') ∧ Ahead now out := by
  simp only [Ahead, List.mem_cons, or_imp, forall_and, eq_comm]

theorem ahead_start {name : TimerName} {id : TimerId} {deadline : Deadline} :
    Ahead now [.startTimer name id deadline] ↔ now < deadline.at' := by simp

@[simp] theorem ahead_append {out out' : List Action} :
    Ahead now (out ++ out') ↔ Ahead now out ∧ Ahead now out' := by
  simp only [Ahead, List.mem_append, or_imp, forall_and]

theorem Emits.ahead {part : Part} {out : List Action} (h : Emits part out)
    (hp : part ∈ [Part.startup, .mamPause, .settings, .history, .registry]) : Ahead now out := by
  intro name id deadline ha
  have hname : name.part = part := h _ ha
  cases name <;> simp [← hname, TimerName.part] at hp

theorem schedule_ahead (timers : Timers) {after : Duration} (hp : 0 < after)
    (hl : now + after ≤ Instant.latest) :
    now < (timers.schedule now after).2.2.at' := by
  have h : now.checkedAdd after = some (now + after) := Instant.checkedAdd_eq_some.mpr ⟨hl, rfl⟩
  simp only [Timers.schedule, h, Option.getD_some]
  exact Nat.lt_add_of_pos_right hp

theorem schedule_zero (timers : Timers) : (timers.schedule now 0).2.2.at' = now := by
  simp only [Timers.schedule, Instant.checkedAdd, Nat.add_zero]
  split <;> rfl

theorem schedule_until (timers : Timers) {due : Instant} (hp : now < due) (hl : due ≤ Instant.latest) :
    now < (timers.schedule now (due.durationSince now)).2.2.at' := by
  have hd : now + due.durationSince now = due := Nat.add_sub_cancel' hp.le
  exact schedule_ahead timers (Nat.sub_pos_of_lt hp) (hd.trans_le hl)

end

theorem setPreferences_ahead {now : Instant} {s s' : Session} {wanted : Wanted} {out : List Action}
    (h : s.setPreferences wanted = some (s', out)) : Ahead now out := by
  unfold Session.setPreferences at h
  split at h
  · cases h; simp
  · split at h
    · cases h; simp
    · cases h

theorem followPreferences_ahead {now : Instant} (q : Qbittorrent) (wanted : Wanted) :
    Ahead now (q.followPreferences wanted).2 := by
  unfold Qbittorrent.followPreferences
  split
  · split
    · split
      · next h => exact setPreferences_ahead h
      · simp
    · simp
  · simp

theorem recordAll_ahead {now : Instant} (n : Notifications) (notices : List (SystemTime × Notice)) :
    Ahead now (n.recordAll notices).2 := by
  unfold Notifications.recordAll
  generalize ho : ([] : List Action) = out
  have hout : Ahead now out := by simp [← ho]
  clear ho
  induction notices generalizing n out with
  | nil => exact hout
  | cons p notices ih =>
    refine ih _ _ (ahead_append.mpr ⟨hout, ?_⟩)
    unfold Notifications.record
    split <;> simp

/-! ## Fixed waits -/

def longestWait : Duration := Duration.fromMins 30

/-- The clock has room for the waits the core chooses itself, and a lifetime the
gateway grants can be waited for. -/
structure Timely (i : TimedEvent) : Prop where
  room : i.occurredAt.monotonic + longestWait ≤ Instant.latest
  lifetime : ∀ tcp udp lifetime, i.event = .portForwarding (.mapped tcp udp lifetime) →
    lifetime ≠ 1 ∧ i.occurredAt.monotonic + lifetime * 3 / 4 ≤ Instant.latest

theorem renewal_pos {lifetime : Nat} (h0 : lifetime ≠ 0) (h1 : lifetime ≠ 1) :
    0 < lifetime * 3 / 4 := by omega

theorem retryAfter_bounds (failures : FailureCount) :
    0 < retryAfter failures ∧ retryAfter failures ≤ longestWait := by
  have hone : 1 ≤ min (2 ^ (failures - 1)) u32Max := le_min Nat.one_le_two_pow (by decide)
  have hfirst : 0 < retryFirst * min (2 ^ (failures - 1)) u32Max := Nat.mul_pos (by decide) hone
  exact ⟨lt_min hfirst (by decide), (min_le_right _ _).trans (by decide)⟩

section
variable {now : ClockReading} (hr : now.monotonic + longestWait ≤ Instant.latest) (timers : Timers)
include hr

theorem wait_ahead (name : TimerName) {after : Duration} (hp : 0 < after) (hl : after ≤ longestWait) :
    Ahead now.monotonic
      [.startTimer name (timers.schedule now.monotonic after).2.1
        (timers.schedule now.monotonic after).2.2] := by
  have h := schedule_ahead timers hp ((Nat.add_le_add_left hl _).trans hr)
  simpa using h

theorem portForwarding_handle_ahead (p : PortForwarding) {event : PortForwardingEvent}
    (hm : ∀ tcp udp lifetime, event = .mapped tcp udp lifetime →
      lifetime ≠ 1 ∧ now.monotonic + lifetime * 3 / 4 ≤ Instant.latest) :
    Ahead now.monotonic (p.handle now event timers).2.2 := by
  have hretry (lease failures reason) :
      Ahead now.monotonic (PortForwarding.retry lease failures now reason timers).2.2 :=
    wait_ahead hr timers .portLease (by decide) (by decide)
  unfold PortForwarding.handle
  split
  · simp
  · next tcp udp lifetime =>
    split
    · next h0 =>
      obtain ⟨h1, hl⟩ := hm tcp udp lifetime rfl
      simpa using schedule_ahead timers (renewal_pos h0 h1) hl
    · exact hretry _ _ _
  · exact hretry _ _ _
  · simp

theorem tunnel_handle_ahead (t : Tunnel) (event : TunnelEvent) :
    Ahead now.monotonic (t.handle now event timers).2.2 := by
  have hcheck := wait_ahead hr timers .tunnelCheck (show 0 < checkInterval by decide) (by decide)
  have hretry := wait_ahead hr timers .tunnelCheck (show 0 < checkRetryAfter by decide) (by decide)
  unfold Tunnel.handle
  split
  · simp
  · simp
  · simp
  · split
    · exact hcheck
    · simp
  · split
    · unfold Tunnel.checkFailed
      dsimp only
      split
      · simp [Watch.failOver]
      · exact hretry
    · simp
  · split <;> simp
  · split <;> simp [Watch.checkNow]
  · split
    · exact hretry
    · simp
  · split
    · exact hretry
    · simp
  · simp

theorem qbittorrent_handle_ahead (q : Qbittorrent) (event : QbittorrentEvent) :
    Ahead now.monotonic (q.handle now event timers).2.2 := by
  have hpoll := wait_ahead hr timers .qbittorrentPoll (show 0 < pollInterval by decide) (by decide)
  unfold Qbittorrent.handle
  split
  · simp
  · simp
  · split <;> simp
  · split <;> simp
  · split
    · exact hpoll
    · simp
  · split <;> simp
  · split <;> simp
  all_goals first | exact hpoll | simp

theorem qbittorrent_decide_ahead {ρ : Type} (q : Qbittorrent) (wanted : Wanted) (registry : ρ)
    (command : ρ → Session → ρ × Option TorrentCommand) :
    Ahead now.monotonic (q.decide now timers wanted registry command).2.2.2 := by
  unfold Qbittorrent.decide
  split
  · simp
  · split
    · next h => exact setPreferences_ahead h
    · split
      · simp
      · split
        · simp
        · split
          · simp
          · exact wait_ahead hr timers .qbittorrentPoll (by decide) (by decide)

theorem notifications_handle_ahead (n : Notifications) (event : NotificationEvent) :
    Ahead now.monotonic (n.handle now event timers).2.2 := by
  unfold Notifications.handle
  split
  · split
    · exact recordAll_ahead _ _
    · simp
  · simp
  · split <;> simp
  · split
    · have h := retryAfter_bounds n.failures.afterAnother
      exact wait_ahead hr timers .notificationRetry h.1 h.2
    · simp
  all_goals simp

end

/-! ## Handling the event -/

section
variable (c : Core) {now : ClockReading}

theorem handleStartup_ahead (event : StartupEvent) : Ahead now.monotonic (c.handleStartup event).2 := by
  simp only [Core.handleStartup, ahead_append]
  refine ⟨(startup_emits c.state event).ahead (by decide), ?_⟩
  split
  · simp [Core.startReading, SettingsState.startReading, HistoryState.openStorage, Registry.startReading,
      Tunnel.startReading, Mam.startReading]
  · simp

theorem handleMam_ahead (event : MamEvent) : Ahead now.monotonic (c.handleMam now event).2 := by
  simp only [Core.handleMam, ahead_append]
  constructor
  · by_cases he : event = .registrationAttemptSaved
    · subst he
      simp only [Mam.handle, Mam.registrationAttemptSaved]
      split
      · split <;> simp
      · simp
    · intro name id deadline ha
      obtain hr | ⟨guard, hr⟩ := mam_handle_books c.mam now c.registry he _ ha
      · cases name <;> cases hr
      · cases hr
  · split
    · exact (settings_rotate_emits _ _).ahead (by decide)
    · simp

theorem timerExpired_ahead (name : TimerName) (id : TimerId) :
    Ahead now.monotonic (c.timerExpired now name id).2 := by
  cases name with
  | portLease =>
    simp only [Core.timerExpired, PortForwarding.timerExpired]
    split
    · split <;> simp
    · simp
  | qbittorrentPoll =>
    simp only [Core.timerExpired, Qbittorrent.timerExpired]
    split
    · split <;> simp
    · split <;> simp
    · simp
  | tunnelCheck =>
    simp only [Core.timerExpired, Tunnel.timerExpired]
    split
    · split <;> simp [Watch.checkNow]
    · simp
  | _ => exact ahead_nil

theorem renew_ahead (p : PortForwarding) : Ahead now.monotonic p.renew.2 := by
  unfold PortForwarding.renew
  split <;> simp

theorem suspect_ahead (t : Tunnel) : Ahead now.monotonic (t.suspect now).2 := by
  unfold Tunnel.suspect
  split
  · split
    · split <;> simp [Watch.checkNow]
    · simp
  · simp

theorem dispatch_ahead {event : Event} (h : Timely { occurredAt := now, event := event }) :
    Ahead now.monotonic (c.dispatch now event).2 := by
  cases event with
  | startup event => exact handleStartup_ahead c event
  | mamPause event => exact (mamPause_emits c.state event).ahead (by decide)
  | settings event => exact (settings_handle_emits c.settings event).ahead (by decide)
  | history event => exact ahead_nil
  | timerExpired name id => exact timerExpired_ahead c name id
  | portForwarding event =>
    simp only [Core.dispatch, Core.handlePortForwarding, ahead_append]
    constructor
    · refine portForwarding_handle_ahead h.room c.timers c.portForwarding ?_
      rintro tcp udp lifetime rfl
      exact h.lifetime tcp udp lifetime rfl
    · split
      · exact suspect_ahead c.tunnel
      · simp
  | qbittorrent event => exact qbittorrent_handle_ahead h.room c.timers c.qbittorrent event
  | registry event => exact (registry_handle_emits c.registry now.monotonic event).ahead (by decide)
  | tunnel event =>
    simp only [Core.dispatch, Core.handleTunnel, ahead_append]
    refine ⟨tunnel_handle_ahead h.room c.timers c.tunnel event, ?_⟩
    split
    · exact renew_ahead c.portForwarding
    · simp
  | notification event => exact notifications_handle_ahead h.room c.timers c.notifications event
  | mam event => exact handleMam_ahead c event

end

/-! ## The wake-up of MAM work -/

theorem minOf_eq_some {times : List (Option Instant)} {due : Instant} :
    minOf times = some due ↔ some due ∈ times ∧ ∀ due', some due' ∈ times → due ≤ due' := by
  unfold minOf
  rw [List.min?_eq_some_iff]
  simp only [List.mem_filterMap, id_eq, exists_eq_right]

theorem minOf_eq_none {times : List (Option Instant)} : minOf times = none ↔ ∀ due, some due ∉ times := by
  unfold minOf
  rw [List.min?_eq_none_iff, List.filterMap_eq_nil_iff]
  constructor
  · intro h due hd
    exact Option.some_ne_none due (h (some due) hd)
  · intro h time ht
    cases time with
    | none => rfl
    | some due => exact absurd ht (h due)

def Tellable (time : Option Instant) : Prop := ∀ due, time = some due → due ≤ Instant.latest

theorem tellable_none : Tellable none := by
  rintro due ⟨⟩

theorem tellable_checkedAdd (t : Instant) (d : Duration) : Tellable (t.checkedAdd d) := by
  intro due h
  obtain ⟨hl, rfl⟩ := Instant.checkedAdd_eq_some.mp h
  exact hl

theorem tellable_bind {α : Type} {f : α → Option Instant} (h : ∀ a, Tellable (f a)) (o : Option α) :
    Tellable (o.bind f) := by
  cases o with
  | none => exact tellable_none
  | some a => exact h a

theorem Tellable.filter {time : Option Instant} (h : Tellable time) (p : Instant → Bool) :
    Tellable (time.filter p) :=
  fun due hd => h due (Option.filter_eq_some_iff.mp hd).1

theorem Tellable.min {t u : Instant} (h : Tellable (some t)) : Tellable (some (min t u)) := by
  rintro due ⟨⟩
  exact (min_le_left t u).trans (h t rfl)

theorem Tellable.max {t u : Instant} (h : Tellable (some t)) (h' : Tellable (some u)) :
    Tellable (some (max t u)) := by
  rintro due ⟨⟩
  exact max_le (h t rfl) (h' u rfl)

theorem tellable_minOf {times : List (Option Instant)} (h : ∀ time ∈ times, Tellable time) :
    Tellable (minOf times) :=
  fun due hd => h _ (minOf_eq_some.mp hd).1 due rfl

structure Mam.Told (m : Mam) : Prop where
  lookup : Tellable m.network.nextLookup
  read : Tellable m.account.nextRead
  list : Tellable m.acquisition.bookmarks.next

section
variable {now : ClockReading} {answer : Answer}

theorem network_answered_told {n : Network} (h : Tellable n.nextLookup) :
    Tellable (n.answered now answer).nextLookup := by
  unfold Network.answered
  split
  · simp only [Network.observe, tellable_checkedAdd]
  · simp only [Network.failed, tellable_checkedAdd]
  · exact h

theorem account_answered_told {a : Account} (h : Tellable a.nextRead) :
    Tellable (a.answered now answer).nextRead := by
  unfold Account.answered
  split
  · simp only [Account.read, tellable_checkedAdd]
  · simp only [Account.failed, tellable_checkedAdd]
  · exact h
  · exact h

theorem checked_nextRead (a : Account) (sale : Sale) : (a.checked sale).1.nextRead = a.nextRead := by
  unfold Account.checked
  split
  · split <;> rfl
  · rfl

theorem bookmarks_answered_told {b : Bookmarks} (h : Tellable b.next) :
    Tellable (b.answered now answer).next := by
  unfold Bookmarks.answered
  split
  · unfold Bookmarks.page
    dsimp only
    split
    · simp only [tellable_checkedAdd]
    · exact h
  · simp only [Bookmarks.failed, tellable_checkedAdd]
  · exact h

end

section
variable {c : Core} {now : ClockReading} {event : Event}

theorem received_told (h : c.mam.Told) : (c.received now event).mam.Told := by
  have hr := received_receives c now event
  constructor
  · obtain hn | ⟨_, hn⟩ | ⟨_, hn⟩ := hr.network
    · rw [hn]
      exact network_answered_told h.lookup
    · rw [hn]
      exact h.lookup
    · rw [hn]
      exact tellable_none
  · obtain ha | ⟨sale, _, ha⟩ := hr.account
    · rw [ha]
      exact account_answered_told h.read
    · rw [ha, checked_nextRead]
      exact h.read
  · rw [hr.bookmarks]
    exact bookmarks_answered_told h.list

theorem handle_told (h : c.mam.Told) : (c.handle now event).1.mam.Told := by
  have hr := @received_told c now event h
  constructor
  · rw [handle_network]
    obtain ⟨hn, _⟩ | ⟨hn, _⟩ := surveyed_network c now event
    · rw [hn]
      exact hr.lookup
    · rw [hn]
      exact tellable_none
  · rw [handle_account]
    exact hr.read
  · rw [handle_acquisition]
    exact hr.list

theorem sending_told (h : c.mam.Told) : (c.sending now event).1.Told := by
  obtain ⟨wake, hm⟩ := handle_mam c now event
  have hh := @handle_told c now event h
  rw [hm] at hh
  exact ⟨hh.lookup, hh.read, hh.list⟩

end

theorem new_told : Mam.new.Told := by
  constructor <;> exact tellable_none

theorem told_last (is : List TimedEvent) : (core.last is).mam.Told :=
  Reactive.last_invariant core (I := fun c => c.mam.Told) new_told (fun _ _ h => handle_told h) is

theorem network_nextDue_tellable {n : Network} (h : Tellable n.nextLookup) : Tellable n.nextDue := by
  have hs : Tellable (n.lastSent.bind fun sent => sent.checkedAdd lookupSpacing) :=
    tellable_bind (fun sent => tellable_checkedAdd sent _) _
  unfold Network.nextDue
  split
  · next hn hsp => exact (hn ▸ h).max (hsp ▸ hs)
  · next hn _ => exact hn ▸ h
  · next hsp => exact hs

theorem routineDue_tellable {a : Account} (h : Tellable a.nextRead) : Tellable a.routineDue := by
  unfold Account.routineDue
  cases hn : a.nextRead with
  | none => exact tellable_none
  | some next =>
    rw [hn] at h
    simp only [Option.map_some]
    split
    · cases a.reading.bind fun reading => reading.taken.checkedAdd accountReadWhileDownloading with
      | none => exact h
      | some t => exact h.min
    · exact h

theorem account_nextDue_tellable {a : Account} (h : Tellable a.nextRead) (early : Bool) :
    Tellable (a.nextDue early) := by
  have hr := routineDue_tellable h
  have he : Tellable (if early then a.lastRequest.bind fun last =>
      last.checkedAdd earlyReadSpacing else none) := by
    split
    · exact tellable_bind (fun last => tellable_checkedAdd last _) _
    · exact tellable_none
  unfold Account.nextDue
  dsimp only
  split
  · exact h
  · split
    · next hn _ => exact (hn ▸ hr).min
    · next hn _ => exact hn ▸ hr
    · exact he

theorem acquisition_nextDue_tellable (a : Acquisition) : Tellable a.nextDue := by
  unfold Acquisition.nextDue
  refine tellable_minOf fun time ht => ?_
  simp only [List.mem_cons, List.not_mem_nil, or_false] at ht
  obtain rfl | rfl | rfl | rfl := ht
  · refine tellable_minOf fun time ht => ?_
    obtain ⟨watched, _, rfl⟩ := List.mem_map.mp ht
    split
    · exact tellable_bind (fun latest => tellable_checkedAdd _ _) _
    · exact tellable_none
  · refine tellable_minOf fun time ht => ?_
    obtain ⟨id, _, rfl⟩ := List.mem_map.mp ht
    exact (tellable_bind (fun attempt => tellable_checkedAdd attempt _) _).filter _
  · exact tellable_bind (fun failed => tellable_checkedAdd failed _) _
  · exact tellable_bind (fun failed => tellable_checkedAdd failed _) _

theorem nextToken_tellable (b : Budget) (now : Instant) : Tellable (b.nextToken now) := by
  unfold Budget.nextToken
  split
  · exact tellable_checkedAdd _ _
  · exact tellable_none

theorem wakeDue_ahead {m : Mam} (h : m.Told) {now : ClockReading} {early : Bool} {due : Instant}
    (hd : m.wakeDue now early = some due) : now.monotonic < due ∧ due ≤ Instant.latest := by
  unfold Mam.wakeDue at hd
  obtain ⟨hm, _⟩ := minOf_eq_some.mp hd
  obtain ⟨time, ht, hf⟩ := List.mem_map.mp hm
  obtain ⟨rfl, hlt⟩ := Option.filter_eq_some_iff.mp hf
  refine ⟨by simpa using hlt, ?_⟩
  have hat (at' : SystemTime) :
      Tellable (now.monotonic.checkedAdd ((at'.durationSince now.wall).getD 0)) := tellable_checkedAdd _ _
  suffices Tellable (some due) from this due rfl
  obtain hr | hw := List.mem_cons.mp ht
  · rw [hr]
    split
    · exact tellable_bind hat _
    · exact tellable_none
  · split at hw
    · simp only [List.mem_cons, List.not_mem_nil, or_false] at hw
      obtain hw | hw | hw | hw | hw | hw := hw <;> rw [hw]
      · exact network_nextDue_tellable h.lookup
      · split
        · exact hat _
        · exact tellable_none
        · exact tellable_none
      · exact account_nextDue_tellable h.read early
      · unfold Bookmarks.nextDue
        split
        · exact tellable_none
        · exact h.list
      · exact acquisition_nextDue_tellable _
      · exact nextToken_tellable _ _
    · cases hw

theorem scheduleWake_ahead {m : Mam} (h : m.Told) (now : ClockReading) (early : Bool) (timers : Timers) :
    Ahead now.monotonic (m.scheduleWake now early timers).2.2 := by
  unfold Mam.scheduleWake
  split
  · simp
  · next due hd =>
    split
    · simp
    · obtain ⟨hlt, hl⟩ := wakeDue_ahead h hd
      simpa using schedule_until timers hlt hl

/-! ## Conditions and their grace -/

theorem Instant.lt_add_of_durationSince {t earlier d : Nat} (h : Instant.durationSince t earlier < d) :
    t < earlier + d := by
  have hsub : t - earlier < d := h
  omega

def Condition.followed (condition : Condition) (now : Instant) : Option Phase → Status → Option Phase
  | none, .active _ => some (if condition.grace = 0 then .raised else .pending now)
  | some (.pending since), .active _ =>
    some (if condition.grace ≤ now.durationSince since then .raised else .pending since)
  | _, .clear _ => none
  | phase, _ => phase

section
variable (n : Notifications) (now : Instant)

theorem track_conditions (condition condition' : Condition) (status : Status) :
    (n.track now condition status).1.conditions[condition']? =
      if condition' = condition then condition.followed now n.conditions[condition]? status
      else n.conditions[condition']? := by
  by_cases hc : condition' = condition
  · subst hc
    rw [if_pos rfl]
    unfold Notifications.track
    cases hp : n.conditions[condition']? with
    | none =>
      cases status with
      | active notice =>
        simp only [Condition.followed]
        split <;> simp
      | clear notice => exact hp
      | unchanged => exact hp
    | some phase =>
      cases phase with
      | pending since =>
        cases status with
        | active notice =>
          simp only [Condition.followed]
          split <;> simp [hp]
        | clear notice => simp [Condition.followed]
        | unchanged => exact hp
      | raised =>
        cases status with
        | active notice => exact hp
        | clear notice => simp [Condition.followed]
        | unchanged => exact hp
  · have hne : condition ≠ condition' := Ne.symm hc
    rw [if_neg hc]
    unfold Notifications.track
    split
    · split <;> simp [Std.ExtTreeMap.getElem?_insert, hne]
    · split <;> simp [Std.ExtTreeMap.getElem?_insert, hne]
    · simp [Std.ExtTreeMap.getElem?_erase, hne]
    · simp [Std.ExtTreeMap.getElem?_erase, hne]
    · rfl

theorem track_graceTimer (condition : Condition) (status : Status) :
    (n.track now condition status).1.graceTimer = n.graceTimer := by
  unfold Notifications.track
  split
  · split <;> rfl
  · split <;> rfl
  all_goals rfl

theorem trackAll_fst (statuses : List (Condition × Status)) : (n.trackAll now statuses).1 =
    statuses.foldl (fun n p => (n.track now p.1 p.2).1) n := by
  unfold Notifications.trackAll
  generalize ([] : List Notice) = notices
  induction statuses generalizing n notices with
  | nil => rfl
  | cons p statuses ih => exact ih _ _

theorem trackAll_graceTimer (statuses : List (Condition × Status)) :
    (n.trackAll now statuses).1.graceTimer = n.graceTimer := by
  rw [trackAll_fst]
  induction statuses generalizing n with
  | nil => rfl
  | cons p statuses ih => exact (ih _).trans (track_graceTimer n now p.1 p.2)

theorem trackAll_conditions {conditions : List Condition} (hn : conditions.Nodup)
    (status : Condition → Status)
    (condition : Condition) :
    (n.trackAll now (conditions.map fun condition =>
      (condition, status condition))).1.conditions[condition]? =
      if condition ∈ conditions then condition.followed now n.conditions[condition]? (status condition)
      else n.conditions[condition]? := by
  rw [trackAll_fst]
  -- each condition is tracked apart from the others
  induction conditions generalizing n with
  | nil => simp
  | cons first conditions ih =>
    obtain ⟨hfirst, hrest⟩ := List.nodup_cons.mp hn
    simp only [List.map_cons, List.foldl_cons]
    rw [ih _ hrest, track_conditions]
    by_cases hc : condition = first
    · subst hc
      simp [hfirst]
    · simp [hc]

theorem mem_assessed (condition : Condition) : condition ∈ assessed := by
  cases condition <;> decide

theorem assess_conditions (wall : SystemTime) (facts : ConditionFacts) (condition : Condition) :
    (n.trackAll now (assess wall facts)).1.conditions[condition]? =
      condition.followed now n.conditions[condition]? (facts.status wall condition) := by
  have h := trackAll_conditions n now (show assessed.Nodup by decide) (facts.status wall) condition
  rw [if_pos (mem_assessed condition)] at h
  exact h

end

theorem followed_pending {condition : Condition} {now since : Instant} {phase : Option Phase}
    {status : Status}
    (h : condition.followed now phase status = some (.pending since)) :
    phase = none ∧ since = now ∧ condition.grace ≠ 0 ∨
    phase = some (.pending since) ∧ now.durationSince since < condition.grace ∨
    phase = some (.pending since) ∧ status = .unchanged := by
  unfold Condition.followed at h
  split at h
  · left
    split at h
    · cases h
    · next hg =>
      cases h
      exact ⟨rfl, rfl, hg⟩
  · right
    left
    split at h
    · cases h
    · next hg =>
      cases h
      exact ⟨rfl, not_le.mp hg⟩
  · cases h
  · right
    right
    cases status <;> simp_all

def Notifications.Ends (n : Notifications) (condition : Condition) (due : Instant) : Prop :=
  ∃ since, n.conditions[condition]? = some (.pending since) ∧ since.checkedAdd condition.grace = some due

section
variable {n : Notifications} {now : Instant}

theorem mem_dues {due : Instant} :
    some due ∈ n.conditions.toList.map (fun (condition, phase) => phase.due condition) ↔
      ∃ condition, n.Ends condition due := by
  rw [List.mem_map]
  constructor
  · rintro ⟨⟨condition, phase⟩, hm, hd⟩
    have hp := Std.ExtTreeMap.mem_toList_iff_getElem?_eq_some.mp hm
    cases phase with
    | pending since => exact ⟨condition, since, hp, hd⟩
    | raised => cases hd
  · rintro ⟨condition, since, hp, hd⟩
    exact ⟨(condition, .pending since), Std.ExtTreeMap.mem_toList_iff_getElem?_eq_some.mpr hp, hd⟩

theorem graceDue_eq_some {due : Instant} : n.graceDue = some due ↔
    (∃ condition, n.Ends condition due) ∧ ∀ condition due', n.Ends condition due' → due ≤ due' := by
  unfold Notifications.graceDue
  rw [minOf_eq_some, mem_dues]
  simp only [mem_dues, forall_exists_index]
  exact and_congr_right fun _ => forall_comm

theorem graceDue_eq_none : n.graceDue = none ↔ ∀ condition due, ¬ n.Ends condition due := by
  unfold Notifications.graceDue
  rw [minOf_eq_none]
  simp only [mem_dues, not_exists]
  exact forall_comm

/-- A grace that has ended is still pending only where nothing could be read. -/
theorem assess_ends {wall : SystemTime} {facts : ConditionFacts} {condition : Condition} {due : Instant}
    (hd : due ≤ now) : (n.trackAll now (assess wall facts)).1.Ends condition due ↔
      n.Ends condition due ∧ facts.status wall condition = .unchanged := by
  unfold Notifications.Ends
  simp only [assess_conditions]
  constructor
  · rintro ⟨since, hp, hs⟩
    obtain ⟨_, rfl⟩ := Instant.checkedAdd_eq_some.mp hs
    obtain ⟨_, rfl, hg⟩ | ⟨_, hlt⟩ | ⟨hp, hu⟩ := followed_pending hp
    · exact absurd hd (not_le.mpr (Nat.lt_add_of_pos_right (Nat.pos_of_ne_zero hg)))
    · exact absurd hd (not_le.mpr (Instant.lt_add_of_durationSince hlt))
    · exact ⟨⟨since, hp, hs⟩, hu⟩
  · rintro ⟨⟨since, hp, hs⟩, hu⟩
    refine ⟨since, ?_, hs⟩
    rw [hp, hu]
    rfl

theorem graceDue_le {due : Instant} (h : n.graceDue = some due) : due ≤ Instant.latest := by
  obtain ⟨⟨condition, since, _, hs⟩, _⟩ := graceDue_eq_some.mp h
  exact tellable_checkedAdd since condition.grace due hs

theorem armed_iff {due : Instant} : (n.graceTimer.any fun (_, at') => at' == due) = true ↔
    n.graceTimer.map (·.2) = some due := by
  cases n.graceTimer <;> simp

/-- The grace timer ends in the future, but for a grace that has ended already
and whose timer does not run. -/
theorem scheduleGrace_ahead (timers : Timers) : Ahead now (n.scheduleGrace now timers).2.2 ↔
    ∀ due, n.graceDue = some due → due ≤ now → n.graceTimer.map (·.2) = some due := by
  unfold Notifications.scheduleGrace
  split
  · next h => simp [h]
  · next due h =>
    split
    · next ha =>
      rw [armed_iff] at ha
      simp [h, ha]
    · next ha =>
      rw [armed_iff] at ha
      dsimp only
      rw [ahead_start]
      by_cases hd : due ≤ now
      · have hz : due.durationSince now = 0 := Nat.sub_eq_zero_of_le hd
        rw [hz, schedule_zero]
        constructor
        · exact fun hlt => absurd hlt (lt_irrefl now)
        · exact fun h' => absurd (h' due h hd) ha
      · constructor
        · intro _ due' h' hd'
          cases h.symm.trans h'
          exact absurd hd' hd
        · exact fun _ => schedule_until timers (not_le.mp hd) (graceDue_le h)

theorem scheduleGrace_starts (timers : Timers) (hn : n.graceTimer = none) {due : Instant}
    (hd : n.graceDue = some due) :
    ∃ id deadline, .startTimer .notificationGrace id deadline ∈ (n.scheduleGrace now timers).2.2 := by
  unfold Notifications.scheduleGrace
  simp only [hd, hn, Option.any_none, Bool.false_eq_true, if_false]
  exact ⟨_, _, List.mem_singleton_self _⟩

end

/-! ## Notifications after the step -/

theorem recordAll_fst (n : Notifications) (notices : List (SystemTime × Notice)) :
    (n.recordAll notices).1 =
    notices.foldl (fun n p => (n.record p.1 p.2).1) n := by
  unfold Notifications.recordAll
  generalize ([] : List Action) = out
  induction notices generalizing n out with
  | nil => rfl
  | cons p notices ih => exact ih _ _

theorem record_grace (n : Notifications) (at' : SystemTime) (notice : Notice) :
    (n.record at' notice).1.conditions = n.conditions ∧
    (n.record at' notice).1.graceTimer = n.graceTimer := by
  unfold Notifications.record Notifications.push Notifications.enqueue
  split
  · exact ⟨rfl, rfl⟩
  · dsimp only
    split
    · split <;> exact ⟨rfl, rfl⟩
    · exact ⟨rfl, rfl⟩
  · dsimp only
    split
    · split <;> exact ⟨rfl, rfl⟩
    · exact ⟨rfl, rfl⟩

theorem recordAll_grace (n : Notifications) (notices : List (SystemTime × Notice)) :
    (n.recordAll notices).1.conditions = n.conditions ∧
    (n.recordAll notices).1.graceTimer = n.graceTimer := by
  rw [recordAll_fst]
  induction notices generalizing n with
  | nil => exact ⟨rfl, rfl⟩
  | cons p notices ih =>
    obtain ⟨hc, hg⟩ := record_grace n p.1 p.2
    obtain ⟨hc', hg'⟩ := ih (n.record p.1 p.2).1
    exact ⟨hc'.trans hc, hg'.trans hg⟩

theorem scheduleGrace_conditions (n : Notifications) (now : Instant) (timers : Timers) :
    (n.scheduleGrace now timers).1.conditions = n.conditions := by
  unfold Notifications.scheduleGrace
  split
  · rfl
  · split <;> rfl

theorem send_conditions (n : Notifications) (settings : SettingsState) :
    (n.send settings).1.conditions = n.conditions := by
  unfold Notifications.send
  dsimp only
  split
  · rfl
  · rfl
  · rfl
  · split
    · rfl
    · split <;> rfl

theorem send_ahead (n : Notifications) (settings : SettingsState) {now : Instant} :
    Ahead now (n.send settings).2 := by
  unfold Notifications.send
  dsimp only
  split
  · simp
  · simp
  · simp
  · split
    · simp
    · split <;> simp

section
variable (n : Notifications) (now : ClockReading) (happened : List Notice) (facts : ConditionFacts)
  (settings : SettingsState) (timers : Timers)

theorem afterStep_conditions (condition : Condition) :
    (n.afterStep now happened facts settings timers).1.conditions[condition]? =
      condition.followed now.monotonic n.conditions[condition]? (facts.status now.wall condition) := by
  simp only [Notifications.afterStep, send_conditions, scheduleGrace_conditions, (recordAll_grace _ _).1,
    assess_conditions]

def Notifications.Misses (condition : Condition) (due : Instant) : Prop :=
  n.Ends condition due ∧ due ≤ now.monotonic ∧ facts.status now.wall condition = .unchanged

theorem assess_graceDue {due : Instant} (hd : due ≤ now.monotonic) :
    (n.trackAll now.monotonic (assess now.wall facts)).1.graceDue = some due ↔
      (∃ condition, n.Misses now facts condition due) ∧
        ∀ condition due', n.Misses now facts condition due' → due ≤ due' := by
  rw [graceDue_eq_some]
  constructor
  · rintro ⟨⟨condition, he⟩, hmin⟩
    obtain ⟨he', hu⟩ := (assess_ends hd).mp he
    refine ⟨⟨condition, he', hd, hu⟩, ?_⟩
    rintro condition' due' ⟨he', hd', hu'⟩
    exact hmin condition' due' ((assess_ends hd').mpr ⟨he', hu'⟩)
  · rintro ⟨⟨condition, he, _, hu⟩, hmin⟩
    refine ⟨⟨condition, (assess_ends hd).mpr ⟨he, hu⟩⟩, ?_⟩
    intro condition' due' he'
    by_cases hd' : due' ≤ now.monotonic
    · obtain ⟨he'', hu'⟩ := (assess_ends hd').mp he'
      exact hmin condition' due' ⟨he'', hd', hu'⟩
    · exact hd.trans (not_le.mp hd').le

/-- After the step, the grace timer ends in the future but for a grace that ended
unread and whose timer does not run. -/
theorem afterStep_ahead : Ahead now.monotonic (n.afterStep now happened facts settings timers).2.2 ↔
    ∀ due, (∃ condition, n.Misses now facts condition due) →
      (∀ condition due', n.Misses now facts condition due' → due ≤ due') →
      n.graceTimer.map (·.2) = some due := by
  have hg (n : Notifications) (notices) : (n.recordAll notices).1.graceDue = n.graceDue := by
    simp only [Notifications.graceDue, (recordAll_grace n notices).1]
  simp only [Notifications.afterStep, ahead_append, recordAll_ahead, send_ahead, true_and, and_true,
    scheduleGrace_ahead, hg, (recordAll_grace _ _).2, trackAll_graceTimer]
  constructor
  · rintro h due ⟨condition, hm⟩ hmin
    exact h due ((assess_graceDue n now facts hm.2.1).mpr ⟨⟨condition, hm⟩, hmin⟩) hm.2.1
  · intro h due hdue hd
    obtain ⟨hm, hmin⟩ := (assess_graceDue n now facts hd).mp hdue
    exact h due hm hmin

/-- Without a timer running, a condition that stays pending starts one. -/
theorem afterStep_starts (hn : n.graceTimer = none) {condition : Condition} {since due : Instant}
    (hp : (n.afterStep now happened facts settings timers).1.conditions[condition]? =
      some (.pending since))
    (hs : since.checkedAdd condition.grace = some due) :
    ∃ id deadline, .startTimer .notificationGrace id deadline ∈
      (n.afterStep now happened facts settings timers).2.2 := by
  simp only [Notifications.afterStep, send_conditions, scheduleGrace_conditions] at hp
  simp only [Notifications.afterStep, List.mem_append]
  generalize hr : (Notifications.recordAll _ _).1 = recorded at hp ⊢
  have hnone : recorded.graceTimer = none := by
    rw [← hr, (recordAll_grace _ _).2, trackAll_graceTimer, hn]
  obtain ⟨first, hfirst⟩ : ∃ first, recorded.graceDue = some first := by
    rw [← Option.ne_none_iff_exists']
    intro hnone
    exact graceDue_eq_none.mp hnone condition due ⟨since, hp, hs⟩
  obtain ⟨id, deadline, hm⟩ := @scheduleGrace_starts recorded now.monotonic timers hnone first hfirst
  exact ⟨id, deadline, .inl (.inr hm)⟩

end

/-! ## One step -/

def Core.armed (c : Core) (event : Event) : Option (TimerId × Instant) :=
  match event with
  | .timerExpired .notificationGrace id | .timerExpired .notificationRetry id =>
    (c.notifications.timerExpired id).graceTimer
  | _ => c.notifications.graceTimer

theorem timerExpired_conditions (n : Notifications) (id : TimerId) :
    (n.timerExpired id).conditions = n.conditions := by
  unfold Notifications.timerExpired
  dsimp only
  split
  · split <;> split <;> rfl
  · split <;> rfl

theorem logUnavailable_grace (n : Notifications) :
    n.logUnavailable.conditions = n.conditions ∧ n.logUnavailable.graceTimer = n.graceTimer := by
  unfold Notifications.logUnavailable
  split
  · exact recordAll_grace _ _
  · exact ⟨rfl, rfl⟩

theorem notifications_handle_grace (n : Notifications) (now : ClockReading) (event : NotificationEvent)
    (timers : Timers) : (n.handle now event timers).1.conditions = n.conditions ∧
      (n.handle now event timers).1.graceTimer = n.graceTimer := by
  unfold Notifications.handle
  split
  · split
    · exact recordAll_grace _ _
    · exact ⟨rfl, rfl⟩
  · exact logUnavailable_grace n
  · split <;> exact ⟨rfl, rfl⟩
  · split <;> exact ⟨rfl, rfl⟩
  all_goals exact ⟨rfl, rfl⟩

section
variable (c : Core) (now : ClockReading) (event : Event)

theorem handleStartup_grace (event : StartupEvent) :
    (c.handleStartup event).1.notifications.conditions = c.notifications.conditions ∧
      (c.handleStartup event).1.notifications.graceTimer = c.notifications.graceTimer := by
  have hl := logUnavailable_grace c.notifications
  unfold Core.handleStartup
  dsimp only
  split
  · split
    · exact hl
    · exact hl
  · split <;> exact ⟨rfl, rfl⟩

theorem dispatch_grace : (c.dispatch now event).1.notifications.conditions = c.notifications.conditions ∧
    (c.dispatch now event).1.notifications.graceTimer = c.armed event := by
  cases event with
  | startup event => exact handleStartup_grace c event
  | timerExpired name id =>
    cases name with
    | notificationGrace => exact ⟨timerExpired_conditions _ _, rfl⟩
    | notificationRetry => exact ⟨timerExpired_conditions _ _, rfl⟩
    | _ => exact ⟨rfl, rfl⟩
  | notification event => exact notifications_handle_grace _ _ _ _
  | _ => exact ⟨rfl, rfl⟩

theorem note_notifications : (c.note event).notifications.conditions = c.notifications.conditions ∧
    (c.note event).armed event = c.armed event := by
  cases event with
  | startup event => cases event <;> exact ⟨rfl, rfl⟩
  | _ => exact ⟨rfl, rfl⟩

theorem decided_grace : (c.decided now event).notifications.conditions = c.notifications.conditions ∧
    (c.decided now event).notifications.graceTimer = c.armed event := by
  obtain ⟨hc, hg⟩ := dispatch_grace (c.note event) now event
  obtain ⟨hc', hg'⟩ := note_notifications c event
  rw [decided_notifications]
  exact ⟨hc.trans hc', hg.trans hg'⟩

theorem status_notices (facts : ConditionFacts) (notices : List Notice) (wall : SystemTime)
    (condition : Condition) :
    { facts with mam := { facts.mam with notices := notices } : ConditionFacts }.status wall condition =
      facts.status wall condition := by
  cases condition <;> rfl

/-- A pending condition's grace has ended, and the core that the step arrives at
says nothing of the condition. -/
def Core.Misses (condition : Condition) (due : Instant) : Prop :=
  c.notifications.Misses now (c.decided now event).conditionFacts condition due

/-- The grace that ended first of those missed is not the one whose timer runs. -/
def Core.Stalls : Prop :=
  ∃ due, (∃ condition, c.Misses now event condition due) ∧
    (∀ condition due', c.Misses now event condition due' → due ≤ due') ∧
    (c.armed event).map (·.2) ≠ some due

theorem decided_misses {notices : List Notice} {condition : Condition} {due : Instant} :
    (c.decided now event).notifications.Misses now
        { c.decided now event with mam :=
          { (c.decided now event).mam with notices := notices } : Core }.conditionFacts
        condition due ↔ c.Misses now event condition due := by
  unfold Core.Misses Notifications.Misses Notifications.Ends
  rw [(decided_grace c now event).1]
  have hs := status_notices (c.decided now event).conditionFacts notices now.wall condition
  simp only [Core.conditionFacts] at hs ⊢
  rw [hs]

theorem notify_ahead (before : Glance) (reported : List Notice) :
    Ahead now.monotonic ((c.decided now event).notify now before reported).2 ↔ ¬ c.Stalls now event := by
  simp only [Core.notify, afterStep_ahead, decided_misses, (decided_grace c now event).2]
  unfold Core.Stalls
  simp only [not_exists, not_and, not_not]

variable {c now event}

theorem notify_starts {before : Glance} {reported : List Notice} (hn : c.notifications.graceTimer = none)
    {condition : Condition} {since due : Instant}
    (hp : (c.notify now before reported).1.notifications.conditions[condition]? = some (.pending since))
    (hs : since.checkedAdd condition.grace = some due) :
    ∃ id deadline, .startTimer .notificationGrace id deadline ∈ (c.notify now before reported).2 := by
  simp only [Core.notify] at hp ⊢
  generalize Core.conditionFacts _ = facts at hp ⊢
  exact afterStep_starts c.notifications now _ facts c.settings c.timers hn hp hs

/-- But for a missed grace, every timer a step asks for ends in the future. -/
theorem handle_ahead (hm : c.mam.Told) (h : Timely { occurredAt := now, event := event }) :
    Ahead now.monotonic (c.handle now event).2 ↔ ¬ c.Stalls now event := by
  have hdispatch := dispatch_ahead (c.note event) h
  have hobserve : Ahead now.monotonic
      ((((c.note event).dispatch now event).1.expireLease now).observe now).2 :=
    (observe_emits now _).ahead (by decide)
  have hmam : Ahead now.monotonic ((c.received now event).decideMam now).2 := by
    rw [decideMam_eq]
    simp only [ahead_append]
    refine ⟨⟨?_, ?_⟩, scheduleWake_ahead (sending_told hm) now _ _⟩
    · obtain hr | ⟨notices, hr⟩ := remind_cases (c.received now event).mam now <;> rw [hr] <;> simp
    · unfold Core.sending
      obtain hs | ⟨_, _, ⟨_, _, _, _, hs⟩ | ⟨_, _, _, hs⟩⟩ := send_cases (c.prepared now event) now
        (c.received now event).context (c.planned now event) <;> rw [hs] <;> simp
  have hrenew : Ahead now.monotonic ((c.received now event).decideMam now).1.renewLease.2 := by
    unfold Core.renewLease
    dsimp only
    split
    · exact renew_ahead _
    · simp
  have hcommand : Ahead now.monotonic
      (((c.received now event).decideMam now).1.renewLease.1.decideQbittorrent now).2 := by
    simp only [Core.decideQbittorrent, ahead_append]
    exact ⟨qbittorrent_decide_ahead h.room _ _ _ _ _, followPreferences_ahead _ _⟩
  have htrim : Ahead now.monotonic
      (((c.received now event).decideMam now).1.renewLease.1.decideQbittorrent now).1.trimHistory.2 :=
    (trimHistory_emits _).ahead (by decide)
  rw [handle_out]
  simp only [ahead_append, hdispatch, hobserve, hmam, hrenew, hcommand, htrim, notify_ahead, true_and]

end

/-! ## Whole runs -/

theorem handle_notifications (c : Core) (now : ClockReading) (event : Event) :
    (c.handle now event).1.notifications =
    ((c.decided now event).notify now (c.note event).glance
      (c.notifications.reported event).2).1.notifications := by
  simp only [Core.handle, Core.decided, Core.received]

theorem handle_conditions (c : Core) (now : ClockReading) (event : Event) (condition : Condition) :
    ∃ status, (c.handle now event).1.notifications.conditions[condition]? =
      condition.followed now.monotonic c.notifications.conditions[condition]? status := by
  rw [handle_notifications, ← (decided_grace c now event).1]
  simp only [Core.notify, afterStep_conditions]
  exact ⟨_, rfl⟩

theorem pending_since (is : List TimedEvent) {condition : Condition} {since : Instant}
    (h : (core.last is).notifications.conditions[condition]? = some (.pending since)) :
    ∃ e ∈ core.run is, Handled.time e = since := by
  revert condition since
  refine Reactive.run_invariant core (H := fun _ => True)
    (I := fun tr c => ∀ {condition : Condition} {since : Instant},
      c.notifications.conditions[condition]? = some (.pending since) → ∃ e ∈ tr, Handled.time e = since)
    (fun _ _ _ => trivial) ?_ ?_ is trivial
  · intro condition since h
    simp [core, Core.new, Notifications.new] at h
  · intro tr c i ih _ condition since h
    obtain ⟨status, hs⟩ := handle_conditions c i.occurredAt i.event condition
    rw [core_step, hs] at h
    have hold (h : c.notifications.conditions[condition]? = some (.pending since)) :
        ∃ e ∈ tr ++ [core.entry c i], Handled.time e = since := by
      obtain ⟨e, he, ht⟩ := ih h
      exact ⟨e, List.mem_append_left _ he, ht⟩
    obtain ⟨_, rfl, _⟩ | ⟨hp, _⟩ | ⟨hp, _⟩ := followed_pending h
    · exact ⟨_, List.mem_append_right _ (List.mem_singleton_self _), rfl⟩
    · exact hold hp
    · exact hold hp

theorem grace_le (condition : Condition) : condition.grace ≤ longestWait := by
  cases condition <;> decide

theorem timerExpired_graceTimer {n : Notifications} {id : TimerId} {due : Instant}
    (h : n.graceTimer = some (id, due)) : (n.timerExpired id).graceTimer = none := by
  unfold Notifications.timerExpired
  simp only [h, Option.any_some, beq_self_eq_true, if_true]
  split
  · split <;> rfl
  · rfl

/-- When the grace timer expires, what was pending is raised or cleared, or the
timer is started again. -/
def Handled.AnswersGrace (e : Handled) : Prop :=
  ∀ id due, e.input.event = .timerExpired .notificationGrace id →
  e.before.notifications.graceTimer = some (id, due) →
    ∀ (condition : Condition) (since : Instant),
      e.before.notifications.conditions[condition]? = some (.pending since) →
      e.after.notifications.conditions[condition]? = some .raised ∨
      e.after.notifications.conditions[condition]? = none ∨
      ∃ id' deadline, .startTimer .notificationGrace id' deadline ∈ e.out ∧ e.time < deadline.at'

def Handled.Stalls (e : Handled) : Prop := e.before.Stalls e.input.occurredAt e.input.event

theorem notify_out {c : Core} {now : ClockReading} {event : Event} {a : Action}
    (h : a ∈ ((c.decided now event).notify now (c.note event).glance
      (c.notifications.reported event).2).2) :
    a ∈ (c.handle now event).2 := by
  rw [handle_out]
  exact List.mem_append_right _ h

theorem answersGrace {c : Core} {i : TimedEvent}
    (hr : i.occurredAt.monotonic + longestWait ≤ Instant.latest)
    (hp : ∀ (condition : Condition) (since : Instant),
      c.notifications.conditions[condition]? = some (.pending since) → since ≤ i.occurredAt.monotonic)
    (ha : Ahead i.occurredAt.monotonic (c.handle i.occurredAt i.event).2) :
    Handled.AnswersGrace (core.entry c i) := by
  intro id due hevent htimer condition since hbefore
  simp only [entry_before, entry_input] at hevent htimer hbefore
  cases hafter : (core.entry c i).after.notifications.conditions[condition]? with
  | none => exact .inr (.inl rfl)
  | some phase =>
    cases phase with
    | raised => exact .inl rfl
    | pending since' =>
      right
      right
      obtain ⟨status, hs⟩ := handle_conditions c i.occurredAt i.event condition
      rw [entry_after, hs, hbefore] at hafter
      have hsince : since' ≤ i.occurredAt.monotonic := by
        obtain ⟨h, _⟩ | ⟨h, _⟩ | ⟨h, _⟩ := followed_pending hafter
        · cases h
        · cases h
          exact hp condition since hbefore
        · cases h
          exact hp condition since hbefore
      have hadd : since'.checkedAdd condition.grace = some (since' + condition.grace) :=
        Instant.checkedAdd_eq_some.mpr ⟨(Nat.add_le_add hsince (grace_le condition)).trans hr, rfl⟩
      have hnone : (c.decided i.occurredAt i.event).notifications.graceTimer = none := by
        rw [(decided_grace c i.occurredAt i.event).2, hevent]
        exact timerExpired_graceTimer htimer
      rw [← hbefore, ← hs, handle_notifications] at hafter
      obtain ⟨id', deadline, hm⟩ := notify_starts hnone hafter hadd
      have hout := notify_out hm
      exact ⟨id', deadline, hout, ha _ _ _ hout⟩

/-- Every timer ends in the future, and an expired grace timer is answered, unless
a grace has ended of which the step says nothing while no timer runs for it. -/
theorem timers_ahead {is : List TimedEvent} (hs : Steady (core.run is)) {e : Handled}
    (he : e ∈ core.run is)
    (ht : Timely e.input) : Ahead e.time e.out ∧ e.AnswersGrace ↔ ¬ e.Stalls := by
  obtain ⟨pre, post, hrun⟩ := List.append_of_mem he
  obtain ⟨js, i, ks, rfl, hpre, rfl, hpost⟩ := Reactive.run_split core hrun
  have hiff := handle_ahead (told_last js) ht
  constructor
  · exact fun h => hiff.mp h.1
  · intro h
    have ha := hiff.mpr h
    refine ⟨ha, answersGrace ht.room ?_ ha⟩
    intro condition since hp
    obtain ⟨f, hf, rfl⟩ := pending_since js hp
    rw [hrun, hpre] at hs
    exact (List.pairwise_append.mp hs).2.2 f hf _ List.mem_cons_self

def unreachedEvents : List TimedEvent :=
  -- qBittorrent cannot be reached, and five minutes later its grace ends
  [.after 0 (.qbittorrent .enable), .after 0 (.qbittorrent (.connectFailed .unreachable))]

def graceEnds : TimedEvent := .after 300 (.timerExpired .notificationGrace 1)

theorem mem_run_snoc (is : List TimedEvent) (i : TimedEvent) :
    core.entry (core.last is) i ∈ core.run (is ++ [i]) := by
  rw [Reactive.run_snoc]
  exact List.mem_append_right _ (List.mem_singleton_self _)

theorem unreachable_raised :
    Ahead (Duration.fromSecs 300) (core.entry (core.last unreachedEvents) graceEnds).out ∧
    Handled.AnswersGrace (core.entry (core.last unreachedEvents) graceEnds) := by
  have hsteady : Steady (core.run (unreachedEvents ++ [graceEnds])) := steady_iff.mpr (by decide +kernel)
  refine (timers_ahead hsteady (mem_run_snoc _ _) ⟨by decide, ?_⟩).mpr ?_
  · rintro tcp udp lifetime ⟨⟩
  · rintro ⟨due, ⟨condition, ⟨since, hp, _⟩, _, hu⟩, _⟩
    have honly : (core.last unreachedEvents).notifications.conditions.toList =
        [(.qbittorrentReachable, .pending 0)] := by
      decide +kernel
    have hmem := Std.ExtTreeMap.mem_toList_iff_getElem?_eq_some.mpr hp
    rw [entry_before, honly, List.mem_singleton] at hmem
    cases hmem
    revert hu
    decide +kernel

/-- qBittorrent is asked again before the grace ends, so the step at which it ends
cannot tell whether it is reachable. -/
theorem grace_timer_already_due :
    Steady (core.run ((unreachedEvents ++ [.after 10 (.timerExpired .qbittorrentPoll 0)]) ++
      [graceEnds])) ∧
    ∃ e ∈ core.run ((unreachedEvents ++ [.after 10 (.timerExpired .qbittorrentPoll 0)]) ++ [graceEnds]),
      ∃ id deadline, .startTimer .notificationGrace id deadline ∈ e.out ∧
      ¬ Handled.time e < deadline.at' := by
  refine ⟨steady_iff.mpr (by decide +kernel), _, mem_run_snoc _ _, 2,
    { at' := Duration.fromSecs 300, after := 0 }, ?_, ?_⟩
  · decide +kernel
  · decide

end Windlass
