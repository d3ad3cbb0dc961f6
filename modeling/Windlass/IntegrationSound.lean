import Windlass.FailoverSound
import Windlass.PreferencesSound

/-!
# No integration gets stuck

Port forwarding, qBittorrent and the tunnel each wait for one thing at a time: the
answer to a request, or a timer. What the events and actions say is unanswered and
running agrees, after every step, with what each of them waits for.
-/

namespace Windlass

open Reactive

/-! ## What is unanswered -/

inductive Integration
  | portForwarding | qbittorrent | tunnel
deriving DecidableEq

def Integration.part : Integration → Part
  | .portForwarding => .portForwarding
  | .qbittorrent => .qbittorrent
  | .tunnel => .tunnel

def Integration.timer : Integration → TimerName
  | .portForwarding => .portLease
  | .qbittorrent => .qbittorrentPoll
  | .tunnel => .tunnelCheck

inductive Ask
  | portMapping
  | connect | sync | readPreferences | setListenPort | setQueue | command
  | checkExitIp | saveSwitch | switchServer
deriving DecidableEq

def Ask.integration : Ask → Integration
  | .portMapping => .portForwarding
  | .connect | .sync | .readPreferences | .setListenPort | .setQueue | .command => .qbittorrent
  | .checkExitIp | .saveSwitch | .switchServer => .tunnel

def Action.ask? : Action → Option Ask
  | .requestPortMapping _ => some .portMapping
  | .connectQbittorrent => some .connect
  | .syncQbittorrent _ => some .sync
  | .readQbittorrentPreferences => some .readPreferences
  | .setQbittorrentListenPort _ => some .setListenPort
  | .setQbittorrentQueue _ => some .setQueue
  | .qbittorrentCommand _ => some .command
  | .checkExitIp => some .checkExitIp
  | .saveVpnSwitch _ => some .saveSwitch
  | .switchVpnServer _ => some .switchServer
  | _ => none

def Event.answers? : Event → Option Ask
  | .portForwarding (.mapped ..) | .portForwarding (.mappingFailed _) => some .portMapping
  | .qbittorrent (.connected ..) | .qbittorrent (.connectFailed _) => some .connect
  | .qbittorrent (.synced _) | .qbittorrent (.syncFailed _) => some .sync
  | .qbittorrent (.preferencesRead _) | .qbittorrent (.preferencesReadFailed _) => some .readPreferences
  | .qbittorrent .listenPortSet | .qbittorrent (.listenPortSetFailed _) => some .setListenPort
  | .qbittorrent .queueSet | .qbittorrent (.queueSetFailed _) => some .setQueue
  | .qbittorrent .commandDone | .qbittorrent (.commandFailed _) => some .command
  | .tunnel (.exitIpObserved _) | .tunnel (.exitIpCheckFailed _) => some .checkExitIp
  | .tunnel .switchSaved | .tunnel .switchSaveFailed => some .saveSwitch
  | .tunnel .switched | .tunnel .switchFailed => some .switchServer
  | _ => none

/-- An integration's unanswered requests, and the timer last started under its name
unless it has expired. -/
structure Pending where
  asks : List Ask
  timer : Option TimerId
deriving DecidableEq

def Pending.none : Pending := { asks := [], timer := .none }

section
variable (i : Integration) (p : Pending)

def Pending.expire (id : TimerId) : Pending := if p.timer = some id then { p with timer := .none } else p

def Pending.hear (event : Event) : Pending :=
  match event with
  | .timerExpired name id => if name = i.timer then p.expire id else p
  | event =>
    match event.answers? with
    | some ask => { p with asks := p.asks.erase ask }
    | .none => p

def Pending.tell (a : Action) : Pending :=
  match a with
  | .startTimer _ id _ => { p with timer := some id }
  | a => { p with asks := p.asks ++ a.ask?.toList }

def Pending.next (e : Reactive.Entry Core TimedEvent Action) : Pending :=
  (actionsOf i.part e.out).foldl Pending.tell (p.hear i e.input.event)

end

def pending (i : Integration) (run : List (Reactive.Entry Core TimedEvent Action)) : Pending :=
  run.foldl (Pending.next i) .none

theorem pending_snoc (i : Integration) (run : List (Reactive.Entry Core TimedEvent Action))
    (e : Reactive.Entry Core TimedEvent Action) : pending i (run ++ [e]) = (pending i run).next i e :=
  List.foldl_append

def AnswersOnce (pre : List (Reactive.Entry Core TimedEvent Action))
    (e : Reactive.Entry Core TimedEvent Action) : Prop :=
  ∀ ask ∈ e.input.event.answers?, ask ∈ (pending ask.integration pre).asks

instance {pre : List (Reactive.Entry Core TimedEvent Action)}
    {e : Reactive.Entry Core TimedEvent Action} :
    Decidable (AnswersOnce pre e) :=
  inferInstanceAs (Decidable (∀ ask ∈ e.input.event.answers?, ask ∈ (pending ask.integration pre).asks))

/-! ## What each of them waits for -/

def PortForwarding.ask? : PortForwarding → Option Ask
  | .enabled _ .outstanding .. => some .portMapping
  | _ => none

def PortForwarding.timer? : PortForwarding → Option TimerId
  | .enabled _ (.waiting id) .. => some id
  | _ => none

def Activity.ask? : Activity → Option Ask
  | .syncing => some .sync
  | .readingPreferences => some .readPreferences
  | .settingListenPort _ => some .setListenPort
  | .settingQueue => some .setQueue
  | .commanding => some .command
  | .waiting _ | .deciding _ => none

def Activity.timer? : Activity → Option TimerId
  | .waiting id => some id
  | _ => none

def Qbittorrent.ask? : Qbittorrent → Option Ask
  | .connecting => some .connect
  | .connected session => session.activity.ask?
  | .disabled | .unreachable .. => none

def Qbittorrent.timer? : Qbittorrent → Option TimerId
  | .unreachable _ retry => some retry
  | .connected session => session.activity.timer?
  | .disabled | .connecting => none

def Failover.ask : Failover → Ask
  | .saving _ => .saveSwitch
  | .switching _ => .switchServer

def Watch.ask? (w : Watch) : Option Ask :=
  match w.check with
  | .outstanding => some .checkExitIp
  | .waiting _ => none
  | .switching => w.failover.map Failover.ask

def Watch.timer? (w : Watch) : Option TimerId :=
  match w.check with
  | .waiting id => some id
  | .outstanding | .switching => none

def Tunnel.ask? (t : Tunnel) : Option Ask := t.watch.bind Watch.ask?

def Tunnel.timer? (t : Tunnel) : Option TimerId := t.watch.bind Watch.timer?

section
variable (c : Core)

def Core.isEnabled : Integration → Prop
  | .portForwarding => c.portForwarding ≠ .disabled
  | .qbittorrent => c.qbittorrent ≠ .disabled
  | .tunnel => c.tunnel.watch ≠ none

def Core.ask? : Integration → Option Ask
  | .portForwarding => c.portForwarding.ask?
  | .qbittorrent => c.qbittorrent.ask?
  | .tunnel => c.tunnel.ask?

def Core.timer? : Integration → Option TimerId
  | .portForwarding => c.portForwarding.timer?
  | .qbittorrent => c.qbittorrent.timer?
  | .tunnel => c.tunnel.timer?

end

/-- The request waited for, if any, is the only one unanswered, and the timer waited for,
if any, runs. -/
structure Awaits (ask : Option Ask) (timer : Option TimerId) (p : Pending) : Prop where
  asks : p.asks = ask.toList
  timer : ∀ id ∈ timer, p.timer = some id

section
variable {i : Integration} {ask : Ask} {asked : Option Ask} {timer : Option TimerId} {id : TimerId}
  {p : Pending}
  {event : Event}

theorem Awaits.forget (h : Awaits asked timer p) : Awaits asked none p := ⟨h.asks, nofun⟩

theorem Awaits.hear_other (h : Awaits asked timer p) (ha : event.answers? = none)
    (ht : ∀ id, event ≠ .timerExpired i.timer id) : Awaits asked timer (p.hear i event) := by
  cases event with
  | timerExpired name id =>
    have hname : name ≠ i.timer := fun hn => ht id (hn ▸ rfl)
    rw [Pending.hear, if_neg hname]
    exact h
  | _ =>
    simp only [Pending.hear, ha]
    exact h

theorem Awaits.answered (h : Awaits (some ask) timer p) (ha : event.answers? = some ask) :
    Awaits none timer (p.hear i event) := by
  have hasks : p.asks.erase ask = [] := by simp [h.asks]
  cases event with
  | timerExpired name id => cases ha
  | _ =>
    simp only [Pending.hear, ha]
    exact ⟨hasks, h.timer⟩

theorem Awaits.hear_apart (h : Awaits asked timer p) (hi : ∀ ask ∈ asked, ask.integration = i)
    (ha : ∀ ask ∈ event.answers?, ask.integration ≠ i) (ht : ∀ id, event ≠ .timerExpired i.timer id) :
    Awaits asked timer (p.hear i event) := by
  cases hanswers : event.answers? with
  | none => exact h.hear_other hanswers ht
  | some ask =>
    have hasks : p.asks.erase ask = p.asks := by
      rw [List.erase_of_not_mem]
      rw [h.asks]
      exact fun hmem => ha ask hanswers (hi ask (Option.mem_toList.mp hmem))
    cases event with
    | timerExpired name id => cases hanswers
    | _ =>
      simp only [Pending.hear, hanswers, hasks]
      exact h

theorem Awaits.expired (h : Awaits asked timer p) :
    Awaits asked none (p.hear i (.timerExpired i.timer id)) := by
  rw [Pending.hear, if_pos rfl, Pending.expire]
  split
  · exact ⟨h.asks, nofun⟩
  · exact h.forget

theorem Awaits.expired_other (h : Awaits asked timer p) (hid : id ∉ timer) :
    Awaits asked timer (p.hear i (.timerExpired i.timer id)) := by
  rw [Pending.hear, if_pos rfl, Pending.expire]
  split
  · next hp =>
    refine ⟨h.asks, fun id' hid' => ?_⟩
    obtain rfl : id = id' := Option.some.inj (hp.symm.trans (h.timer id' hid'))
    exact absurd hid' hid
  · exact h

theorem Awaits.asking (h : Awaits none timer p) {a : Action} (ha : a.ask? = some ask) :
    Awaits (some ask) none ([a].foldl Pending.tell p) := by
  have hasks : p.asks = [] := h.asks
  cases a with
  | startTimer name id deadline => cases ha
  | _ => exact ⟨by simp [Pending.tell, ha, hasks], nofun⟩

theorem Awaits.starting (h : Awaits none timer p) (name : TimerName) (deadline : Deadline) :
    Awaits none (some id) ([.startTimer name id deadline].foldl Pending.tell p) :=
  ⟨h.asks, fun _ hid => hid⟩

theorem Awaits.ask_eq (h : Awaits asked timer p) (ha : ask ∈ p.asks) : asked = some ask := by
  rw [h.asks] at ha
  exact Option.mem_toList.mp ha

end

/-! ## Port forwarding -/

section
variable {f : PortForwarding} {p : Pending} (now : ClockReading) (timers : Timers)

theorem portForwarding_outstanding {ask : Ask} (h : f.ask? = some ask) :
    ∃ lease failures lastFailure, f = .enabled lease .outstanding failures lastFailure := by
  cases f with
  | disabled => cases h
  | enabled lease request failures lastFailure =>
    cases request with
    | outstanding => exact ⟨lease, failures, lastFailure, rfl⟩
    | waiting id => cases h

theorem portForwarding_timerExpired_other {id : TimerId} (h : id ∉ f.timer?) :
    f.timerExpired id = (f, []) := by
  cases f with
  | disabled => rfl
  | enabled lease request failures lastFailure =>
    cases request with
    | outstanding => rfl
    | waiting timer => exact if_neg fun ht => h (congrArg some ht)

theorem retry_awaits (h : Awaits none none p) (lease : Option Lease) (failures : FailureCount)
    (reason : MappingFailure) :
    Awaits (PortForwarding.retry lease failures now reason timers).1.ask?
      (PortForwarding.retry lease failures now reason timers).1.timer?
      ((PortForwarding.retry lease failures now reason timers).2.2.foldl Pending.tell p) :=
  h.starting .portLease _

theorem portForwarding_handle_awaits (h : Awaits f.ask? f.timer? p) (event : PortForwardingEvent)
    (ha : ∀ ask ∈ (Event.portForwarding event).answers?, ask ∈ p.asks) :
    Awaits (f.handle now event timers).1.ask? (f.handle now event timers).1.timer?
      ((f.handle now event timers).2.2.foldl Pending.tell
        (p.hear .portForwarding (.portForwarding event))) := by
  cases event with
  | enable =>
    have hheard : Awaits f.ask? f.timer? (p.hear .portForwarding (.portForwarding .enable)) :=
      h.hear_other rfl nofun
    cases f with
    | disabled => exact hheard.asking rfl
    | enabled lease request failures lastFailure => cases request <;> exact hheard
  | mapped tcp udp lifetime =>
    obtain ⟨lease, failures, lastFailure, rfl⟩ := portForwarding_outstanding (h.ask_eq (ha _ rfl))
    have hheard : Awaits none none
        (p.hear .portForwarding (.portForwarding (.mapped tcp udp lifetime))) :=
      Awaits.answered h rfl
    simp only [PortForwarding.handle]
    split
    · exact hheard.starting .portLease _
    · exact retry_awaits now timers hheard _ _ _
  | mappingFailed reason =>
    obtain ⟨lease, failures, lastFailure, rfl⟩ := portForwarding_outstanding (h.ask_eq (ha _ rfl))
    have hheard : Awaits none none (p.hear .portForwarding (.portForwarding (.mappingFailed reason))) :=
      Awaits.answered h rfl
    exact retry_awaits now timers hheard _ _ _

theorem portForwarding_timerExpired_awaits (h : Awaits f.ask? f.timer? p) (id : TimerId) :
    Awaits (f.timerExpired id).1.ask? (f.timerExpired id).1.timer?
      ((f.timerExpired id).2.foldl Pending.tell
        (p.hear .portForwarding (.timerExpired .portLease id))) := by
  by_cases hid : id ∈ f.timer?
  · obtain ⟨lease, failures, lastFailure, rfl⟩ :
        ∃ lease failures lastFailure, f = .enabled lease (.waiting id) failures lastFailure := by
      cases f with
      | disabled => cases hid
      | enabled lease request failures lastFailure =>
        cases request with
        | outstanding => cases hid
        | waiting timer => exact ⟨lease, failures, lastFailure, by rw [Option.some.inj hid]⟩
    have hheard : Awaits none none (p.hear .portForwarding (.timerExpired .portLease id)) :=
      Awaits.expired h
    simp only [PortForwarding.timerExpired, if_true]
    exact hheard.asking rfl
  · rw [portForwarding_timerExpired_other hid]
    exact h.expired_other hid

theorem renew_awaits (h : Awaits f.ask? f.timer? p) :
    Awaits f.renew.1.ask? f.renew.1.timer? (f.renew.2.foldl Pending.tell p) := by
  cases f with
  | disabled => exact h
  | enabled lease request failures lastFailure =>
    cases request with
    | outstanding => exact h
    | waiting id => exact Awaits.asking h.forget rfl

theorem expire_awaits (at' : Instant) :
    (f.expire at').ask? = f.ask? ∧ (f.expire at').timer? = f.timer? := by
  cases f with
  | disabled => exact ⟨rfl, rfl⟩
  | enabled lease request failures lastFailure =>
    cases lease with
    | none => exact ⟨rfl, rfl⟩
    | some lease =>
      unfold PortForwarding.expire
      dsimp only
      split
      · cases request <;> exact ⟨rfl, rfl⟩
      · exact ⟨rfl, rfl⟩

end

/-! ## qBittorrent -/

section
variable {q : Qbittorrent} {p : Pending} {ask : Ask} (now : ClockReading) (timers : Timers)

theorem qbittorrent_asks (h : q.ask? = some ask) :
    (q = .connecting ∧ ask = .connect) ∨
      ∃ session, q = .connected session ∧ session.activity.ask? = some ask := by
  cases q with
  | disabled => cases h
  | connecting => exact .inl ⟨rfl, (Option.some.inj h).symm⟩
  | unreachable reason retry => cases h
  | connected session => exact .inr ⟨session, rfl, h⟩

theorem qbittorrent_connecting (h : q.ask? = some .connect) : q = .connecting := by
  obtain ⟨hq, -⟩ | ⟨session, -, hs⟩ := qbittorrent_asks h
  · exact hq
  · cases ha : session.activity <;> rw [ha] at hs <;> cases hs

theorem qbittorrent_connected (h : q.ask? = some ask) (hc : ask ≠ .connect) :
    ∃ session, q = .connected session ∧ session.activity.ask? = some ask := by
  obtain ⟨-, ha⟩ | hs := qbittorrent_asks h
  · exact absurd ha hc
  · exact hs

theorem activity_of_ask {a : Activity} (h : a.ask? = some ask) :
    a = match ask with
      | .sync => .syncing
      | .readPreferences => .readingPreferences
      | .setQueue => .settingQueue
      | .command => .commanding
      | _ => a := by
  cases a <;> cases h <;> rfl

theorem failed_awaits (h : Awaits none none p) (reason : QbittorrentFailure) :
    Awaits (Qbittorrent.failed now reason timers).1.ask? (Qbittorrent.failed now reason timers).1.timer?
      ((Qbittorrent.failed now reason timers).2.2.foldl Pending.tell p) :=
  h.starting .qbittorrentPoll _

theorem qbittorrent_handle_awaits (h : Awaits q.ask? q.timer? p) (event : QbittorrentEvent)
    (ha : ∀ ask ∈ (Event.qbittorrent event).answers?, ask ∈ p.asks) :
    Awaits (q.handle now event timers).1.ask? (q.handle now event timers).1.timer?
      ((q.handle now event timers).2.2.foldl Pending.tell
        (p.hear .qbittorrent (.qbittorrent event))) := by
  have hanswered : ∀ ask, (Event.qbittorrent event).answers? = some ask →
      q.ask? = some ask ∧ Awaits none none (p.hear .qbittorrent (.qbittorrent event)) := by
    intro ask hask
    have hq := h.ask_eq (ha ask hask)
    rw [hq] at h
    exact ⟨hq, (h.answered hask).forget⟩
  -- an answer is to the one request unanswered; enabling asks for the first
  cases event with
  | enable =>
    have hheard : Awaits q.ask? q.timer? (p.hear .qbittorrent (.qbittorrent .enable)) :=
      h.hear_other rfl fun _ h => by cases h
    cases q with
    | disabled => exact hheard.asking rfl
    | _ => exact hheard
  | connected version preferences =>
    obtain ⟨hq, hheard⟩ := hanswered _ rfl
    obtain rfl := qbittorrent_connecting hq
    exact hheard.asking rfl
  | connectFailed reason =>
    obtain ⟨hq, hheard⟩ := hanswered _ rfl
    obtain rfl := qbittorrent_connecting hq
    exact failed_awaits now timers hheard reason
  | synced update =>
    obtain ⟨hq, hheard⟩ := hanswered _ rfl
    obtain ⟨session, rfl, hs⟩ := qbittorrent_connected hq fun h => by cases h
    have hactivity : session.activity = .syncing := activity_of_ask hs
    simp only [Qbittorrent.handle, if_pos hactivity]
    exact hheard
  | commandDone =>
    obtain ⟨hq, hheard⟩ := hanswered _ rfl
    obtain ⟨session, rfl, hs⟩ := qbittorrent_connected hq fun h => by cases h
    have hactivity : session.activity = .commanding := activity_of_ask hs
    simp only [Qbittorrent.handle, if_pos hactivity]
    exact hheard
  | preferencesRead preferences =>
    obtain ⟨hq, hheard⟩ := hanswered _ rfl
    obtain ⟨session, rfl, hs⟩ := qbittorrent_connected hq fun h => by cases h
    have hactivity : session.activity = .readingPreferences := activity_of_ask hs
    simp only [Qbittorrent.handle, if_pos hactivity]
    exact hheard.starting .qbittorrentPoll _
  | listenPortSet =>
    obtain ⟨hq, hheard⟩ := hanswered _ rfl
    obtain ⟨session, rfl, hs⟩ := qbittorrent_connected hq fun h => by cases h
    obtain ⟨port, hactivity⟩ : ∃ port, session.activity = .settingListenPort port := by
      cases hact : session.activity <;> rw [hact] at hs <;> cases hs
      exact ⟨_, rfl⟩
    simp only [Qbittorrent.handle, hactivity]
    exact hheard.asking rfl
  | queueSet =>
    obtain ⟨hq, hheard⟩ := hanswered _ rfl
    obtain ⟨session, rfl, hs⟩ := qbittorrent_connected hq fun h => by cases h
    have hactivity : session.activity = .settingQueue := activity_of_ask hs
    simp only [Qbittorrent.handle, if_pos hactivity]
    exact hheard.asking rfl
  | syncFailed reason | preferencesReadFailed reason | listenPortSetFailed reason | queueSetFailed reason
  | commandFailed reason =>
    obtain ⟨hq, hheard⟩ := hanswered _ rfl
    obtain ⟨session, rfl, -⟩ := qbittorrent_connected hq fun h => by cases h
    exact failed_awaits now timers hheard reason

theorem qbittorrent_timerExpired_other {id : TimerId} (h : id ∉ q.timer?) :
    q.timerExpired id = (q, []) := by
  cases q with
  | disabled | connecting => rfl
  | unreachable reason retry => exact if_neg fun ht => h (congrArg some ht)
  | connected session =>
    refine if_neg fun hs => h ?_
    simp [Qbittorrent.timer?, hs, Activity.timer?]

theorem qbittorrent_timerExpired_awaits (h : Awaits q.ask? q.timer? p) (id : TimerId) :
    Awaits (q.timerExpired id).1.ask? (q.timerExpired id).1.timer?
      ((q.timerExpired id).2.foldl Pending.tell
        (p.hear .qbittorrent (.timerExpired .qbittorrentPoll id))) := by
  by_cases hid : id ∈ q.timer?
  · have hheard : Awaits q.ask? none (p.hear .qbittorrent (.timerExpired .qbittorrentPoll id)) :=
      Awaits.expired h
    cases q with
    | disabled | connecting => cases hid
    | unreachable reason retry =>
      have hretry : retry = id := Option.some.inj hid
      simp only [Qbittorrent.timerExpired, if_pos hretry]
      exact Awaits.asking hheard rfl
    | connected session =>
      have hwaits : session.activity = .waiting id := by
        cases hact : session.activity <;> rw [Qbittorrent.timer?, hact] at hid <;> cases hid
        rfl
      rw [Qbittorrent.ask?, hwaits] at hheard
      simp only [Qbittorrent.timerExpired, if_pos hwaits]
      exact hheard
  · rw [qbittorrent_timerExpired_other hid]
    exact h.expired_other hid

theorem deciding_session {session : Session} {after : DecidingAfter}
    (h : q.deciding = some (session, after)) :
    q = .connected session ∧ session.activity = .deciding after := by
  unfold Qbittorrent.deciding at h
  split at h
  · next session' =>
    split at h
    · next hs =>
      cases h
      exact ⟨rfl, hs⟩
    · cases h
  · cases h

theorem setPreferences_awaits {timer : Option TimerId} {wanted : Wanted} {s s' : Session}
    {out : List Action}
    (h : Awaits none timer p) (hs : s.setPreferences wanted = some (s', out)) :
    Awaits s'.activity.ask? s'.activity.timer? (out.foldl Pending.tell p) := by
  unfold Session.setPreferences at hs
  split at hs
  · cases hs
    exact h.asking rfl
  · split at hs
    · cases hs
      exact h.asking rfl
    · cases hs

theorem qbittorrent_decide_awaits {ρ : Type} (h : Awaits q.ask? q.timer? p) (wanted : Wanted)
    (registry : ρ)
    (command : ρ → Session → ρ × Option TorrentCommand) :
    Awaits (q.decide now timers wanted registry command).1.ask?
    (q.decide now timers wanted registry command).1.timer?
      ((q.decide now timers wanted registry command).2.2.2.foldl Pending.tell p) := by
  unfold Qbittorrent.decide
  split
  · exact h
  · next session after hd =>
    have hnone : Awaits none none p := by
      obtain ⟨hq, hs⟩ := deciding_session hd
      rw [hq, Qbittorrent.ask?, Qbittorrent.timer?, hs] at h
      exact h
    split
    · next hset => exact setPreferences_awaits hnone hset
    · split
      · exact hnone.asking rfl
      · split
        · exact hnone.asking rfl
        · split
          · exact hnone.asking rfl
          · exact hnone.starting .qbittorrentPoll _

theorem followPreferences_awaits (h : Awaits q.ask? q.timer? p) (wanted : Wanted) :
    Awaits (q.followPreferences wanted).1.ask? (q.followPreferences wanted).1.timer?
      ((q.followPreferences wanted).2.foldl Pending.tell p) := by
  unfold Qbittorrent.followPreferences
  split
  · next session =>
    split
    · next id hwaits =>
      split
      · next hset =>
        have hidle : Awaits none (some id) p := by
          rw [Qbittorrent.ask?, Qbittorrent.timer?, hwaits] at h
          exact h
        exact setPreferences_awaits hidle hset
      · exact h
    · exact h
  · exact h

end

/-! ## The tunnel -/

section
variable {t : Tunnel} {w : Watch} {p : Pending} {ask : Ask} (now : ClockReading) (timers : Timers)

theorem tunnel_watched (h : t.ask? = some ask) : ∃ w, t.watch = some w ∧ w.ask? = some ask :=
  Option.bind_eq_some_iff.mp h

theorem watch_outstanding (h : w.ask? = some .checkExitIp) : w.check = .outstanding := by
  unfold Watch.ask? at h
  split at h
  · assumption
  · cases h
  · obtain ⟨failover, -, hf⟩ := Option.map_eq_some_iff.mp h
    cases failover <;> cases hf

theorem watch_switching (h : w.ask? = some ask) (hc : ask ≠ .checkExitIp) :
    w.check = .switching ∧ ∃ failover, w.failover = some failover ∧ failover.ask = ask := by
  unfold Watch.ask? at h
  split at h
  · exact absurd (Option.some.inj h).symm hc
  · cases h
  · next hs => exact ⟨hs, Option.map_eq_some_iff.mp h⟩

theorem watch_waiting {id : TimerId} (h : w.timer? = some id) : w.check = .waiting id := by
  unfold Watch.timer? at h
  split at h
  · cases h
    assumption
  · cases h
  · cases h

theorem failover_saving {failover : Failover} (h : failover.ask = .saveSwitch) :
    ∃ switch, failover = .saving switch := by
  cases failover with
  | saving switch => exact ⟨switch, rfl⟩
  | switching server => cases h

theorem failover_switching {failover : Failover} (h : failover.ask = .switchServer) :
    ∃ server, failover = .switching server := by
  cases failover with
  | saving switch => cases h
  | switching server => exact ⟨server, rfl⟩

theorem checkFailed_awaits (h : Awaits none none p) (w : Watch) (reason : ExitIpFailure) :
    Awaits (t.checkFailed w now reason timers).1.ask? (t.checkFailed w now reason timers).1.timer?
      ((t.checkFailed w now reason timers).2.2.foldl Pending.tell p) := by
  unfold Tunnel.checkFailed
  dsimp only
  split
  · exact h.asking rfl
  · exact h.starting .tunnelCheck _

theorem tunnel_handle_awaits (h : Awaits t.ask? t.timer? p) (event : TunnelEvent)
    (ha : ∀ ask ∈ (Event.tunnel event).answers?, ask ∈ p.asks) :
    Awaits (t.handle now event timers).1.ask? (t.handle now event timers).1.timer?
      ((t.handle now event timers).2.2.foldl Pending.tell (p.hear .tunnel (.tunnel event))) := by
  have hanswered : ∀ ask, (Event.tunnel event).answers? = some ask →
      (∃ w, t.watch = some w ∧ w.ask? = some ask) ∧
      Awaits none none (p.hear .tunnel (.tunnel event)) := by
    intro ask hask
    have ht := h.ask_eq (ha ask hask)
    rw [ht] at h
    exact ⟨tunnel_watched ht, (h.answered hask).forget⟩
  have hother : (Event.tunnel event).answers? = none →
      Awaits t.ask? t.timer? (p.hear .tunnel (.tunnel event)) :=
    fun hnone => h.hear_other hnone fun _ h => by cases h
  cases event with
  | enable servers current =>
    have hheard := hother rfl
    cases hw : t.watch with
    | none =>
      rw [Tunnel.ask?, Tunnel.timer?, hw] at hheard
      simp only [Tunnel.handle, hw]
      exact Awaits.asking hheard rfl
    | some w =>
      simp only [Tunnel.handle, hw]
      exact hheard
  | lastSwitchRead last =>
    have hheard := hother rfl
    simp only [Tunnel.handle]
    split <;> exact hheard
  | lastSwitchReadFailed =>
    have hheard := hother rfl
    simp only [Tunnel.handle]
    split <;> exact hheard
  | exitIpObserved ip =>
    obtain ⟨⟨w, hw, hask⟩, hheard⟩ := hanswered _ rfl
    simp only [Tunnel.handle, hw, if_pos (watch_outstanding hask)]
    exact hheard.starting .tunnelCheck _
  | exitIpCheckFailed reason =>
    obtain ⟨⟨w, hw, hask⟩, hheard⟩ := hanswered _ rfl
    simp only [Tunnel.handle, hw, if_pos (watch_outstanding hask)]
    exact checkFailed_awaits now timers hheard w reason
  | switchSaved =>
    obtain ⟨⟨w, hw, hask⟩, hheard⟩ := hanswered _ rfl
    obtain ⟨hswitching, failover, hf, hsave⟩ := watch_switching hask fun h => by cases h
    obtain ⟨switch, rfl⟩ := failover_saving hsave
    simp only [Tunnel.handle, hw, hf]
    simpa only [Tunnel.ask?, Tunnel.timer?, Option.bind_some, Option.map_some, Watch.ask?,
      Watch.timer?, hswitching] using
      hheard.asking rfl
  | switched =>
    obtain ⟨⟨w, hw, hask⟩, hheard⟩ := hanswered _ rfl
    obtain ⟨-, failover, hf, hswitch⟩ := watch_switching hask fun h => by cases h
    obtain ⟨server, rfl⟩ := failover_switching hswitch
    simp only [Tunnel.handle, hw, hf]
    exact hheard.asking rfl
  | switchSaveFailed | switchFailed =>
    obtain ⟨⟨w, hw, hask⟩, hheard⟩ := hanswered _ rfl
    obtain ⟨-, failover, hf, -⟩ := watch_switching hask fun h => by cases h
    simp only [Tunnel.handle, hw, hf, Option.isSome_some, if_true]
    exact hheard.starting .tunnelCheck _

theorem tunnel_timerExpired_other {id : TimerId} (h : id ∉ t.timer?) :
    t.timerExpired now id = (t, []) := by
  unfold Tunnel.timerExpired
  split
  · next w hw =>
    refine if_neg fun hc => h ?_
    simp [Tunnel.timer?, hw, Watch.timer?, hc]
  · rfl

theorem tunnel_timerExpired_awaits (h : Awaits t.ask? t.timer? p) (id : TimerId) :
    Awaits (t.timerExpired now id).1.ask? (t.timerExpired now id).1.timer?
      ((t.timerExpired now id).2.foldl Pending.tell
        (p.hear .tunnel (.timerExpired .tunnelCheck id))) := by
  by_cases hid : id ∈ t.timer?
  · have hheard : Awaits t.ask? none (p.hear .tunnel (.timerExpired .tunnelCheck id)) := Awaits.expired h
    obtain ⟨w, hw, hwid⟩ := Option.bind_eq_some_iff.mp hid
    have hwaits : w.check = .waiting id := watch_waiting hwid
    rw [Tunnel.ask?, hw, Option.bind_some, Watch.ask?, hwaits] at hheard
    simp only [Tunnel.timerExpired, hw, if_pos hwaits]
    exact hheard.asking rfl
  · rw [tunnel_timerExpired_other now hid]
    exact h.expired_other hid

theorem suspect_awaits (h : Awaits t.ask? t.timer? p) :
    Awaits (t.suspect now).1.ask? (t.suspect now).1.timer? ((t.suspect now).2.foldl Pending.tell p) := by
  unfold Tunnel.suspect
  split
  · next w hw =>
    split
    · next id hwaits =>
      split
      · rw [Tunnel.ask?, hw, Option.bind_some, Watch.ask?, hwaits] at h
        exact h.asking rfl
      · exact h
    · exact h
  · exact h

end

/-! ## One step -/

theorem answers_integration {event : Event} {ask : Ask} (h : ask ∈ event.answers?) :
    match event with
    | .portForwarding _ => ask.integration = .portForwarding
    | .qbittorrent _ => ask.integration = .qbittorrent
    | .tunnel _ => ask.integration = .tunnel
    | _ => False := by
  cases event with
  | portForwarding e | qbittorrent e | tunnel e => cases e <;> cases h <;> rfl
  | _ => cases h

section
variable (c : Core) (now : ClockReading) {i : Integration} {event : Event} {p : Pending}

theorem core_asks {ask : Ask} (h : ask ∈ c.ask? i) : ask.integration = i := by
  cases i with
  | portForwarding =>
    obtain ⟨lease, failures, lastFailure, hf⟩ := portForwarding_outstanding h
    rw [Core.ask?, hf] at h
    cases h
    rfl
  | qbittorrent =>
    obtain ⟨-, rfl⟩ | ⟨session, -, hs⟩ := qbittorrent_asks h
    · rfl
    · cases hact : session.activity <;> rw [hact] at hs <;> cases hs <;> rfl
  | tunnel =>
    obtain ⟨w, -, hw⟩ := tunnel_watched h
    unfold Watch.ask? at hw
    split at hw
    · cases hw
      rfl
    · cases hw
    · obtain ⟨failover, -, rfl⟩ := Option.map_eq_some_iff.mp hw
      cases failover <;> rfl

def Core.Expects (i : Integration) (p : Pending) : Prop := Windlass.Awaits (c.ask? i) (c.timer? i) p

end

section
variable {c : Core} (now : ClockReading) {i : Integration} {event : Event} {p : Pending}

theorem Core.Expects.hear_apart (h : c.Expects i p) (ha : ∀ ask ∈ event.answers?, ask.integration ≠ i)
    (ht : ∀ id, event ≠ .timerExpired i.timer id) : c.Expects i (p.hear i event) :=
  Windlass.Awaits.hear_apart h (fun _ hask => core_asks c hask) ha ht

theorem handleStartup_integrations (e : StartupEvent) :
    (c.handleStartup e).1.portForwarding = c.portForwarding ∧
    (c.handleStartup e).1.qbittorrent = c.qbittorrent := by
  unfold Core.handleStartup Core.startReading
  dsimp only
  split <;> split <;> exact ⟨rfl, rfl⟩

theorem handle_portForwarding : (c.handle now event).1.portForwarding =
    ((c.received now event).decideMam now).1.renewLease.1.portForwarding := by
  rw [handle_eq, decided_eq, decideQbittorrent_frame]

theorem actionsOf_portForwarding : actionsOf .portForwarding (c.handle now event).2 =
    actionsOf .portForwarding ((c.note event).dispatch now event).2 ++
      ((c.received now event).decideMam now).1.renewLease.2 := by
  have hn {part : Part} {out : List Action} (h : Emits part out) (hp : part ≠ .portForwarding) :
      actionsOf .portForwarding out = [] := h.actionsOf_other hp
  rw [handle_out]
  simp only [actionsOf_append, hn (observe_emits now _) (by decide),
    hn (decideMam_emits c now event) (by decide),
    (renewLease_emits _).actionsOf_self, hn (decideQbittorrent_emits now _) (by decide),
    hn (trimHistory_emits _) (by decide), hn (notify_emits now _ _ _) (by decide), List.append_nil,
    List.nil_append]

theorem actionsOf_qbittorrent : actionsOf .qbittorrent (c.handle now event).2 =
    actionsOf .qbittorrent ((c.note event).dispatch now event).2 ++
      (((c.received now event).decideMam now).1.renewLease.1.decideQbittorrent now).2 := by
  have hn {part : Part} {out : List Action} (h : Emits part out) (hp : part ≠ .qbittorrent) :
      actionsOf .qbittorrent out = [] := h.actionsOf_other hp
  rw [handle_out]
  simp only [actionsOf_append, hn (observe_emits now _) (by decide),
    hn (decideMam_emits c now event) (by decide),
    hn (renewLease_emits _) (by decide), (decideQbittorrent_emits now _).actionsOf_self,
    hn (trimHistory_emits _) (by decide), hn (notify_emits now _ _ _) (by decide), List.append_nil,
    List.nil_append]

variable (c event) in
def Core.portForwardingAfter : PortForwarding × List Action :=
  match event with
  | .portForwarding e =>
    ((c.portForwarding.handle now e c.timers).1, (c.portForwarding.handle now e c.timers).2.2)
  | .timerExpired .portLease id => c.portForwarding.timerExpired id
  | .tunnel e =>
    if e = .switched ∧ (c.tunnel.handle now e c.timers).1.current ≠ c.tunnel.current then
      c.portForwarding.renew
    else (c.portForwarding, [])
  | _ => (c.portForwarding, [])

theorem dispatch_portForwarding :
    ((c.dispatch now event).1.portForwarding, actionsOf .portForwarding (c.dispatch now event).2) =
      c.portForwardingAfter now event := by
  cases event with
  | portForwarding e =>
    have hown := (portForwarding_handle_emits c.portForwarding now e c.timers).actionsOf_self
    cases e with
    | mappingFailed reason =>
      simp only [Core.dispatch, Core.handlePortForwarding, actionsOf_append, hown,
        (tunnel_suspect_emits c.tunnel now).actionsOf_other (show Part.tunnel ≠ .portForwarding by
          decide),
        List.append_nil]
      rfl
    | _ =>
      simp only [Core.dispatch, Core.handlePortForwarding, hown, List.append_nil]
      rfl
  | timerExpired name id =>
    cases name with
    | portLease => exact congrArg _ (portForwarding_timerExpired_emits c.portForwarding id).actionsOf_self
    | _ => exact congrArg _ (actionsOf_dispatch c now (by simp [Event.parts, TimerName.part]))
  | tunnel e =>
    simp only [Core.dispatch, Core.handleTunnel, Core.portForwardingAfter, actionsOf_append,
      (tunnel_handle_emits c.tunnel now e c.timers).actionsOf_other
      (show Part.tunnel ≠ .portForwarding by decide),
      List.nil_append]
    split
    · exact congrArg _ (renew_emits c.portForwarding).actionsOf_self
    · rfl
  | startup e =>
    rw [actionsOf_dispatch c now (by simp [Event.parts])]
    exact congrArg (·, []) (handleStartup_integrations e).1
  | _ => exact congrArg _ (actionsOf_dispatch c now (by simp [Event.parts]))

/-- The event's handling leaves port forwarding waiting for what it asked. -/
theorem portForwardingAfter_awaits (h : c.Expects .portForwarding p)
    (ha : ∀ ask ∈ event.answers?, ask.integration = .portForwarding → ask ∈ p.asks) :
    Awaits (c.portForwardingAfter now event).1.ask? (c.portForwardingAfter now event).1.timer?
      ((c.portForwardingAfter now event).2.foldl Pending.tell (p.hear .portForwarding event)) := by
  have hapart (hanswers : ∀ ask ∈ event.answers?, ask.integration ≠ .portForwarding)
      (htimer : ∀ id, event ≠ .timerExpired .portLease id) :
      c.Expects .portForwarding (p.hear .portForwarding event) :=
    h.hear_apart hanswers htimer
  cases event with
  | portForwarding e =>
    exact portForwarding_handle_awaits now c.timers h e fun ask hask => ha ask hask
      (answers_integration hask)
  | timerExpired name id =>
    cases name with
    | portLease => exact portForwarding_timerExpired_awaits h id
    | _ => exact hapart nofun nofun
  | tunnel e =>
    have hheard := hapart (fun ask hask hi => by rw [answers_integration hask] at hi; cases hi) nofun
    unfold Core.portForwardingAfter
    dsimp only
    split
    · exact renew_awaits hheard
    · exact hheard
  | qbittorrent e =>
    exact hapart (fun ask hask hi => by rw [answers_integration hask] at hi; cases hi) nofun
  | _ => exact hapart nofun nofun

theorem dispatch_qbittorrent_awaits (h : c.Expects .qbittorrent p)
    (ha : ∀ ask ∈ event.answers?, ask.integration = .qbittorrent → ask ∈ p.asks) :
    (c.dispatch now event).1.Expects .qbittorrent
      ((actionsOf .qbittorrent (c.dispatch now event).2).foldl Pending.tell
        (p.hear .qbittorrent event)) := by
  have hapart (hanswers : ∀ ask ∈ event.answers?, ask.integration ≠ .qbittorrent)
      (htimer : ∀ id, event ≠ .timerExpired .qbittorrentPoll id) :
      c.Expects .qbittorrent (p.hear .qbittorrent event) :=
    h.hear_apart hanswers htimer
  cases event with
  | qbittorrent e =>
    simp only [Core.dispatch, Core.handleQbittorrent,
      (qbittorrent_handle_emits c.qbittorrent now e c.timers).actionsOf_self]
    exact qbittorrent_handle_awaits now c.timers h e fun ask hask => ha ask hask
      (answers_integration hask)
  | timerExpired name id =>
    cases name with
    | qbittorrentPoll =>
      simp only [Core.dispatch, Core.timerExpired,
        (qbittorrent_timerExpired_emits c.qbittorrent id).actionsOf_self]
      exact qbittorrent_timerExpired_awaits h id
    | _ =>
      rw [actionsOf_dispatch c now (by simp [Event.parts, TimerName.part])]
      exact hapart (fun _ h => by cases h) fun _ h => by cases h
  | startup e =>
    rw [actionsOf_dispatch c now (by simp [Event.parts])]
    simp only [Core.Expects, Core.ask?, Core.timer?, Core.dispatch, (handleStartup_integrations e).2]
    exact hapart (fun _ h => by cases h) fun _ h => by cases h
  | portForwarding e | tunnel e =>
    rw [actionsOf_dispatch c now (by simp [Event.parts])]
    exact hapart (fun ask hask hi => by rw [answers_integration hask] at hi; cases hi)
      fun _ h => by cases h
  | _ =>
    rw [actionsOf_dispatch c now (by simp [Event.parts])]
    exact hapart (fun _ h => by cases h) fun _ h => by cases h

theorem tunnelAfter_awaits (h : c.Expects .tunnel p)
    (ha : ∀ ask ∈ event.answers?, ask.integration = .tunnel → ask ∈ p.asks) :
    Awaits (c.tunnelAfter now event).1.ask? (c.tunnelAfter now event).1.timer?
      ((c.tunnelAfter now event).2.foldl Pending.tell (p.hear .tunnel event)) := by
  have hapart (hanswers : ∀ ask ∈ event.answers?, ask.integration ≠ .tunnel)
      (htimer : ∀ id, event ≠ .timerExpired .tunnelCheck id) : c.Expects .tunnel (p.hear .tunnel event) :=
    h.hear_apart hanswers htimer
  cases event with
  | tunnel e =>
    exact tunnel_handle_awaits now c.timers h e fun ask hask => ha ask hask (answers_integration hask)
  | timerExpired name id =>
    cases name with
    | tunnelCheck => exact tunnel_timerExpired_awaits now h id
    | _ => exact hapart nofun nofun
  | portForwarding e =>
    have hheard := hapart (fun ask hask hi => by rw [answers_integration hask] at hi; cases hi) nofun
    cases e with
    | mappingFailed reason => exact suspect_awaits now hheard
    | _ => exact hheard
  | startup e =>
    have hheard := hapart nofun nofun
    unfold Core.tunnelAfter
    dsimp only
    split
    · exact ⟨(List.append_nil _).trans hheard.asks, hheard.timer⟩
    · exact hheard
  | qbittorrent e =>
    exact hapart (fun ask hask hi => by rw [answers_integration hask] at hi; cases hi) nofun
  | _ => exact hapart nofun nofun

/-- A step leaves every integration waiting for what it asked or started last. -/
theorem handle_awaits (t : TimedEvent) (h : c.Expects i p)
    (ha : ∀ ask ∈ t.event.answers?, ask.integration = i → ask ∈ p.asks) :
    (core.step c t).1.Expects i (p.next i (core.entry c t)) := by
  cases i with
  | portForwarding =>
    have hdispatched := @portForwardingAfter_awaits (c.note t.event) t.occurredAt t.event p h ha
    rw [← dispatch_portForwarding] at hdispatched
    simp only [Pending.next, entry_out, entry_input, Integration.part, actionsOf_portForwarding,
      List.foldl_append]
    generalize (actionsOf .portForwarding ((c.note t.event).dispatch t.occurredAt t.event).2).foldl
      Pending.tell
      (p.hear .portForwarding t.event) = heard at hdispatched ⊢
    have hexpired : Awaits ((c.received t.occurredAt t.event).decideMam
      t.occurredAt).1.portForwarding.ask?
        ((c.received t.occurredAt t.event).decideMam t.occurredAt).1.portForwarding.timer? heard := by
      rw [decideMam_eq, received_eq, (expire_awaits _).1, (expire_awaits _).2]
      exact hdispatched
    unfold Core.Expects Core.ask? Core.timer?
    rw [core_step, handle_portForwarding]
    unfold Core.renewLease
    dsimp only
    split
    · exact renew_awaits hexpired
    · exact hexpired
  | qbittorrent =>
    have hdispatched := @dispatch_qbittorrent_awaits (c.note t.event) t.occurredAt t.event p h ha
    simp only [Pending.next, entry_out, entry_input, Integration.part, actionsOf_qbittorrent,
      List.foldl_append]
    generalize (actionsOf .qbittorrent ((c.note t.event).dispatch t.occurredAt t.event).2).foldl
      Pending.tell
      (p.hear .qbittorrent t.event) = heard at hdispatched ⊢
    have hcommanding : Awaits (c.commanding t.occurredAt t.event).qbittorrent.ask?
        (c.commanding t.occurredAt t.event).qbittorrent.timer? heard := by
      rw [commanding_qbittorrent]
      exact hdispatched
    unfold Core.Expects Core.ask? Core.timer?
    rw [core_step, handle_qbittorrent_state]
    unfold Core.decideQbittorrent
    dsimp only
    rw [List.foldl_append]
    exact followPreferences_awaits (qbittorrent_decide_awaits _ _ hcommanding _ _ _) _
  | tunnel =>
    have hafter := tunnelAfter_awaits t.occurredAt h ha
    have htunnel := handle_tunnel c t.occurredAt t.event
    rw [← htunnel] at hafter
    exact hafter

end

theorem pending_expects (is : List TimedEvent) (h : Along AnswersOnce (core.run is)) (i : Integration) :
    (core.last is).Expects i (pending i (core.run is)) := by
  refine run_invariant core (I := fun tr c => c.Expects i (pending i tr)) (H := Along AnswersOnce)
    (fun _ _ h => h.left) ?_ (fun tr c t hc hH => ?_) is h
  · cases i <;> exact ⟨rfl, nofun⟩
  · rw [pending_snoc]
    exact handle_awaits t hc fun ask hask hi => hi ▸ hH.last ask hask

/-! ## No integration gets stuck -/

/-- An enabled integration waits for the answer to its one unanswered request, or with no
request unanswered for the timer that runs under its name. -/
def Core.WaitsForOne (c : Core) (i : Integration) (p : Pending) : Prop :=
  (∃ ask, p.asks = [ask] ∧ c.ask? i = some ask ∧ c.timer? i = none) ∨
    p.asks = [] ∧ c.ask? i = none ∧ ∃ id, c.timer? i = some id ∧ p.timer = some id

structure Unstuck (pre : List (Reactive.Entry Core TimedEvent Action))
    (e : Reactive.Entry Core TimedEvent Action) :
    Prop where
  settled : e.after.qbittorrent.deciding = none
  switching : ∀ w, e.after.tunnel.watch = some w → (w.check = .switching ↔ w.failover.isSome)
  waiting : ∀ i, e.after.isEnabled i → e.after.WaitsForOne i (pending i (pre ++ [e]))
  expiry : ∀ now i id, e.after.timer? i ≠ some id →
    e.after.dispatch now (.timerExpired i.timer id) = (e.after, [])

section
variable {c : Core}

/-- Between steps an enabled integration waits for a request or for a timer. -/
theorem core_waits {i : Integration} (hq : c.qbittorrent.deciding = none)
    (ht : ∀ w, c.tunnel.watch = some w → (w.check = .switching ↔ w.failover.isSome))
    (he : c.isEnabled i) :
    (∃ ask, c.ask? i = some ask ∧ c.timer? i = none) ∨ c.ask? i = none ∧ ∃ id, c.timer? i = some id := by
  cases i with
  | portForwarding =>
    unfold Core.ask? Core.timer?
    dsimp only
    cases hf : c.portForwarding with
    | disabled => exact absurd hf he
    | enabled lease request failures lastFailure =>
      cases request with
      | outstanding => exact .inl ⟨_, rfl, rfl⟩
      | waiting id => exact .inr ⟨rfl, id, rfl⟩
  | qbittorrent =>
    unfold Core.ask? Core.timer?
    dsimp only
    cases hc : c.qbittorrent with
    | disabled => exact absurd hc he
    | connecting => exact .inl ⟨_, rfl, rfl⟩
    | unreachable reason retry => exact .inr ⟨rfl, retry, rfl⟩
    | connected session =>
      cases ha : session.activity with
      | waiting id => exact .inr ⟨congrArg Activity.ask? ha, id, congrArg Activity.timer? ha⟩
      | deciding after => simp [hc, Qbittorrent.deciding, ha] at hq
      | _ => exact .inl ⟨_, congrArg Activity.ask? ha, congrArg Activity.timer? ha⟩
  | tunnel =>
    unfold Core.ask? Core.timer? Tunnel.ask? Tunnel.timer?
    dsimp only
    cases hw : c.tunnel.watch with
    | none => exact absurd hw he
    | some w =>
      simp only [Option.bind_some, Watch.ask?, Watch.timer?]
      cases hc : w.check with
      | outstanding => exact .inl ⟨_, rfl, rfl⟩
      | waiting id => exact .inr ⟨rfl, id, rfl⟩
      | switching =>
        obtain ⟨failover, hf⟩ := Option.isSome_iff_exists.mp ((ht w hw).mp hc)
        exact .inl ⟨failover.ask, by rw [hf]; rfl, rfl⟩

theorem expiry_changes_nothing (now : ClockReading) {i : Integration} {id : TimerId}
    (h : c.timer? i ≠ some id) :
    c.dispatch now (.timerExpired i.timer id) = (c, []) := by
  cases i with
  | portForwarding =>
    simp only [Core.dispatch, Integration.timer, Core.timerExpired, portForwarding_timerExpired_other h]
  | qbittorrent =>
    simp only [Core.dispatch, Integration.timer, Core.timerExpired, qbittorrent_timerExpired_other h]
  | tunnel => simp only [Core.dispatch, Integration.timer, Core.timerExpired,
      tunnel_timerExpired_other now h]

end

theorem handle_unstuck {c : Core} {t : TimedEvent}
    {pre : List (Reactive.Entry Core TimedEvent Action)} {l : FailoverLog}
    (hagrees : (core.step c t).1.tunnel.Agrees l)
    (hexpects : ∀ i, (core.step c t).1.Expects i (pending i (pre ++ [core.entry c t]))) :
    Unstuck pre (core.entry c t) := by
  have hsettled : (core.step c t).1.qbittorrent.deciding = none := handle_settled c t.event
  have hswitching : ∀ w, (core.step c t).1.tunnel.watch = some w →
      (w.check = .switching ↔ w.failover.isSome) :=
    fun w hw => (hagrees.watch hw).2.switching.symm
  refine ⟨hsettled, hswitching, fun i hi => ?_, fun now i id hid => expiry_changes_nothing now hid⟩
  have hwaits := hexpects i
  obtain ⟨ask, hask, htimer⟩ | ⟨hask, id, htimer⟩ := core_waits hsettled hswitching hi
  · have hasks : (pending i (pre ++ [core.entry c t])).asks = [ask] := by
      rw [hwaits.asks, hask]
      rfl
    exact .inl ⟨ask, hasks, hask, htimer⟩
  · have hasks : (pending i (pre ++ [core.entry c t])).asks = [] := by
      rw [hwaits.asks, hask]
      rfl
    exact .inr ⟨hasks, hask, id, htimer, hwaits.timer id htimer⟩

/-- Where every action is answered at most once, no integration gets stuck: one that is
enabled waits for its one unanswered request or for the timer last started for it. -/
theorem integrations_unstuck (is : List TimedEvent) (h : Along AnswersOnce (core.run is)) :
    Along Unstuck (core.run is) := by
  intro pre e post hcut
  obtain ⟨js, t, ks, -, rfl, rfl, -⟩ := run_split core hcut
  have honce : Along AnswersOnce (core.run (js ++ [t])) := by
    rw [hcut, List.append_cons] at h
    rw [run_snoc]
    exact h.left
  have hagrees := failoverLog_agrees (js ++ [t])
  have hexpects := pending_expects (js ++ [t]) honce
  rw [last_snoc] at hagrees
  rw [run_snoc, last_snoc] at hexpects
  exact handle_unstuck hagrees hexpects

def movedEvents : List TimedEvent :=
  -- the tunnel fails over, which asks for a new port, and qBittorrent cannot be reached
  failoverEvents none ++
    [.after 120 (.portForwarding .enable),
      .after 120 (.portForwarding (.mapped otherPort otherPort leaseLifetime)),
      .after 121 (.tunnel .switchSaved), .after 122 (.tunnel .switched),
      .after 123 (.qbittorrent .enable),
      .after 124 (.qbittorrent (.connectFailed .unreachable))]

theorem moved_unstuck : (pending .portForwarding (core.run movedEvents)).asks = [.portMapping] ∧
    (pending .tunnel (core.run movedEvents)).asks = [.checkExitIp] ∧
    (core.last movedEvents).qbittorrent.timer? = (pending .qbittorrent (core.run movedEvents)).timer ∧
    Along Unstuck (core.run movedEvents) := by
  have honce : Along AnswersOnce (core.run movedEvents) := by decide +kernel
  exact ⟨by decide +kernel, by decide +kernel, by decide +kernel, integrations_unstuck movedEvents honce⟩

end Windlass
