import Windlass.IntegrationSound
import Windlass.Shell

/-!
# Every wait has its worker

In every run of the whole program, what the core waits for is what a worker is at: a
request to MAM, an attempt being saved, or what an integration has asked for. Nothing
is answered twice, and no answer comes to what did not ask for it.
-/

namespace Windlass

open Reactive

/-! ## What workers report -/

inductive Errand
  | request | attempt
  | ask (ask : Ask)
deriving DecidableEq

def Errand.ask? : Errand → Option Ask
  | .ask a => some a
  | .request | .attempt => none

def QbittorrentRequest.ask : QbittorrentRequest → Ask
  | .connect => .connect
  | .sync _ => .sync
  | .readPreferences => .readPreferences
  | .setListenPort _ => .setListenPort
  | .setQueue _ => .setQueue
  | .command _ => .command

def Work.errand? : Work → Option Errand
  | .store (.saveRegistrationAttempt _) => some .attempt
  | .store (.saveVpnSwitch _) => some (.ask .saveSwitch)
  | .store _ | .send .. => none
  | .mapPorts _ => some (.ask .portMapping)
  | .qbittorrent request => some (.ask request.ask)
  | .tunnel .checkExitIp => some (.ask .checkExitIp)
  | .tunnel (.switch _) => some (.ask .switchServer)
  | .mam .. => some .request

def Event.errand? (event : Event) : Option Errand :=
  if event.isAnswer then some .request
  else if event.isSaveResult then some .attempt
  else event.answers?.map .ask

def TimedEvent.errand? (t : TimedEvent) : Option Errand := t.event.errand?

theorem failure_errand (operation : Operation) :
    operation.failure.errand? = (Work.store operation).errand? := by
  cases operation <;> rfl

section
variable {db db' : Database} {event : Event}

theorem write_event {table : String} {given : List (String × Sqlite.Value)} {e : Event}
    (h : db.write table given e = some (db', event)) : event = e := by
  unfold Database.write at h
  obtain ⟨tables, -, heq⟩ := Option.map_eq_some_iff.mp h
  exact (Prod.mk.inj heq).2.symm

theorem of_bind {α β : Type} {P : β → Prop} {o : Option α} {f : α → Option β} (h : ∀ a, ∀ b ∈ f a, P b) :
    ∀ b ∈ o >>= f, P b := by
  intro b hb
  obtain ⟨a, -, ha⟩ := Option.bind_eq_some_iff.mp hb
  exact h a b ha

theorem of_read {P : Event → Prop} {e : Option Event} (hp : ∀ event ∈ e, P event)
    (h : e.map (db, ·) = some (db', event)) : P event := by
  obtain ⟨event', he, heq⟩ := Option.map_eq_some_iff.mp h
  rw [← (Prod.mk.inj heq).2]
  exact hp event' he

theorem map_event {α : Type} {a : Option α} {f : α → Database} {e : Event}
    (h : a.map (fun x => (f x, e)) = some (db', event)) : event = e := by
  obtain ⟨x, -, heq⟩ := Option.map_eq_some_iff.mp h
  exact (Prod.mk.inj heq).2.symm

theorem readMode_errand : ∀ event ∈ db.readMode, event.errand? = none := by
  refine of_bind fun stored => of_bind fun mode => ?_
  rintro event ⟨⟩
  rfl

theorem readSettings_errand : ∀ event ∈ db.readSettings, event.errand? = none := by
  refine of_bind fun stored => ?_
  refine of_bind fun limit => of_bind fun cookie => of_bind fun topic => of_bind fun reserve => ?_
  refine of_bind fun downloading => of_bind fun active => of_bind fun historyLimit =>
    of_bind fun apiCookie => ?_
  refine of_bind fun ntfyTopic => of_bind fun pointsReserve => ?_
  dsimp only
  split
  · refine of_bind fun torrentLimits => ?_
    rintro event ⟨⟩
    rfl
  · refine of_bind fun torrentLimits => ?_
    rintro event ⟨⟩
    rfl

theorem readMamState_errand : ∀ event ∈ db.readMamState, event.errand? = none := by
  refine of_bind fun stored => ?_
  refine of_bind fun registration => of_bind fun reminder => of_bind fun watched =>
    of_bind fun usedAt => ?_
  refine of_bind fun used => of_bind fun ratioGuard => of_bind fun lastRegistration =>
    of_bind fun lastReminder => ?_
  rintro event ⟨⟩
  rfl

theorem readLastSwitch_errand : ∀ event ∈ db.readLastSwitch, event.errand? = none := by
  refine of_bind fun stored => of_bind fun lastSwitch => ?_
  rintro event ⟨⟩
  rfl

theorem readNoticeLog_errand : ∀ event ∈ db.readNoticeLog, event.errand? = none := by
  refine of_bind fun last => of_bind fun id => ?_
  rintro event ⟨⟩
  rfl

theorem open_errand {file : Option Database} {mode : StartupMode}
    (h : openStorage file mode = some (db', event)) :
    event.errand? = none := by
  cases mode with
  | initialise =>
    cases file with
    | none =>
      unfold openStorage at h
      rw [map_event h]
      rfl
    | some db => cases h
  | resume =>
    refine of_bind (P := fun r : Database × Event => r.2.errand? = none)
      (fun db => of_bind fun _ => ?_) _ h
    split
    · simp
    · intro r hr
      obtain ⟨tables, -, rfl⟩ := Option.map_eq_some_iff.mp hr
      rfl

theorem perform_errand (message : Notice → Message) {operation : Operation}
    (h : db.perform message operation = some (db', event)) :
    event.errand? = (Work.store operation).errand? := by
  cases operation with
  | openStorage mode =>
    have hopen : openStorage (some db) mode = some (db', event) := h
    exact open_errand hopen
  | readMamRequestMode => exact of_read readMode_errand h
  | readSettings => exact of_read readSettings_errand h
  | readLastVpnSwitch => exact of_read readLastSwitch_errand h
  | readMamState => exact of_read readMamState_errand h
  | readNoticeLog => exact of_read readNoticeLog_errand h
  | readTorrentRegistry =>
    obtain ⟨t, -, ht⟩ := Option.bind_eq_some_iff.mp h
    obtain ⟨records, -, heq⟩ := Option.map_eq_some_iff.mp ht
    rw [← (Prod.mk.inj heq).2]
    rfl
  | deleteMamRequestMode | saveTorrents records | saveNotice entry forgetThrough =>
    rw [map_event h]
    rfl
  | _ =>
    rw [write_event h]
    rfl

end

theorem execute_errand (message : Notice → Message) (file : Option Database) (operation : Operation) :
    (execute message file operation).2.errand? = (Work.store operation).errand? := by
  unfold execute
  dsimp only
  split
  · next db event hdone =>
    split at hdone
    · rw [open_errand hdone]
      rfl
    · cases hdone
    · exact perform_errand message hdone
  · exact failure_errand operation

theorem outcome_map {α : Type} {x : QbittorrentOutcome α} {f : α → QbittorrentEvent}
    {event : QbittorrentEvent}
    (h : x.map f = .ok event) : ∃ a, event = f a := by
  cases x with
  | error reason => cases h
  | ok a =>
    cases h
    exact ⟨a, rfl⟩

theorem connect_event {F : Type} {client : QbittorrentClient F} {event : QbittorrentEvent}
    (h : client.connect = .ok event) :
    ∃ version preferences, event = .connected version preferences := by
  have hbind {α β : Type} {x : QbittorrentOutcome α} {f : α →
    QbittorrentOutcome β} {b : β} (h : x >>= f = .ok b) :
      ∃ a, f a = .ok b := by
    cases x with
    | error reason => cases h
    | ok a => exact ⟨a, h⟩
  obtain ⟨response, h⟩ := hbind h
  obtain ⟨version, h⟩ := hbind h
  obtain ⟨preferences, h⟩ := hbind h
  cases h
  exact ⟨version, preferences, rfl⟩

theorem qbittorrent_errand {F : Type} (client : Option (QbittorrentClient F))
    (request : QbittorrentRequest) :
    (Event.qbittorrent (request.execute client)).errand? = some (.ask request.ask) := by
  have hfailed (reason : QbittorrentFailure) :
      (Event.qbittorrent (request.failed reason)).errand? = some (.ask request.ask) := by
        cases request <;> rfl
  unfold QbittorrentRequest.execute
  cases client with
  | none => exact hfailed .unreachable
  | some client =>
    dsimp only
    cases hp : client.perform request with
    | error reason => exact hfailed reason
    | ok event =>
      dsimp only
      cases request with
      | connect =>
        obtain ⟨version, preferences, rfl⟩ := connect_event hp
        rfl
      | sync position =>
        obtain ⟨update, rfl⟩ := outcome_map hp
        rfl
      | readPreferences =>
        obtain ⟨preferences, rfl⟩ := outcome_map hp
        rfl
      | setListenPort port =>
        obtain ⟨done, rfl⟩ := outcome_map hp
        rfl
      | setQueue queue =>
        obtain ⟨done, rfl⟩ := outcome_map hp
        rfl
      | command given =>
        obtain ⟨done, rfl⟩ := outcome_map hp
        rfl

theorem tunnel_errand {F : Type} (p : Parsers F) (client : Option TunnelClient)
    (request : TunnelRequest) :
    (Event.tunnel (request.perform p client)).errand? = (Work.tunnel request).errand? := by
  cases request with
  | checkExitIp =>
    unfold TunnelRequest.perform
    dsimp only
    split
    · rfl
    · split <;> rfl
  | switch server =>
    unfold TunnelRequest.perform
    dsimp only
    split <;> rfl

theorem mapPorts_errand (sends : Instant → Bool) (socket : Option NatPmp.Socket) :
    (Event.portForwarding (NatPmp.mapPorts sends socket)).errand? = some (.ask .portMapping) := by
  unfold NatPmp.mapPorts
  split
  · rfl
  · split
    · rfl
    · split <;> rfl

section
variable {F : Type} (config : Configuration F)

theorem perform_reports (world : World F) (work : Work) :
    (world.perform config work).2.errand? = work.errand? := by
  cases work with
  | store operation => exact execute_errand config.message world.file operation
  | mapPorts lifetime =>
    change (Event.portForwarding _).errand? = _
    split
    · exact mapPorts_errand _ _
    · exact mapPorts_errand _ _
  | qbittorrent request => exact qbittorrent_errand _ request
  | tunnel request => exact tunnel_errand config.parsers _ request
  | send topic push =>
    change (Event.notification (Channel.send _ topic push)).errand? = none
    unfold Channel.send
    split
    · rfl
    · split <;> rfl
  | mam request cookie => rfl

theorem failure_reports (work : Work) : work.failure.errand? = work.errand? := by
  cases work with
  | store operation => exact failure_errand operation
  | qbittorrent request => cases request <;> rfl
  | tunnel request => cases request <;> rfl
  | _ => rfl

theorem unreported_errand {event : Event} (h : event.reported = false) : event.errand? = none := by
  cases event with
  | portForwarding event => cases event <;> first | rfl | cases h
  | qbittorrent event => cases event <;> first | rfl | cases h
  | tunnel event => cases event <;> first | rfl | cases h
  | notification event => rfl
  | mam event => cases event <;> first | rfl | cases h
  | _ => rfl

theorem shell_replies : shell.Replies Work.errand? TimedEvent.errand? (World.perform config) where
  perform world work _ := perform_reports config world work
  failure work _ := failure_reports work
  input _ h := unreported_errand h

end

/-! ## Counting them -/

abbrev Steps := List (Reactive.Entry Core TimedEvent Action)

def askedOf (tr : Steps) : List Errand := shell.asked Work.errand? tr

def toldOf (tr : Steps) : List Errand := Workers.answered TimedEvent.errand? tr

section
variable {tr : Steps} {e : Reactive.Entry Core TimedEvent Action}

@[simp] theorem askedOf_snoc :
    askedOf (tr ++ [e]) = askedOf tr ++ (e.out.filterMap Action.dispatch).filterMap Work.errand? := by
  simp [askedOf, Workers.Crew.asked, shell]

@[simp] theorem toldOf_snoc : toldOf (tr ++ [e]) = toldOf tr ++ e.input.errand?.toList := by
  unfold toldOf Workers.answered
  cases h : e.input.errand? <;> simp [h]

theorem dispatched_counts (out : List Action) :
    ((out.filterMap Action.dispatch).filterMap Work.errand?).count .request = (requests out).length ∧
      ((out.filterMap Action.dispatch).filterMap Work.errand?).count .attempt = (attempts out).length ∧
      ∀ ask, ((out.filterMap Action.dispatch).filterMap Work.errand?).count (.ask ask) =
      (out.filterMap Action.ask?).count ask := by
  have heach {p q : Action → Bool} (h : ∀ a, p a = q a) : out.countP p = out.countP q :=
    congrArg (List.countP · out) (funext h)
  rw [List.filterMap_filterMap]
  simp only [List.count_filterMap, requests, attempts, List.length_filterMap_eq_countP]
  refine ⟨heach fun a => ?_, heach fun a => ?_, fun ask => heach fun a => ?_⟩
  · cases a <;> rfl
  · cases a <;> rfl
  · have hask : a.ask? = (a.dispatch.bind Work.errand?).bind Errand.ask? := by cases a <;> rfl
    rw [hask]
    cases a.dispatch.bind Work.errand? with
    | none => rfl
    | some errand => cases errand <;> simp [Errand.ask?]

theorem asked_counts (tr : Steps) : (askedOf tr).count .request = (sentRequests tr).length ∧
    (askedOf tr).count .attempt = (startedSaves tr).length := by
  induction tr using List.reverseRecOn with
  | nil => exact ⟨rfl, rfl⟩
  | append_singleton tr e ih =>
    obtain ⟨hrequests, hattempts, -⟩ := dispatched_counts e.out
    simp [List.count_append, ih.1, ih.2, hrequests, hattempts]

theorem told_counts (tr : Steps) : (toldOf tr).count .request = answers tr ∧
    (toldOf tr).count .attempt = saveResults tr := by
  induction tr using List.reverseRecOn with
  | nil => exact ⟨rfl, rfl⟩
  | append_singleton tr e ih =>
    rw [toldOf_snoc, answers_snoc, saveResults_snoc, List.count_append, List.count_append, ih.1, ih.2]
    unfold TimedEvent.errand? Event.errand?
    cases ha : e.input.event.isAnswer with
    | true =>
      have hs : e.input.event.isSaveResult = false := by
        unfold Event.isAnswer at ha
        split at ha
        · next h => rw [h]; rfl
        · cases ha
      simp [hs]
    | false =>
      cases hs : e.input.event.isSaveResult with
      | true => simp
      | false => cases e.input.event.answers? <;> simp

theorem errand_ask {event : Event} {ask : Ask} :
    event.errand? = some (.ask ask) ↔ event.answers? = some ask := by
  unfold Event.errand?
  cases ha : event.isAnswer with
  | true =>
    have hn : event.answers? = none := by
      unfold Event.isAnswer at ha
      split at ha
      · rfl
      · cases ha
    simp [hn]
  | false =>
    cases hs : event.isSaveResult with
    | true =>
      have hn : event.answers? = none := by
        unfold Event.isSaveResult at hs
        split at hs <;> first | rfl | cases hs
      simp [hn]
    | false => simp

theorem errand_request {event : Event} : event.errand? = some .request ↔ event.isAnswer = true := by
  unfold Event.errand?
  cases event.isAnswer with
  | true => simp
  | false => cases event.isSaveResult <;> simp

theorem hear_count {i : Integration} {p : Pending} {event : Event} {ask : Ask}
    (h : event.answers? = some ask → 0 < p.asks.count ask) :
    (p.hear i event).asks.count ask + event.errand?.toList.count (.ask ask) = p.asks.count ask := by
  have htold : event.errand?.toList.count (.ask ask) = if event.answers? = some ask then 1 else 0 := by
    by_cases ha : event.answers? = some ask
    · rw [if_pos ha, errand_ask.mpr ha]
      simp
    · rw [if_neg ha]
      have hne : event.errand? ≠ some (.ask ask) := fun he => ha (errand_ask.mp he)
      cases he : event.errand? with
      | none => rfl
      | some errand =>
        rw [he] at hne
        exact List.count_eq_zero.mpr fun hmem => hne (congrArg some (List.mem_singleton.mp hmem).symm)
  rw [htold]
  cases event with
  | timerExpired name id =>
    unfold Pending.hear Pending.expire
    dsimp only
    split
    · split <;> rfl
    · rfl
  | _ =>
    simp only [Pending.hear]
    split
    · next a ha =>
      rw [ha] at h ⊢
      by_cases heq : a = ask
      · subst heq
        have hpos := h rfl
        rw [if_pos rfl, List.count_erase_self]
        omega
      · rw [if_neg (by simpa using heq), List.count_erase_of_ne (Ne.symm heq)]
        rfl
    · next ha =>
      rw [ha]
      rfl

theorem tell_asks (out : List Action) (p : Pending) :
    (out.foldl Pending.tell p).asks = p.asks ++ out.filterMap Action.ask? := by
  induction out generalizing p with
  | nil => simp
  | cons a out ih =>
    have htell : (p.tell a).asks = p.asks ++ a.ask?.toList := by
      cases a <;> simp [Pending.tell, Action.ask?]
    rw [List.foldl_cons, ih, htell, List.append_assoc]
    cases ha : a.ask? <;> simp [ha]

theorem ask_part {a : Action} {ask : Ask} (h : a.ask? = some ask) : a.part = ask.integration.part := by
  cases a <;> cases h <;> rfl

theorem pending_count (h : Along
    (fun pre e => ∀ k ∈ e.input.errand?, (toldOf pre).count k < (askedOf pre).count k) tr)
    (ask : Ask) :
    (pending ask.integration tr).asks.count ask + (toldOf tr).count (.ask ask) =
    (askedOf tr).count (.ask ask) := by
  -- on the run of the core; what the last step asks is what it spawns
  induction tr using List.reverseRecOn with
  | nil => rfl
  | append_singleton tr e ih =>
    have hbefore := ih h.left
    have hheard : (((pending ask.integration tr).hear ask.integration e.input.event).asks).count ask +
        e.input.errand?.toList.count (.ask ask) = (pending ask.integration tr).asks.count ask := by
      refine hear_count fun ha => ?_
      have hlast := h.last (.ask ask) (errand_ask.mpr ha)
      omega
    have hparts : ((actionsOf ask.integration.part e.out).filterMap Action.ask?).count ask =
        (e.out.filterMap Action.ask?).count ask := by
      rw [List.count_filterMap, List.count_filterMap, actionsOf, List.countP_filter]
      refine congrArg (List.countP · e.out) (funext fun a => ?_)
      cases ha : a.ask? with
      | none => rfl
      | some ask' =>
        by_cases heq : ask' = ask
        · subst heq
          simp [ask_part ha]
        · simp [heq]
    rw [pending_snoc, toldOf_snoc, askedOf_snoc, List.count_append, List.count_append,
      (dispatched_counts e.out).2.2 ask]
    unfold Pending.next
    rw [tell_asks, List.count_append, hparts]
    omega

end

/-! ## Nothing is answered twice -/

abbrev Owing {F : Type} (s : Living F) : Prop := shell.Owes Work.errand? TimedEvent.errand? s

section
variable {F : Type} {s : Living F}

theorem Owing.answeredOnce (h : Owing s) : AnsweredOnce (core.run s.taken) := by
  intro pre e post hcut
  have honce := h.once pre e post hcut
  refine ⟨fun ha => ?_, fun hr => ?_⟩
  · have hlt := honce .request (by simp [TimedEvent.errand?, Event.errand?, ha])
    have hasked := (asked_counts pre).1
    have htold := (told_counts pre).1
    unfold askedOf at hasked
    unfold toldOf at htold
    rwa [hasked, htold] at hlt
  · have hn : e.input.event.isAnswer = false := by
      unfold Event.isSaveResult at hr
      split at hr
      · next h => rw [h]; rfl
      · next h => rw [h]; rfl
      · cases hr
    have hlt := honce .attempt (by simp [TimedEvent.errand?, Event.errand?, hn, hr])
    have hasked := (asked_counts pre).2
    have htold := (told_counts pre).2
    unfold askedOf at hasked
    unfold toldOf at htold
    rwa [hasked, htold] at hlt

theorem Owing.answersOnce (h : Owing s) : Along AnswersOnce (core.run s.taken) := by
  intro pre e post hcut ask hask
  have hrun : Along (fun pre e => ∀ k ∈ e.input.errand?, (toldOf pre).count k < (askedOf pre).count k)
      (core.run s.taken) := h.once
  have hbefore : Along
      (fun pre e => ∀ k ∈ e.input.errand?, (toldOf pre).count k < (askedOf pre).count k) pre := by
    rw [hcut] at hrun
    exact hrun.left
  have hlt := hrun pre e post hcut (.ask ask) (errand_ask.mpr hask)
  have hcount := pending_count hbefore ask
  exact List.count_pos_iff.mp (by omega)

end

/-! ## The workers under way -/

abbrev Jobs := List (Workers.Job Work Event)

def Work.request? : Work → Option (MamRequest × Option ApiCookie)
  | .mam request cookie => some (request, cookie)
  | _ => none

def Work.attempt? : Work → Option SystemTime
  | .store (.saveRegistrationAttempt at') => some at'
  | _ => none

def Work.ask? (work : Work) : Option Ask := work.errand?.bind Errand.ask?

theorem work_request {work : Work} : work.errand? = some .request ↔ work.request?.isSome := by
  cases work with
  | store operation => cases operation <;> simp [Work.errand?, Work.request?]
  | tunnel request => cases request <;> simp [Work.errand?, Work.request?]
  | _ => simp [Work.errand?, Work.request?]

def requestsUnderWay (jobs : Jobs) : List (MamRequest × Option ApiCookie) :=
  jobs.filterMap fun job => job.work.request?

def attemptsUnderWay (jobs : Jobs) : List SystemTime := jobs.filterMap fun job => job.work.attempt?

def asksUnderWay (i : Integration) (jobs : Jobs) : List Ask :=
  (jobs.filterMap fun job => job.work.ask?).filter fun ask => ask.integration = i

structure Living.Fits {F : Type} (s : Living F) : Prop where
  owing : Owing s
  requests : requestsUnderWay s.jobs = (sentRequests (core.run s.taken)).drop
    (answers (core.run s.taken))

section
variable {F : Type} {s : Living F}

theorem requests_asked (out : List Action) :
    requestsUnderWay ((out.filterMap Action.dispatch).map fun w => ⟨w, none⟩) = requests out := by
  unfold requestsUnderWay requests
  rw [List.filterMap_map, List.filterMap_filterMap]
  refine congrArg (List.filterMap · out) (funext fun a => ?_)
  cases a <;> rfl

theorem take_requests {i : TimedEvent} (hle : answers (core.run s.taken) + i.event.isAnswer.toNat ≤
      (sentRequests (core.run s.taken)).length)
    (h : requestsUnderWay s.jobs = (sentRequests (core.run s.taken)).drop
      (answers (core.run s.taken) + i.event.isAnswer.toNat)) :
    requestsUnderWay (shell.take s i).1.jobs =
      (sentRequests (core.run (shell.take s i).1.taken)).drop
      (answers (core.run (shell.take s i).1.taken)) := by
  have hrun : core.run (shell.take s i).1.taken = core.run s.taken ++
    [core.entry (core.last s.taken) i] := run_snoc ..
  have hjobs : requestsUnderWay (shell.take s i).1.jobs = requestsUnderWay s.jobs ++
      requests (core.step (core.last s.taken) i).2 :=
    List.filterMap_append.trans (congrArg (_ ++ ·) (requests_asked _))
  rw [hrun, sentRequests_snoc, answers_snoc, hjobs, h, entry_input, List.drop_append_of_le_length hle]
  rfl

theorem Living.Fits.le (h : s.Fits) :
    answers (core.run s.taken) ≤ (sentRequests (core.run s.taken)).length ∧
    (sentRequests (core.run s.taken)).length ≤ answers (core.run s.taken) + 1 :=
  (slotInv_run s.taken h.owing.answeredOnce).le

theorem fits_done {k : Nat} {w : Work} {e : Event} {world : World F} (h : s.Fits)
    (hj : s.jobs[k]? = some ⟨w, none⟩)
    (ho : Owing { s with resource := world, jobs := s.jobs.set k ⟨w, some e⟩ }) :
    Living.Fits { s with resource := world, jobs := s.jobs.set k ⟨w, some e⟩ } := by
  have hsame : requestsUnderWay (s.jobs.set k ⟨w, some e⟩) = requestsUnderWay s.jobs :=
    Workers.gather_set hj rfl
  exact ⟨ho, hsame.trans h.requests⟩

theorem fits_keeps (config : Configuration F) :
    shell.Keeps (World.perform config) (fun _ _ => True) Living.Fits := by
  have howes : shell.Keeps (World.perform config) (fun _ _ =>
      True) (shell.Owes Work.errand? TimedEvent.errand?) :=
    Workers.owes_keeps (shell_replies config) _
  constructor
  · intro s i h hi _
    have hn : i.event.isAnswer = false := by
      have hnone : i.event.errand? = none := unreported_errand hi
      rw [← Bool.not_eq_true, ← errand_request, hnone]
      simp
    refine ⟨howes.input s i h.owing hi trivial, take_requests ?_ ?_⟩
    · rw [hn]
      exact h.le.1
    · rw [hn]
      exact h.requests
  · intro s k w h hj
    exact fits_done h hj (howes.perform s k w h.owing hj)
  · intro s k w h hj
    exact fits_done h hj (howes.fail s k w h.owing hj)
  · intro s k w e at' h hj _
    -- a worker reports on its own errand
    have htold : e.errand? = w.errand? := h.owing.reports _ (List.mem_of_getElem? hj) e rfl at'
    suffices hboth : answers (core.run s.taken) + e.isAnswer.toNat ≤
      (sentRequests (core.run s.taken)).length ∧
        requestsUnderWay (s.jobs.eraseIdx k) =
          (sentRequests (core.run s.taken)).drop (answers (core.run s.taken) + e.isAnswer.toNat) by
      exact ⟨howes.complete s k w e at' h.owing hj trivial,
        @take_requests _ { s with jobs := s.jobs.eraseIdx k }
          { occurredAt := at', event := e } hboth.1 hboth.2⟩
    obtain ⟨hle, hone⟩ := h.le
    cases hw : w.request? with
    | none =>
      have hn : e.isAnswer = false := by
        rw [← Bool.not_eq_true, ← errand_request, htold, work_request, hw]
        exact Bool.false_ne_true
      have hsame : requestsUnderWay (s.jobs.eraseIdx k) = requestsUnderWay s.jobs :=
        Workers.gather_erase hj hw
      rw [hn, hsame]
      exact ⟨hle, h.requests⟩
    | some sent =>
      obtain ⟨hperm, -⟩ := Workers.gather_split (fun job : Workers.Job Work Event => job.work.request?) hj
      have ha : e.isAnswer = true := by
        rw [← errand_request, htold, work_request, hw]
        rfl
      have hlen := hperm.length_eq
      rw [hw] at hlen
      change (requestsUnderWay s.jobs).length =
        (([sent] : List _) ++ requestsUnderWay (s.jobs.eraseIdx k)).length at hlen
      rw [h.requests, List.length_drop, List.length_append, List.length_singleton] at hlen
      have hnone : requestsUnderWay (s.jobs.eraseIdx k) = [] := List.length_eq_zero_iff.mp (by omega)
      rw [ha, hnone]
      refine ⟨by simp only [Bool.toNat_true]; omega, ?_⟩
      rw [List.drop_of_length_le (by simp only [Bool.toNat_true]; omega)]
  · intro s h
    exact ⟨howes.restart s h.owing, rfl⟩

theorem Owing.count (h : Owing s) (errand : Errand) :
    (Workers.underWay Work.errand? s.jobs).count errand + (toldOf (core.run s.taken)).count errand =
      (askedOf (core.run s.taken)).count errand := by
  have hcount := h.balance.count_eq errand
  rw [List.count_append] at hcount
  unfold askedOf toldOf
  rw [Nat.add_comm]
  exact hcount.symm

theorem attempts_count (jobs : Jobs) :
    (attemptsUnderWay jobs).length = (Workers.underWay Work.errand? jobs).count .attempt := by
  unfold attemptsUnderWay Workers.underWay
  rw [List.length_filterMap_eq_countP, List.count_filterMap]
  refine congrArg (List.countP · jobs) (funext fun job => ?_)
  obtain ⟨work, report⟩ := job
  cases work with
  | store operation => cases operation <;> rfl
  | tunnel request => cases request <;> rfl
  | _ => rfl

theorem asks_count (i : Integration) (jobs : Jobs) {ask : Ask} (hi : ask.integration = i) :
    (asksUnderWay i jobs).count ask = (Workers.underWay Work.errand? jobs).count (.ask ask) := by
  unfold asksUnderWay Workers.underWay
  rw [List.count_filter (by simpa using hi), List.count_filterMap, List.count_filterMap]
  refine congrArg (List.countP · jobs) (funext fun job => ?_)
  unfold Work.ask?
  cases job.work.errand? with
  | none => rfl
  | some errand => cases errand <;> simp [Errand.ask?]

theorem Owing.asks (h : Owing s) (i : Integration) :
    (asksUnderWay i s.jobs).Perm (pending i (core.run s.taken)).asks := by
  refine List.perm_iff_count.mpr fun ask => ?_
  by_cases hi : ask.integration = i
  · subst hi
    have hcount := h.count (.ask ask)
    have hpending := @pending_count (core.run s.taken) h.once ask
    rw [asks_count _ _ rfl]
    omega
  · have hnone : ask ∉ asksUnderWay i s.jobs :=
      fun hmem => hi (of_decide_eq_true (List.mem_filter.mp hmem).2)
    have hexpects := (pending_expects s.taken h.answersOnce i).asks
    have hnone' : ask ∉ (pending i (core.run s.taken)).asks := by
      rw [hexpects, Option.mem_toList]
      exact fun hmem => hi (core_asks _ hmem)
    rw [List.count_eq_zero.mpr hnone, List.count_eq_zero.mpr hnone']

end

/-! ## Every run -/

/-- The core waits for MAM as workers are at requests to it and at saving an attempt. -/
def MannedMam (outstanding : Option Outstanding) (jobs : Jobs) : Prop :=
  match outstanding with
  | none => requestsUnderWay jobs = [] ∧ attemptsUnderWay jobs = []
  | some (.savingRegistration ..) => requestsUnderWay jobs = [] ∧ (attemptsUnderWay jobs).length = 1
  | some (.request request _ _) =>
    (∃ cookie, requestsUnderWay jobs = [(request, cookie)]) ∧ attemptsUnderWay jobs = []

/-- An enabled integration waits for its one worker, or for the timer last started. -/
def Manned (c : Core) (i : Integration) (jobs : Jobs) (timer : Option TimerId) : Prop :=
  (∃ ask, asksUnderWay i jobs = [ask] ∧ c.ask? i = some ask ∧ c.timer? i = none) ∨
    asksUnderWay i jobs = [] ∧ c.ask? i = none ∧ ∃ id, c.timer? i = some id ∧ timer = some id

section
variable {F : Type} {s : Living F}

theorem Living.Fits.mam (h : s.Fits) : MannedMam (coreNow s).mam.outstanding s.jobs := by
  have hslot := slotInv_run s.taken h.owing.answeredOnce
  have hattempts : (attemptsUnderWay s.jobs).length + saveResults (core.run s.taken) =
      (startedSaves (core.run s.taken)).length := by
    have hcount := h.owing.count .attempt
    rwa [(asked_counts _).2, (told_counts _).2, ← attempts_count] at hcount
  have hrequests := h.requests
  unfold SlotInv at hslot
  unfold MannedMam coreNow
  split
  · next hm =>
    rw [hm] at hslot
    rw [hrequests, List.drop_of_length_le (by omega)]
    exact ⟨rfl, List.length_eq_zero_iff.mp (by omega)⟩
  · next hm =>
    rw [hm] at hslot
    dsimp only at hslot
    rw [hrequests, List.drop_of_length_le (by omega)]
    exact ⟨rfl, by omega⟩
  · next request sent epoch hm =>
    rw [hm] at hslot
    obtain ⟨hq, hs, cookie, hlast⟩ := hslot
    refine ⟨⟨cookie, ?_⟩, List.length_eq_zero_iff.mp (by omega)⟩
    obtain ⟨earlier, hsent⟩ := List.getLast?_eq_some_iff.mp hlast
    rw [hrequests, hsent]
    rw [hsent, List.length_append, List.length_singleton] at hq
    exact List.drop_left' (by omega)

theorem core_settled (is : List TimedEvent) : (core.last is).qbittorrent.deciding = none ∧
    ∀ w, (core.last is).tunnel.watch = some w → (w.check = .switching ↔ w.failover.isSome) := by
  have hagrees := failoverLog_agrees is
  refine ⟨?_, fun w hw => (hagrees.watch hw).2.switching.symm⟩
  cases is using List.reverseRecOn with
  | nil => rfl
  | append_singleton js t =>
    rw [last_snoc]
    exact handle_settled (core.last js) t.event

theorem Owing.manned (h : Owing s) {i : Integration} (hi : (coreNow s).isEnabled i) :
    Manned (coreNow s) i s.jobs (pending i (core.run s.taken)).timer := by
  obtain ⟨hsettled, hswitching⟩ := core_settled s.taken
  have hexpects := pending_expects s.taken h.answersOnce i
  have hasks := h.asks i
  rw [hexpects.asks] at hasks
  rcases core_waits hsettled hswitching hi with ⟨ask, hask, htimer⟩ | ⟨hask, id, htimer⟩
  · rw [hask] at hasks
    exact .inl ⟨ask, List.perm_singleton.mp hasks, hask, htimer⟩
  · rw [hask] at hasks
    exact .inr ⟨hasks.eq_nil, hask, id, htimer, hexpects.timer id htimer⟩

end

/-- In every run of the whole program, in any order of its workers, with failures and
restarts: what the core waits for of MAM is what its one worker is at, and an enabled
integration waits for its one worker, or has none and waits for the timer last started. -/
theorem waits_manned {F : Type} (config : Configuration F) (world : World F) (acts : List Happening) :
    MannedMam (coreNow ((living config world).last acts)).mam.outstanding
    ((living config world).last acts).jobs ∧
      ∀ i, (coreNow ((living config world).last acts)).isEnabled i →
        Manned (coreNow ((living config world).last acts)) i ((living config world).last acts).jobs
          (pending i (core.run ((living config world).last acts).taken)).timer := by
  have hstart : Living.Fits ({ taken := [], resource := world, jobs := [] } : Living F) :=
    ⟨Workers.owes_new { taken := [], resource := world, jobs := [] }, rfl⟩
  have hfits : ((living config world).last acts).Fits :=
    Workers.crew_invariant (fits_keeps config) hstart acts fun _ _ => trivial
  exact ⟨hfits.mam, fun i hi => hfits.owing.manned hi⟩

end Windlass
