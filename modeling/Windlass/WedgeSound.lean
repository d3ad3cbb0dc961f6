import Windlass.RetrySound

/-!
# One wedge for one torrent

A wedge may have been spent although the download failed, so a second one is
spent only after MAM's bonus history had the time to show the first. The history
is dated by the arrival of its answer, not by the sending of its request; the
invariant `WedgeInv` carries both.
-/

namespace Windlass

def Sends (e : Reactive.Entry Core TimedEvent Action) (request : MamRequest) : Prop :=
  ∃ cookie, .mamRequest request cookie ∈ e.out

/-- The step reads the bonus history, asked for at the given time. -/
def ReadsHistory (e : Reactive.Entry Core TimedEvent Action) (sent : Instant)
    (spent : List WedgeSpent) : Prop :=
  e.before.mam.accepted e.input.event = some (.wedgeHistory, .ok (.wedgeHistory spent)) ∧
    ∃ epoch, e.before.mam.outstanding = some (.request .wedgeHistory sent epoch)

/-- Whether a history this step reads, if late enough to show a wedge, was also
asked for only once MAM had recorded it. -/
def historyAskedInTime (e : Reactive.Entry Core TimedEvent Action) : Bool :=
  match e.before.mam.accepted e.input.event, e.before.mam.outstanding with
  | some (.wedgeHistory, .ok (.wedgeHistory _)), some (.request _ sent _) =>
    e.before.mam.acquisition.wedgeAttempts.toList.all fun attempt =>
      decide (e.input.occurredAt.monotonic < attempt.2 + wedgeRecordedAfter) ||
        decide (attempt.2 + wedgeRecordedAfter ≤ sent)
  | _, _ => true

theorem asked_in_time {e : Reactive.Entry Core TimedEvent Action} (h : historyAskedInTime e)
    {sent : Instant}
    {spent : List WedgeSpent} (hr : ReadsHistory e sent spent) {id : MamTorrentId} {attempt : Instant}
    (ha : e.before.mam.acquisition.wedgeAttempts[id]? = some attempt)
    (hle : attempt + wedgeRecordedAfter ≤ e.input.occurredAt.monotonic) :
    attempt + wedgeRecordedAfter ≤ sent := by
  obtain ⟨hacc, epoch, hout⟩ := hr
  unfold historyAskedInTime at h
  rw [hacc, hout] at h
  have hmem := Std.ExtTreeMap.mem_toList_iff_getElem?_eq_some.mpr ha
  obtain hlt | hs := Bool.or_eq_true_iff.mp (List.all_eq_true.mp h _ hmem)
  · exact absurd hle (not_le.mpr (of_decide_eq_true hlt))
  · exact of_decide_eq_true hs

/-! ## Attempts -/

section
variable {c : Core} {now : ClockReading} {event : Event}

theorem attempts_step (c : Core) (now : ClockReading) (event : Event) :
    (∃ id cookie, requests (c.handle now event).2 = [(.fetchTorrent id .spend, cookie)] ∧
      (c.handle now event).1.mam.acquisition.wedgeAttempts =
        c.mam.acquisition.wedgeAttempts.insert id now.monotonic) ∨
    ((∀ id cookie, .mamRequest (.fetchTorrent id .spend) cookie ∉ (c.handle now event).2) ∧
      (c.handle now event).1.mam.acquisition.wedgeAttempts = c.mam.acquisition.wedgeAttempts) := by
  have hp : (c.prepared now event).acquisition.wedgeAttempts = c.mam.acquisition.wedgeAttempts := by
    rw [prepared_acquisition, surveyed_acquisition]
    exact (received_receives c now event).wedgeAttempts
  have hh : (c.handle now event).1.mam.acquisition.wedgeAttempts =
      (c.sending now event).1.acquisition.wedgeAttempts := by
    obtain ⟨wake, h⟩ := handle_mam c now event
    rw [h]
  have hdispatch : ∀ id cookie, (MamRequest.fetchTorrent id .spend, cookie) ∉
      requests ((c.note event).dispatch now event).2 := by
    intro id cookie
    rw [dispatch_requests]
    unfold Mam.sentAtOnce
    split
    · split <;> simp
    · simp
  have hquiet
    (h : ∀ id cookie, (MamRequest.fetchTorrent id .spend, cookie) ∉ requests (c.sending now event).2) :
      ∀ id cookie, .mamRequest (.fetchTorrent id .spend) cookie ∉ (c.handle now event).2 := by
    intro id cookie
    rw [← mem_requests, handle_requests, List.mem_append, not_or]
    exact ⟨hdispatch id cookie, h id cookie⟩
  obtain hq | ⟨-, hnone, ⟨k, budget, -, -, hq⟩ | ⟨r, budget, -, hq⟩⟩ :=
    send_cases (c.prepared now event) now (c.received now event).context (c.planned now event)
  · have hq' : c.sending now event = _ := hq
    rw [hh, hq']
    exact .inr ⟨hquiet (by rw [hq']; simp), hp⟩
  · have hq' : c.sending now event = _ := hq
    rw [hh, hq']
    exact .inr ⟨hquiet (by rw [hq']; simp [requests, Action.request?]), hp⟩
  · have hq' : c.sending now event = _ := hq
    have hr : requests (c.sending now event).2 =
        [(r, (c.planned now event).cookie.filter fun _ => r.needsCookie)] := by
      rw [hq']
      rfl
    have hother (hne : ∀ id, r ≠ .fetchTorrent id .spend)
        (hsame : ((c.prepared now event).recordSent now r
          (c.received now event).context.registry).acquisition.wedgeAttempts =
          (c.prepared now event).acquisition.wedgeAttempts) :
        (∀ id cookie, .mamRequest (.fetchTorrent id .spend) cookie ∉ (c.handle now event).2) ∧
          (c.handle now event).1.mam.acquisition.wedgeAttempts = c.mam.acquisition.wedgeAttempts := by
      refine ⟨hquiet fun id cookie hmem => ?_, ?_⟩
      · rw [hr, List.mem_singleton] at hmem
        exact hne id (Prod.mk.inj hmem).1.symm
      · rw [hh, hq', ← hp, ← hsame]
    -- of all requests only a fetch that spends a wedge is put on record
    cases r with
    | fetchTorrent id wedge =>
      cases wedge with
      | spend =>
        refine .inl ⟨id, (c.planned now event).cookie.filter fun _ =>
          (MamRequest.fetchTorrent id .spend).needsCookie, ?_, ?_⟩
        · rw [handle_requests, hr, dispatch_requests, sentAtOnce_empty now event]
          · rfl
          · rw [← received_outstanding, ← prepared_outstanding]
            exact hnone
        · rw [hh, hq', ← hp]
          rfl
      | keep => exact .inr (hother (by simp) rfl)
    | _ => exact .inr (hother (by simp) rfl)

/-- No spend is decided on for a torrent whose earlier attempt is on record,
unless a history old enough does not show it. -/
theorem spend_cases {id : MamTorrentId} {cookie : Option ApiCookie} {attempt : Instant}
    (h : .mamRequest (.fetchTorrent id .spend) cookie ∈ (c.handle now event).2)
    (ha : c.mam.acquisition.wedgeAttempts[id]? = some attempt)
    (hlatest : attempt + wedgeRecordedAfter ≤ Instant.latest) :
    ∃ history, (c.received now event).mam.acquisition.history = some history ∧
      attempt + wedgeRecordedAfter ≤ history.at' ∧ history.wedged.contains id = false := by
  have hrec : (c.surveyed now event).acquisition.wedgeRecorded id =
      some (attempt + wedgeRecordedAfter) := by
    unfold Acquisition.wedgeRecorded
    rw [surveyed_acquisition]
    dsimp only
    rw [(received_receives c now event).wedgeAttempts, ha, Option.bind_some]
    exact Instant.checkedAdd_eq_some.mpr ⟨hlatest, rfl⟩
  obtain ⟨-, hr, -⟩ | ⟨-, -, hw, -⟩ := request_cases h
  · cases hr
  · obtain ⟨hr, -⟩ | ⟨_, hr, -⟩ | ⟨_, hr, -⟩ | ⟨_, _, hr, -⟩ | hd | ⟨records, -, hd⟩ := decision_cases hw
    · cases hr
    · cases hr
    · cases hr
    · cases hr
    · -- the watch never calls a download with an attempt on record simply not free
      obtain ⟨download, watch, hmem, ⟨hr, -⟩ | ⟨hr, -⟩ | ⟨hr, hwatch⟩⟩ := watchNext_cases hd
      · cases hr
      · cases hr
      · cases hr
        have hnot := (surveyed_watched hmem).1
        rw [hwatch] at hnot
        unfold Acquisition.watch at hnot
        rw [hrec] at hnot
        split at hnot
        · cases hnot
        · dsimp only at hnot
          split at hnot <;> cases hnot
    · obtain ⟨bookmark, data, -, -, hadmit⟩ := next_cases hd
      obtain ⟨hr, -⟩ | ⟨history, hs, ⟨hr, -⟩ | ⟨hr, hc⟩⟩ | ⟨hr, -⟩ | ⟨hr, -⟩ := admit_cases hadmit
      · cases hr
      · cases hr
      · cases hr
        obtain ⟨hh, hcond⟩ := Option.filter_eq_some_iff.mp hs
        refine ⟨history, ?_, ?_, hc⟩
        · rw [surveyed_acquisition] at hh
          exact hh
        · rw [Bool.and_eq_true, hrec, Option.all_some] at hcond
          exact of_decide_eq_true hcond.2
      · cases hr
      · cases hr

end

/-! ## The history behind a spend -/

/-- Where a history comes from: the step that read it, the earlier step that
asked for it, and that the latter came after every attempt the history is late
enough to show. -/
def HistoryFrom (tr : List (Reactive.Entry Core TimedEvent Action))
    (attempts : Std.ExtTreeMap MamTorrentId Instant) (history : WedgeHistory) : Prop :=
  ∃ pre g post h spent, tr = pre ++ g :: post ∧ h ∈ pre ∧ Sends h .wedgeHistory ∧
    ReadsHistory g h.input.occurredAt.monotonic spent ∧
    history = { wedged := Std.ExtTreeSet.ofList (spent.map (·.torrent)),
                at' := g.input.occurredAt.monotonic } ∧
    ∀ (id : MamTorrentId) (attempt : Instant), attempts[id]? = some attempt →
      attempt + wedgeRecordedAfter ≤ history.at' →
      attempt + wedgeRecordedAfter ≤ h.input.occurredAt.monotonic

structure WedgeInv (tr : List (Reactive.Entry Core TimedEvent Action)) (c : Core) : Prop where
  spent : ∀ e ∈ tr, ∀ id, Sends e (.fetchTorrent id .spend) → ∃ attempt : Instant,
    c.mam.acquisition.wedgeAttempts[id]? = some attempt ∧ e.input.occurredAt.monotonic ≤ attempt
  attempted : ∀ (id : MamTorrentId) (attempt : Instant),
    c.mam.acquisition.wedgeAttempts[id]? = some attempt →
    ∃ e ∈ tr, e.input.occurredAt.monotonic = attempt
  history : ∀ history, c.mam.acquisition.history = some history →
    HistoryFrom tr c.mam.acquisition.wedgeAttempts history
  outstanding : ∀ request sent epoch, c.mam.outstanding = some (.request request sent epoch) →
    ∃ e ∈ tr, Sends e request ∧ e.input.occurredAt.monotonic = sent

/-- The clock never goes back, is not about to end, and histories are asked for in
time. -/
structure WedgeRun (tr : List (Reactive.Entry Core TimedEvent Action)) : Prop where
  steady : Steady tr
  latest : ∀ e ∈ tr, e.input.occurredAt.monotonic + wedgeRecordedAfter ≤ Instant.latest
  asked : ∀ e ∈ tr, historyAskedInTime e

theorem WedgeRun.left {tr tr' : List (Reactive.Entry Core TimedEvent Action)} (h : WedgeRun (tr ++ tr')) :
    WedgeRun tr where
  steady := (List.pairwise_append.mp h.steady).1
  latest := fun e he => h.latest e (List.mem_append_left _ he)
  asked := fun e he => h.asked e (List.mem_append_left _ he)

theorem HistoryFrom.snoc {tr : List (Reactive.Entry Core TimedEvent Action)}
    {attempts : Std.ExtTreeMap MamTorrentId Instant} {history : WedgeHistory}
    (h : HistoryFrom tr attempts history)
    (e : Reactive.Entry Core TimedEvent Action) : HistoryFrom (tr ++ [e]) attempts history := by
  obtain ⟨pre, g, post, h, spent, rfl, hrest⟩ := h
  exact ⟨pre, g, post ++ [e], h, spent, by simp, hrest⟩

section
variable {tr : List (Reactive.Entry Core TimedEvent Action)} {c : Core} {i : TimedEvent}

theorem received_history (hi : WedgeInv tr c) (hH : WedgeRun (tr ++ [core.entry c i]))
    {history : WedgeHistory}
    (h : (c.received i.occurredAt i.event).mam.acquisition.history = some history) :
    HistoryFrom (tr ++ [core.entry c i]) c.mam.acquisition.wedgeAttempts history := by
  rw [(received_receives c i.occurredAt i.event).history] at h
  unfold wedgesAnswered at h
  split at h
  · next spent ha =>
    obtain ⟨sent, epoch, rotated, ho, -⟩ := accepted_outstanding ha
    obtain ⟨e, he, hsends, rfl⟩ := hi.outstanding _ _ _ ho
    cases h
    refine ⟨tr, core.entry c i, [], e, spent, rfl, he, hsends, ⟨ha, epoch, ho⟩, rfl, ?_⟩
    intro id attempt hatt hle
    exact asked_in_time (hH.asked (core.entry c i) (by simp)) ⟨ha, epoch, ho⟩ hatt hle
  · exact (hi.history history h).snoc _

theorem wedgeInv_step (hi : WedgeInv tr c) (hH : WedgeRun (tr ++ [core.entry c i])) :
    WedgeInv (tr ++ [core.entry c i]) (core.step c i).1 := by
  have hnow : ∀ e ∈ tr, e.input.occurredAt.monotonic ≤ i.occurredAt.monotonic :=
    fun e he => (List.pairwise_append.mp hH.steady).2.2 e he _ (List.mem_singleton_self _)
  have hhist : (core.step c i).1.mam.acquisition.history =
      (c.received i.occurredAt i.event).mam.acquisition.history := by
    rw [core_step, handle_acquisition]
  have hout : ∀ request sent epoch,
    (core.step c i).1.mam.outstanding = some (.request request sent epoch) →
      ∃ e ∈ tr ++ [core.entry c i], Sends e request ∧ e.input.occurredAt.monotonic = sent := by
    intro request sent epoch h
    obtain h | ⟨rfl, hs⟩ := outstanding_step h
    · obtain ⟨e, he, hse⟩ := hi.outstanding request sent epoch h
      exact ⟨e, List.mem_append_left _ he, hse⟩
    · exact ⟨core.entry c i, by simp, hs, rfl⟩
  -- a wedge is asked for in this step, or the attempts are those there were
  obtain ⟨id, cookie, hreq, hatt⟩ | ⟨hno, hatt⟩ := attempts_step c i.occurredAt i.event
  · have hatt' : (core.step c i).1.mam.acquisition.wedgeAttempts =
        c.mam.acquisition.wedgeAttempts.insert id i.occurredAt.monotonic := hatt
    refine ⟨?_, ?_, ?_, hout⟩
    · intro e he id' hs
      rw [hatt', Std.ExtTreeMap.getElem?_insert]
      rw [List.mem_append, List.mem_singleton] at he
      by_cases hid : id = id'
      · refine ⟨i.occurredAt.monotonic, by simp [hid], ?_⟩
        obtain he | rfl := he
        · exact hnow e he
        · exact le_rfl
      · obtain he | rfl := he
        · obtain ⟨attempt, ha, hle⟩ := hi.spent e he id' hs
          exact ⟨attempt, by simpa [hid] using ha, hle⟩
        · obtain ⟨cookie', hmem⟩ := hs
          rw [entry_out, ← mem_requests, hreq, List.mem_singleton] at hmem
          cases hmem
          exact absurd rfl hid
    · intro id' attempt ha
      rw [hatt', Std.ExtTreeMap.getElem?_insert] at ha
      split at ha
      · cases ha
        exact ⟨core.entry c i, by simp, rfl⟩
      · obtain ⟨e, he, hea⟩ := hi.attempted id' attempt ha
        exact ⟨e, List.mem_append_left _ he, hea⟩
    · intro history hh
      rw [hhist] at hh
      obtain ⟨pre, g, post, h, spent, htr, hpre, hsend, hread, rfl, hall⟩ := received_history hi hH hh
      refine ⟨pre, g, post, h, spent, htr, hpre, hsend, hread, rfl, ?_⟩
      intro id' attempt ha hle
      rw [hatt', Std.ExtTreeMap.getElem?_insert] at ha
      split at ha
      · cases ha
        have hg : g.input.occurredAt.monotonic ≤ i.occurredAt.monotonic := by
          have hmem : g ∈ tr ++ [core.entry c i] := by rw [htr]; simp
          rw [List.mem_append, List.mem_singleton] at hmem
          obtain hmem | rfl := hmem
          · exact hnow g hmem
          · exact le_rfl
        exact absurd (hle.trans hg) (not_le.mpr (Nat.lt_add_of_pos_right (by decide)))
      · exact hall id' attempt ha hle
  · have hatt' : (core.step c i).1.mam.acquisition.wedgeAttempts = c.mam.acquisition.wedgeAttempts := hatt
    refine ⟨?_, ?_, ?_, hout⟩
    · intro e he id' hs
      rw [hatt']
      rw [List.mem_append, List.mem_singleton] at he
      obtain he | rfl := he
      · exact hi.spent e he id' hs
      · obtain ⟨cookie', hmem⟩ := hs
        exact absurd hmem (hno id' cookie')
    · intro id' attempt ha
      rw [hatt'] at ha
      obtain ⟨e, he, hea⟩ := hi.attempted id' attempt ha
      exact ⟨e, List.mem_append_left _ he, hea⟩
    · intro history hh
      rw [hhist] at hh
      rw [hatt']
      exact received_history hi hH hh

end

theorem wedgeInv_init : WedgeInv [] Core.new where
  spent := by intro e he; cases he
  attempted := by
    intro id attempt h
    simp [Core.new, Mam.new, Acquisition.new] at h
  history := by intro history h; cases h
  outstanding := by intro request sent epoch h; cases h

theorem wedgeInv_run (is : List TimedEvent) (h : WedgeRun (core.run is)) :
    WedgeInv (core.run is) (core.last is) :=
  Reactive.run_invariant core (fun _ _ h => h.left) wedgeInv_init (fun _ _ _ hi hH =>
    wedgeInv_step hi hH) is h

/-- Between two spends on one torrent, a history asked for a minute after the first
was read, and it did not show the wedge. -/
theorem wedges_spent_once {is : List TimedEvent} (hH : WedgeRun (core.run is))
    {pre mid post : List (Reactive.Entry Core TimedEvent Action)}
    {e f : Reactive.Entry Core TimedEvent Action}
    (hrun : core.run is = pre ++ e :: (mid ++ f :: post)) {id : MamTorrentId}
    (he : Sends e (.fetchTorrent id .spend)) (hf : Sends f (.fetchTorrent id .spend)) :
    ∃ h ∈ mid, ∃ g ∈ mid ++ [f], ∃ spent, Sends h .wedgeHistory ∧
      ReadsHistory g h.input.occurredAt.monotonic spent ∧ id ∉ spent.map (·.torrent) ∧
      e.input.occurredAt.monotonic + wedgeRecordedAfter ≤ h.input.occurredAt.monotonic := by
  have hsplit : core.run is = (pre ++ e :: mid) ++ f :: post := by rw [hrun]; simp
  obtain ⟨js, i, ks, -, hpre, rfl, -⟩ := Reactive.run_split core hsplit
  have hH' : WedgeRun (core.run js ++ [core.entry (core.last js) i]) := by
    rw [hsplit, hpre] at hH
    have hall : WedgeRun ((core.run js ++ [core.entry (core.last js) i]) ++ post) := by simpa using hH
    exact hall.left
  have hi := wedgeInv_run js hH'.left
  obtain ⟨cookie, hf⟩ := hf
  obtain ⟨attempt, hatt, hle⟩ := hi.spent e (by rw [← hpre]; simp) id he
  obtain ⟨a, ha, rfl⟩ := hi.attempted id attempt hatt
  obtain ⟨history, hh, hrec, hnot⟩ := spend_cases hf hatt (hH'.latest a (List.mem_append_left _ ha))
  obtain ⟨pre', g, post', h, spent, htr, hpre', hsend, hread, rfl, hall⟩ := received_history hi hH' hh
  have hsent := hall id _ hatt hrec
  have hlater : e.input.occurredAt.monotonic + wedgeRecordedAfter ≤ h.input.occurredAt.monotonic :=
    (Nat.add_le_add_right hle _).trans hsent
  have hlt {t : Instant} (ht : e.input.occurredAt.monotonic + wedgeRecordedAfter ≤ t) :
      e.input.occurredAt.monotonic < t :=
    lt_of_lt_of_le (Nat.lt_add_of_pos_right (by decide)) ht
  have htr' : pre ++ e :: (mid ++ [core.entry (core.last js) i]) = pre' ++ g :: post' := by
    rw [← htr, ← hpre]
    simp
  have hbefore : h ∈ pre ++ e :: mid := by
    have hd : (pre' ++ g :: post').dropLast = pre ++ e :: mid := by
      rw [← htr', ← List.cons_append, ← List.append_assoc, List.dropLast_concat]
    rw [← hd, List.dropLast_append_of_ne_nil (List.cons_ne_nil _ _)]
    exact List.mem_append_left _ hpre'
  refine ⟨h, ?_, g, ?_, spent, hsend, hread, ?_, hlater⟩
  · exact Steady.after (hpre ▸ hH'.left.steady) hbefore (hlt hlater)
  · have hsteady : Steady (pre ++ e :: (mid ++ [core.entry (core.last js) i])) := by
      rw [htr', ← htr]
      exact hH'.steady
    exact hsteady.after (by rw [htr']; simp) (hlt ((Nat.add_le_add_right hle _).trans hrec))
  · intro hmem
    rw [Std.ExtTreeSet.contains_ofList] at hnot
    simp [hmem] at hnot

def listing (id : Nat) (freeleech : Freeleech) : Bookmark :=
  { id := id.toPNat'
    title := "listed"
    vip := .no
    freeleech := freeleech
    personal := .no
    snatched := .never
    bookmarkedAt := none }

def accountData : UserData :=
  { uploaded := 100000
    downloaded := 1000
    points := 0
    wedges := 2
    class' := .user
    vipUntil := none
    summary := some
      { unsatisfied := 0
        unsatisfiedLimit := 50
        unsatisfiedNotSeeding := 0
        hitAndRunNotSeeding := 0
        partials := .notSeen
        duplicates := 0
        trackerErrors := 0
        connectable := .yes
        red := [] }
    notices := none
    clients := some [] }

def replyAt (seconds : Nat) (reply : MamReply) : TimedEvent :=
  .after seconds (.mam (.answered (.ok reply) none))

def failureAt (seconds : Nat) (failure : MamFailure) : TimedEvent :=
  .after seconds (.mam (.answered (.error failure) none))

def admittingEvents (rows : List TorrentRecord) : List TimedEvent :=
  -- Windlass starts with these rows and an empty qBittorrent, registers its seedbox and reads
  -- the account
  startedEvents.take 5 ++ [.after 0 (.registry (.read rows))] ++ (startedEvents.drop 5).take 3 ++
    [.after 0 (.qbittorrent .enable),
      .after 0 (.qbittorrent (.connected (.release { major := 5, minor := 2, patch := 0 })
        { listenPort := none, interface := none, queue := none })),
      .after 0 (.qbittorrent (.synced
        { position := 1, scope := .full, torrents := [], removed := [] }))] ++
    startedEvents.drop 8 ++
    [.after 62 (.mam .registrationAttemptSaved), replyAt 63 (.registered .completed (.v4 1)),
      replyAt 64 (.userData accountData)]

def wedgeWantedEvents : List TimedEvent :=
  -- a bookmarked torrent that is not free waits for a wedge
  admittingEvents [] ++ [replyAt 65 (.bookmarks { found := 1, bookmarks := [listing 5 .no] })]

theorem wedge_spent_after_history : ∃ h g spent, Sends h .wedgeHistory ∧
    ReadsHistory g h.input.occurredAt.monotonic spent ∧ 5 ∉ spent.map (·.torrent) ∧
    (replyAt 66 (.wedgeHistory [])).occurredAt.monotonic + wedgeRecordedAfter ≤
    h.input.occurredAt.monotonic := by
  have hrun := Reactive.run_stretch core wedgeWantedEvents
    [failureAt 67 .unreachable, wakeAt 126,
      replyAt 127 (.userData accountData)] (replyAt 66 (.wedgeHistory []))
    (replyAt 128 (.wedgeHistory []))
  have hH : WedgeRun (core.run (wedgeWantedEvents ++ replyAt 66 (.wedgeHistory []) ::
      ([failureAt 67 .unreachable, wakeAt 126, replyAt 127 (.userData accountData)] ++
        [replyAt 128 (.wedgeHistory [])]))) := by
    refine ⟨steady_iff.mpr (by decide +kernel), ?_, by decide +kernel⟩
    exact (Reactive.forall_mem_run core (P := fun i =>
      i.occurredAt.monotonic + wedgeRecordedAfter ≤ Instant.latest)).mpr (by decide +kernel)
  have he : Sends (core.entry (core.last wedgeWantedEvents) (replyAt 66 (.wedgeHistory [])))
      (.fetchTorrent 5 .spend) :=
    ⟨some savedCookie, by decide +kernel⟩
  obtain ⟨h, -, g, -, spent, hs, hr, hn, hle⟩ := wedges_spent_once hH hrun he
    ⟨some savedCookie, by decide +kernel⟩
  exact ⟨h, g, spent, hs, hr, hn, hle⟩

def spentEvents : List TimedEvent :=
  -- a download that was free stops being free just after a wedge was spent on another, and the
  -- history read for the one settles the other too early
  admittingEvents [someRow] ++
    [replyAt 65 (.bookmarks { found := 0, bookmarks := [] }),
      replyAt 66 (.torrent (some (listing 7 .forEveryone))),
      wakeAt 1210, replyAt 1210 (.ip { ip := .v4 1, asn := 1, provider := none }),
      replyAt 1211 (.userData accountData),
      replyAt 1212 (.bookmarks { found := 1, bookmarks := [listing 5 .no] })]

theorem wedge_spent_too_early :
    ∃ pre e mid f post, core.run (spentEvents ++ replyAt 1213 (.wedgeHistory []) ::
        ([failureAt 1215 .unreachable, wakeAt 1267, replyAt 1268 (.torrent none),
          replyAt 1274 (.wedgeHistory [])] ++
          [replyAt 1275 (.userData accountData)])) = pre ++ e :: (mid ++ f :: post) ∧
      Sends e (.fetchTorrent 5 .spend) ∧ Sends f (.fetchTorrent 5 .spend) ∧
      ¬ ∃ h ∈ mid, ∃ g ∈ mid ++ [f], ∃ spent, Sends h .wedgeHistory ∧
        ReadsHistory g h.input.occurredAt.monotonic spent ∧ 5 ∉ spent.map (·.torrent) ∧
        e.input.occurredAt.monotonic + wedgeRecordedAfter ≤ h.input.occurredAt.monotonic := by
  refine ⟨_, _, _, _, [], Reactive.run_stretch core spentEvents
    [failureAt 1215 .unreachable, wakeAt 1267, replyAt 1268 (.torrent none),
      replyAt 1274 (.wedgeHistory [])]
    (replyAt 1213 (.wedgeHistory [])) (replyAt 1275 (.userData accountData)),
    ⟨some savedCookie, by decide +kernel⟩,
    ⟨some savedCookie, by decide +kernel⟩, ?_⟩
  rintro ⟨h, hh, -, -, -, ⟨cookie, hs⟩, -, -, hle⟩
  have hall : ∀ h ∈ core.trace (core.step (core.last spentEvents) (replyAt 1213 (.wedgeHistory []))).1
      [failureAt 1215 .unreachable, wakeAt 1267, replyAt 1268 (.torrent none),
        replyAt 1274 (.wedgeHistory [])],
      (replyAt 1213 (.wedgeHistory [])).occurredAt.monotonic + wedgeRecordedAfter ≤
        h.input.occurredAt.monotonic → .wedgeHistory ∉ (requests h.out).map (·.1) := by decide +kernel
  exact hall h hh hle (List.mem_map.mpr ⟨_, mem_requests.mpr hs, rfl⟩)

end Windlass
