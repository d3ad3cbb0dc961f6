import Windlass.PurchaseSound

/-!
# Requests for torrent files

Two deciders fetch torrents: admission, for a queued row, and the watch over
running downloads, which spends a wedge on one that stopped being free. Only the
first minds that MAM refused a download, and only the first asks for a reading
of its own.
-/

namespace Windlass

/-! ## What each decider requires -/

section
variable {a : Acquisition} {account : Account} {now : Instant} {id : MamTorrentId} {wedge : Wedge}

theorem fetch_of_request {next : Next} (h : acquisitionRequest next = some (.fetchTorrent id wedge)) :
    next = .fetch id wedge := by
  unfold acquisitionRequest at h
  split at h <;> cases h
  rfl

theorem watchOne_fetch {download : Download} {watch : DownloadWatch}
    (h : a.watchOne account now download watch = .fetch id wedge) :
    id = download.mam ∧ wedge = .spend ∧ watch = .notFree .complete .listed ∧
    download.completion = .incomplete ∧
      ∃ data, account.fresh now none = some data ∧ data.wedges ≠ 0 := by
  unfold Acquisition.watchOne at h
  split at h
  · split at h <;> cases h
  · split at h <;> cases h
  · split at h
    · next hc =>
      split at h
      · next data hdata =>
        split at h
        · next hw =>
          cases h
          exact ⟨rfl, rfl, rfl, hc, data, hdata, hw⟩
        · cases h
      · cases h
    · cases h
  · cases h

theorem watchNext_fetch (h : a.watchNext account now = .fetch id wedge) :
    ∃ download watch, (download, watch) ∈ a.watched ∧
    a.watchOne account now download watch = .fetch id wedge := by
  unfold Acquisition.watchNext at h
  generalize hfind : List.find? _ _ = found at h
  cases found with
  | none => cases h
  | some next =>
    obtain rfl : next = .fetch id wedge := h
    obtain ⟨⟨download, watch⟩, hmem, heq⟩ := List.mem_map.mp (List.mem_of_find?_eq_some hfind)
    exact ⟨download, watch, hmem, heq⟩

theorem fresh_cases {since : Option Instant} {data : UserData} (h : account.fresh now since = some data) :
    ∃ reading, account.reading = some reading ∧ now.durationSince reading.taken ≤ accountFreshFor ∧
      (∀ s, since = some s → s < reading.taken) ∧ reading.data = data := by
  unfold Account.fresh at h
  simp only [Option.map_eq_some_iff, Option.filter_eq_some_iff, Bool.and_eq_true, decide_eq_true_eq] at h
  obtain ⟨reading, ⟨hreading, hage, hsince⟩, hdata⟩ := h
  refine ⟨reading, hreading, hage, ?_, hdata⟩
  rintro s rfl
  simpa using hsince

theorem ask_not_fetch {allowed : Bool} {next : Next} (h : ask allowed next = .fetch id wedge) :
    next = .fetch id wedge := by
  unfold ask at h
  split at h
  · exact h
  · cases h

theorem admit_fetch {facts : Facts} {data : UserData} {id' : MamTorrentId}
    (h : Acquisition.admit a facts data id' = .fetch id wedge) :
    id = id' := by
  unfold Acquisition.admit at h
  split at h
  · split at h
    · cases h
      rfl
    · split at h
      · cases ask_not_fetch h
      · split at h
        · cases h
          rfl
        · split at h
          · cases h
          · cases h
            rfl
  · cases ask_not_fetch h

/-- The torrent's listing, looked at lately, is not free for the owner, the bonus
history shows no wedge for it, and the reading shows one to spend. -/
def Acquisition.NeedsWedge (a : Acquisition) (facts : Facts) (data : UserData) (id : MamTorrentId) :
    Prop :=
  (∃ listing seen, a.current id facts.now lookupFreshFor = some (some listing, seen) ∧
    freeForOwner listing data facts.wall = false) ∧
  (∃ history, a.historySettles id facts.now = some history ∧ id ∉ history.wedged) ∧
  data.wedges ≠ 0

theorem needsWedge_of_admit {facts : Facts} {data : UserData}
    (h : Acquisition.admit a facts data id = .fetch id .spend) : a.NeedsWedge facts data id := by
  unfold Acquisition.admit at h
  -- free for the owner, an unsettled history or a wedge there keep admission from spending one
  split at h
  · next listing seen hcurrent =>
    by_cases hfree : freeForOwner listing data facts.wall
    · rw [if_pos hfree] at h
      cases h
    · rw [if_neg hfree] at h
      split at h
      · cases ask_not_fetch h
      · next history hsettles =>
        by_cases hwedged : history.wedged.contains id
        · rw [if_pos hwedged] at h
          cases h
        · rw [if_neg hwedged] at h
          refine ⟨⟨listing, seen, hcurrent, ?_⟩, ⟨history, hsettles, ?_⟩, ?_⟩
          · simpa using hfree
          · simpa using hwedged
          · intro hnone
            rw [if_pos hnone] at h
            cases h
  · cases ask_not_fetch h

structure Acquisition.Admits (a : Acquisition) (queued : List MamTorrentId) (facts : Facts)
    (id : MamTorrentId)
    (wedge : Wedge) (bookmark : Bookmark) (data : UserData) : Prop where
  candidate : a.candidate queued = some bookmark
  bookmark : bookmark.id = id
  obstacle : a.obstacle facts = none
  fresh : facts.account.fresh facts.now a.lastAdmission = some data
  account : accountObstacle facts data = none
  admitted : Acquisition.admit a facts data id = .fetch id wedge

theorem next_fetch {queued : List MamTorrentId} {facts : Facts}
    (h : a.next queued facts = .fetch id wedge) :
    ∃ bookmark data, a.Admits queued facts id wedge bookmark data := by
  unfold Acquisition.next at h
  -- the source's order: candidate, obstacles, a reading of its own, what the account admits
  split at h
  · split at h <;> cases h
  · next bookmark hcand =>
    split at h
    · cases h
    · next hobst =>
      split at h
      · cases h
      · next data hfresh =>
        split at h
        · cases h
        · next hacc =>
          have hid := admit_fetch h
          subst hid
          exact ⟨bookmark, data, hcand, rfl, hobst, hfresh, hacc, h⟩

end

section
variable {c : Core} {now : ClockReading} {event : Event}

/-- A running download stopped being free, and a fresh reading shows a wedge for
it. -/
def Core.WedgeDue (c : Core) (now : ClockReading) (event : Event) (id : MamTorrentId) : Prop :=
  ∃ download data, (download, .notFree .complete .listed) ∈ (c.surveyed now event).acquisition.watched ∧
    download.mam = id ∧ download.completion = .incomplete ∧
    (c.received now event).mam.account.fresh now.monotonic none = some data ∧ data.wedges ≠ 0

def Core.QueuedWedgeDue (c : Core) (now : ClockReading) (event : Event) (id : MamTorrentId) : Prop :=
  ∃ records bookmark data, (c.received now event).registry = .loaded records ∧
    (c.surveyed now event).acquisition.candidate records.queued = some bookmark ∧ bookmark.id = id ∧
    (c.surveyed now event).acquisition.obstacle (c.admissionFacts now event) = none ∧
    (c.received now event).mam.account.fresh now.monotonic
    (c.surveyed now event).acquisition.lastAdmission =
      some data ∧
    accountObstacle (c.admissionFacts now event) data = none ∧
    (c.surveyed now event).acquisition.NeedsWedge (c.admissionFacts now event) data id

def Core.FreeToAsk (c : Core) (now : ClockReading) (event : Event) : Prop :=
  (c.received now event).mam.gateFor (c.received now event).context = .open' ∧
  c.mam.slotAfter now event = none

theorem surveyed_fresh (since : Option Instant) :
    (c.surveyed now event).account.fresh now.monotonic since =
    (c.received now event).mam.account.fresh now.monotonic since := by
  rw [surveyed_account]
  rfl

/-- A fetch is decided by the watch over running downloads or by admission. -/
theorem fetch_cases {id : MamTorrentId} {wedge : Wedge} {cookie : Option ApiCookie}
    (h : .mamRequest (.fetchTorrent id wedge) cookie ∈ (c.handle now event).2) :
    (c.planned now event).cookie.isSome ∧
      (wedge = .spend ∧ c.WedgeDue now event id ∨
        ∃ records bookmark data, (c.received now event).registry = .loaded records ∧
          (c.surveyed now event).acquisition.Admits records.queued (c.admissionFacts now event) id
          wedge bookmark
            data) := by
  obtain ⟨-, hr, -⟩ | ⟨-, -, hw, -⟩ := request_cases h
  · cases hr
  · refine ⟨?_, ?_⟩
    · obtain ⟨hr, -⟩ | ⟨hc, -⟩ := wanted_cases hw
      · cases hr
      · exact hc
    · obtain ⟨hr, -⟩ | ⟨_, hr, -⟩ | ⟨_, hr, -⟩ | ⟨_, _, hr, -⟩ | hd | ⟨records, hrec, hd⟩ :=
        decision_cases hw
      · cases hr
      · cases hr
      · cases hr
      · cases hr
      · obtain ⟨download, watch, hmem, hone⟩ := watchNext_fetch (fetch_of_request hd)
        obtain ⟨rfl, rfl, rfl, hc, data, hdata, hwedges⟩ := watchOne_fetch hone
        rw [surveyed_fresh] at hdata
        exact .inl ⟨rfl, download, data, hmem, rfl, hc, hdata, hwedges⟩
      · obtain ⟨bookmark, data, hadmits⟩ := next_fetch (fetch_of_request hd)
        exact .inr ⟨records, bookmark, data, hrec, hadmits⟩

theorem fetch_free {id : MamTorrentId} {wedge : Wedge} {cookie : Option ApiCookie}
    (h : .mamRequest (.fetchTorrent id wedge) cookie ∈ (c.handle now event).2) :
    c.FreeToAsk now event := by
  obtain ⟨-, hr, -⟩ | ⟨hg, hn, -⟩ := request_cases h
  · cases hr
  · rw [handle_gate] at hg
    exact ⟨hg, hn⟩

end

/-! ## A refused download -/

theorem obstacle_refused {a : Acquisition} {facts : Facts} (h : a.obstacle facts = none) :
    a.refused = none := by
  unfold Acquisition.obstacle at h
  split at h
  · cases h
  · split at h
    · cases h
    · split at h
      · cases h
      · next hr => simpa using hr

def Handled.RefusesDownload (e : Handled) : Prop :=
  ∃ id wedge message, e.answer = some (.fetchTorrent id wedge, .error (.refused message))

/-- The owner supplies a cookie other than the one asked for now. -/
def Handled.SuppliesAnother (e : Handled) : Prop :=
  ∃ cookie, e.input.event = .settings (.setApiCookie cookie) ∧
  e.before.context.requestedCookie ≠ some cookie

/-- The step takes neither way around a refusal: it finds no running download to
spend a wedge on, and no failed save of an issued cookie brings another one
back. -/
structure Handled.KeepsRefusal (e : Handled) : Prop where
  watch : e.before.FreeToAsk e.input.occurredAt e.input.event →
    ∀ id, ¬ e.before.WedgeDue e.input.occurredAt e.input.event id
  fallback : ∀ s, e.before.settings = .loaded s → e.input.event = .settings .rotatedApiCookieWriteFailed →
    s.apiCookie.persistence = .pending s.apiCookie.requested →
    s.apiCookie.saved = e.before.mam.cookieInUse

def Core.DownloadsHeld (c : Core) : Prop :=
  c.mam.acquisition.refused.isSome ∨ c.context.requestedCookie = none ∧ c.mam.cookieInUse = none

section
variable {c : Core} {now : ClockReading} {event : Event}

def refusedAnswered (now : ClockReading) (answer : Answer) (refused : Option SystemTime) :
    Option SystemTime :=
  match answer with
  | some (.fetchTorrent .., .error (.refused _)) => some now.wall
  | _ => refused

theorem followDownloads_refused (m : Mam) (now : ClockReading) (registry : Registry) :
    (m.followDownloads now registry).1.acquisition.refused = m.acquisition.refused := by
  rw [followDownloads_frame]

theorem fetched_refused (m : Mam) (now : ClockReading) (registry : Registry) (id : MamTorrentId)
    (wedge : Wedge)
    (result : Except MamFailure MamReply) :
    (m.fetched now id wedge result registry).1.acquisition.refused =
      refusedAnswered now (some (.fetchTorrent id wedge, result)) m.acquisition.refused := by
  unfold Mam.fetched refusedAnswered
  dsimp only
  split
  · split
    · rfl
    · rw [followDownloads_refused]
      split <;> rfl
  · rfl
  · next hok herr =>
    split
    · next heq =>
      cases heq
      exact absurd rfl (herr _)
    · rfl

theorem applyAnswer_refused (m : Mam) (now : ClockReading) (registry : Registry) (request : MamRequest)
    (result : Except MamFailure MamReply) (current : Bool) :
    (m.applyAnswer now request result current registry).1.acquisition.refused =
      refusedAnswered now (if current ∨ request.recordsSpend then some (request, result) else none)
        m.acquisition.refused := by
  cases request with
  | fetchTorrent id wedge =>
    simp only [MamRequest.recordsSpend, or_true, if_true]
    exact fetched_refused m now registry id wedge result
  | buy purchase => simp [Mam.applyAnswer, Mam.purchased, refusedAnswered, MamRequest.recordsSpend]
  | lookUpIp =>
    cases current
    · rfl
    · simp only [Mam.applyAnswer, Mam.ipAnswered]
      split <;> rfl
  | registerSeedbox =>
    cases current
    · rfl
    · simp only [Mam.applyAnswer, Mam.registrationAnswered]
      split <;> rfl
  | loadUserData clients =>
    cases current
    · rfl
    · simp only [Mam.applyAnswer, Mam.userDataAnswered]
      split
      · rw [followDownloads_refused]
        rfl
      · rfl
      · rfl
  | wedgeHistory =>
    cases current
    · rfl
    · simp only [Mam.applyAnswer, Mam.historyAnswered]
      split
      · rw [followDownloads_refused]
        rfl
      · rfl
      · rfl
  | lookUpTorrent id =>
    cases current
    · rfl
    · simp only [Mam.applyAnswer, Mam.torrentAnswered]
      split
      · rw [followDownloads_refused]
        rfl
      · rfl
      · rfl
  | listBookmarks start =>
    cases current
    · rfl
    · simp only [Mam.applyAnswer, Mam.bookmarksAnswered]
      split
      · rw [listed_frame]
        rfl
      · rfl
      · rfl

theorem received_downloadsRefused (c : Core) (now : ClockReading) (event : Event) :
    (c.received now event).mam.acquisition.refused =
      refusedAnswered now (c.mam.accepted event) c.mam.acquisition.refused := by
  rw [received_mam]
  by_cases hm : ∃ e, event = .mam e
  · obtain ⟨e, rfl⟩ := hm
    rw [dispatch_mam_eq]
    cases e with
    | answered result rotated =>
      cases ho : c.mam.outstanding with
      | none =>
        simp [Mam.handle, Mam.requestAnswered, Mam.accepted, Core.note, ho, refusedAnswered]
      | some slot =>
        cases slot with
        | savingRegistration at' k epoch =>
          simp [Mam.handle, Mam.requestAnswered, Mam.accepted, Core.note, ho, refusedAnswered]
        | request request sent epoch =>
          obtain ⟨session, issued, h, -⟩ := requestAnswered_eq ho now result rotated c.registry
          have hm : ((c.note (.mam (.answered result rotated))).mam.handle now (.answered result rotated)
              (c.note (.mam (.answered result rotated))).registry).1 = _ := h
          rw [hm, accepted_answered c.mam ho]
          simpa using applyAnswer_refused _ now c.registry request result (epoch == c.mam.epoch)
    | ratioUseChecked =>
      simp only [Mam.handle]
      rw [ratioUseChecked_frame]
      rfl
    | registrationAttemptSaved =>
      simp only [Mam.handle, Mam.registrationAttemptSaved]
      split
      · split <;> rfl
      · rfl
    | registrationAttemptSaveFailed =>
      simp only [Mam.handle, Mam.registrationAttemptSaveFailed]
      split <;> rfl
    | _ => rfl
  · have hn := dispatch_nudged (c.note event) now (fun e he => hm ⟨e, he⟩)
    have hans : event.isAnswer = false := by
      cases event with
      | mam e => exact absurd ⟨e, rfl⟩ hm
      | _ => rfl
    rw [hn.frame, accepted_none event hans]
    rfl

theorem connect_refused {m : Mam} {context : Context}
    (h : context.requestedCookie = m.cookieInUse ∨ context.requestedCookie = m.issuedCookie) :
    (m.connect now context).acquisition.refused = m.acquisition.refused := by
  have hgate : ((m.remind now).1.followGate context).acquisition.refused = m.acquisition.refused ∧
      ((m.remind now).1.followGate context).cookieInUse = m.cookieInUse ∧
      ((m.remind now).1.followGate context).issuedCookie = m.issuedCookie := by
    rw [followGate_frame, remind_frame]
    exact ⟨rfl, rfl, rfl⟩
  unfold Mam.connect
  obtain ⟨hn, hi, -⟩ | ⟨-, -, -, hf⟩ | ⟨-, -, hf⟩ :=
    followCookie_cases ((m.remind now).1.followGate context) context
  · rw [hgate.2.1] at hn
    rw [hgate.2.2] at hi
    exact absurd h (not_or.mpr ⟨hn, hi⟩)
  · rw [hf]
    exact hgate.1
  · rw [hf]
    exact hgate.1

theorem surveyed_refused :
    (c.surveyed now event).acquisition.refused = (c.connected now event).acquisition.refused := by
  unfold Core.surveyed
  rw [survey_frame]
  rfl

theorem handle_refused :
    (c.handle now event).1.mam.acquisition.refused = (c.connected now event).acquisition.refused := by
  obtain ⟨wake, h⟩ := handle_mam c now event
  rw [h, Core.sending, send_frame, prepared_eq]
  exact surveyed_refused

/-- Once the event is handled, downloads that wait keep waiting, unless a running
one is due a wedge. -/
theorem held_received (hc : CookieInv c)
    (hheld : (c.received now event).mam.acquisition.refused.isSome ∨
      (c.received now event).context.requestedCookie = none ∧ c.mam.cookieInUse = none)
    (hcookie : ((c.received now event).context.requestedCookie = c.mam.cookieInUse ∨
        (c.received now event).context.requestedCookie = (c.received now event).mam.issuedCookie) ∨
      (c.received now event).context.requestedCookie = none)
    (hw : c.FreeToAsk now event → ∀ id, ¬ c.WedgeDue now event id) :
    (c.handle now event).1.DownloadsHeld ∧
      ∀ id wedge cookie, .mamRequest (.fetchTorrent id wedge) cookie ∉ (c.handle now event).2 := by
  obtain ⟨hcu, -⟩ := handle_cookies c now event
  obtain ⟨-, -, hinuse⟩ := received_mam_frame c now event
  have hreq := handle_requestedCookie c now event
  have hkept (hfollowed : (c.received now event).context.requestedCookie = c.mam.cookieInUse ∨
      (c.received now event).context.requestedCookie = (c.received now event).mam.issuedCookie) :
      (c.connected now event).acquisition.refused = (c.received now event).mam.acquisition.refused :=
    connect_refused (by rw [hinuse]; exact hfollowed)
  refine ⟨?_, ?_⟩
  · unfold Core.DownloadsHeld
    rw [handle_refused, hreq, hcu]
    -- another cookie is taken up, the one in use is kept, or there is none
    obtain ⟨hn, hi, h⟩ | ⟨hr, hk, -, -⟩ | ⟨hr, -, h, -⟩ :=
      connect_cookie_cases (c.received now event).mam now (c.received now event).context
    · rw [hinuse] at hn
      have hnone := hcookie.resolve_left (not_or.mpr ⟨hn, hi⟩)
      refine .inr ⟨hnone, ?_⟩
      unfold Core.connected
      rw [h]
      exact hnone
    · obtain ⟨k, hk⟩ := Option.isSome_iff_exists.mp hk
      have hsome := context_cookie hc.received_settled hk
      rw [hinuse] at hr
      left
      rw [hkept hr]
      obtain hheld | ⟨hnone, -⟩ := hheld
      · exact hheld
      · rw [hsome] at hnone
        cases hnone
    · rw [hinuse] at hr
      obtain hheld | ⟨hnone, hu⟩ := hheld
      · left
        rw [hkept hr]
        exact hheld
      · right
        refine ⟨hnone, ?_⟩
        unfold Core.connected
        rw [h, hinuse, hu]
  · intro id wedge cookie hmem
    obtain ⟨hplanned, ⟨-, hdue⟩ | ⟨records, bookmark, data, -, hadmits⟩⟩ := fetch_cases hmem
    · exact hw (fetch_free hmem) id hdue
    · have hsome : (c.received now event).context.requestedCookie ≠ none := by
        intro hnone
        rw [planned_none now event hc hnone] at hplanned
        cases hplanned
      have hrefused := hheld.resolve_right fun h => hsome h.1
      have hnone := obstacle_refused hadmits.obstacle
      rw [surveyed_refused, hkept (hcookie.resolve_right hsome)] at hnone
      rw [hnone] at hrefused
      cases hrefused

/-- What a step does to the cookie asked for, when the owner supplies no other
one. -/
theorem requested_step (now : ClockReading) (event : Event) (hc : CookieInv c) {s : Settings}
    (hs : c.settings = .loaded s)
    (hset : ∀ k, event = .settings (.setApiCookie k) → c.context.requestedCookie = some k)
    (hfall : event = .settings .rotatedApiCookieWriteFailed →
      s.apiCookie.persistence = .pending s.apiCookie.requested → s.apiCookie.saved = c.mam.cookieInUse) :
    (((c.received now event).context.requestedCookie = c.mam.cookieInUse ∨
        (c.received now event).context.requestedCookie = (c.received now event).mam.issuedCookie) ∨
      (c.received now event).context.requestedCookie = none) ∧
    (c.context.requestedCookie = none → c.mam.cookieInUse = none →
      (c.received now event).context.requestedCookie = none) := by
  obtain ⟨s', hs', hk'⟩ := received_cookie c now event hs (hc.started (by rw [hs]; simp))
  have hr' : (c.received now event).context.requestedCookie =
      (c.cookieAfter event s.apiCookie).requested := by
    simp only [Core.context, hs', SettingsState.toLoaded, Option.bind_some, hk']
  have hr : c.context.requestedCookie = s.apiCookie.requested := by
    simp only [Core.context, hs, SettingsState.toLoaded, Option.bind_some]
  have hissued := received_issued c now event
  cases hrot : c.mam.rotates event with
  | some k =>
    have hk : (c.cookieAfter event s.apiCookie).requested = some k := by
      unfold Core.cookieAfter
      split
      · simp [Mam.rotates] at hrot
      · rw [hrot]
        exact request_requested _ _
    rw [hrot] at hissued
    rw [hr', hk]
    refine ⟨.inl (.inr hissued.symm), ?_⟩
    intro _ hu
    rw [rotates_unused event (hc.unused hu).2] at hrot
    cases hrot
  | none =>
    have hissued' : (c.received now event).mam.issuedCookie = c.mam.issuedCookie := by
      rw [hissued, hrot]; rfl
    rw [hr', hissued']
    have hsame (h : (c.cookieAfter event s.apiCookie).requested = c.context.requestedCookie) :
        (((c.cookieAfter event s.apiCookie).requested = c.mam.cookieInUse ∨
            (c.cookieAfter event s.apiCookie).requested = c.mam.issuedCookie) ∨
          (c.cookieAfter event s.apiCookie).requested = none) ∧
        (c.context.requestedCookie = none → c.mam.cookieInUse = none →
          (c.cookieAfter event s.apiCookie).requested = none) := by
      rw [h]
      exact ⟨.inl hc.followed, fun hnone _ => hnone⟩
    obtain h | ⟨-, h⟩ | ⟨j, hev⟩ | ⟨hev, hp, h⟩ | ⟨j, hj, h⟩ := cookieAfter_requested c event s.apiCookie
    · exact hsame (h.trans hr.symm)
    · rw [h]
      exact ⟨.inr rfl, fun _ _ => rfl⟩
    · refine hsame ?_
      rw [hset j hev, hev]
      exact request_requested _ _
    · rw [h, hfall hev hp]
      exact ⟨.inl (.inl rfl), fun _ hu => hu⟩
    · rw [hrot] at hj
      cases hj

end

def Core.Holding (c : Core) : Prop := (∃ s, c.settings = .loaded s) ∧ c.DownloadsHeld

section
variable {c : Core} {i : TimedEvent}

theorem holding_step (hc : CookieInv c) (hl : ∃ s, c.settings = .loaded s)
    (hheld : (c.received i.occurredAt i.event).mam.acquisition.refused.isSome ∨
      c.context.requestedCookie = none ∧ c.mam.cookieInUse = none)
    (hset : ¬ Handled.SuppliesAnother (core.entry c i)) (hkeep : Handled.KeepsRefusal (core.entry c i)) :
    (core.step c i).1.Holding ∧ ∀ id wedge, ¬ Sends (core.entry c i) (.fetchTorrent id wedge) := by
  obtain ⟨s, hs⟩ := hl
  obtain ⟨hcookie, hnone⟩ := requested_step i.occurredAt i.event hc hs
    (fun k he => not_not.mp fun hne => hset ⟨k, he, hne⟩) (hkeep.fallback s hs)
  have hheld' : (c.received i.occurredAt i.event).mam.acquisition.refused.isSome ∨
      (c.received i.occurredAt i.event).context.requestedCookie = none ∧ c.mam.cookieInUse = none := by
    obtain h | ⟨hr, hu⟩ := hheld
    · exact .inl h
    · exact .inr ⟨hnone hr hu, hu⟩
  obtain ⟨h, hno⟩ := held_received hc hheld' hcookie hkeep.watch
  refine ⟨⟨loaded_step hc ⟨s, hs⟩, h⟩, ?_⟩
  rintro id wedge ⟨cookie, hmem⟩
  exact hno id wedge cookie hmem

theorem held_refused (h : c.DownloadsHeld) :
    (c.received i.occurredAt i.event).mam.acquisition.refused.isSome ∨
      c.context.requestedCookie = none ∧ c.mam.cookieInUse = none := by
  obtain h | h := h
  · left
    rw [received_downloadsRefused]
    unfold refusedAnswered
    split
    · rfl
    · exact h
  · exact .inr h

def Core.FetchLoaded (c : Core) : Prop :=
  ∀ id wedge sent epoch, c.mam.outstanding = some (.request (.fetchTorrent id wedge) sent epoch) →
    ∃ s, c.settings = .loaded s

theorem fetchLoaded_step (hc : CookieInv c) (h : c.FetchLoaded) : (core.step c i).1.FetchLoaded := by
  intro id wedge sent epoch ho
  obtain ⟨hb, -⟩ | ⟨-, cookie, hmem⟩ := outstanding_sent ho
  · exact loaded_step hc (h id wedge sent epoch hb)
  · obtain ⟨hplanned, -⟩ := fetch_cases hmem
    obtain ⟨k, hk⟩ := Option.isSome_iff_exists.mp hplanned
    exact (carried_of_planned hc hk).loaded

end

theorem fetchLoaded_last (is : List TimedEvent) : (core.last is).FetchLoaded := by
  have h := Reactive.last_invariant core (I := fun c => CookieInv c ∧ c.FetchLoaded)
    ⟨cookieInv_init, by intro id wedge sent epoch h; cases h⟩
    (fun _ i h => ⟨cookieInv_step i.occurredAt i.event h.1, fetchLoaded_step h.1 h.2⟩) is
  exact h.2

/-- After MAM refuses a download nothing is fetched until the owner supplies
another cookie, as long as no step takes a way around the refusal. -/
theorem refused_download_holds {is : List TimedEvent} {pre rest mid post : List Handled} {g f : Handled}
    (hrun : core.run is = pre ++ g :: rest) (href : g.RefusesDownload)
    (hrest : g :: rest = mid ++ f :: post)
    (hset : ∀ x ∈ mid ++ [f], ¬ Handled.SuppliesAnother x)
    (hkeep : ∀ x ∈ mid ++ [f], Handled.KeepsRefusal x)
    (id : MamTorrentId) (wedge : Wedge) : ¬ Sends f (.fetchTorrent id wedge) := by
  obtain ⟨js, i, ks, -, -, rfl, hks⟩ := Reactive.run_split core hrun
  rw [entry_after] at hks
  have hc := cookieInv_last js
  obtain ⟨fetched, spent, message, ha⟩ := href
  have hmem : core.entry (core.last js) i ∈ mid ++ [f] := by
    cases mid with
    | nil => exact List.mem_singleton.mpr (List.cons.inj hrest).1
    | cons g mid =>
      rw [(List.cons.inj hrest).1]
      exact List.mem_cons_self
  have hl : ∃ s, (core.last js).settings = .loaded s := by
    obtain ⟨sent, epoch, rotated, ho, -⟩ := accepted_outstanding ha
    exact fetchLoaded_last js _ _ _ _ ho
  have href : ((core.last js).received i.occurredAt i.event).mam.acquisition.refused.isSome := by
    have ha' : (core.last js).mam.accepted i.event = _ := ha
    rw [received_downloadsRefused, ha']
    rfl
  have hg := holding_step hc hl (.inl href) (hset _ hmem) (hkeep _ hmem)
  cases mid with
  | nil =>
    rw [← (List.cons.inj hrest).1]
    exact hg.2 id wedge
  | cons g mid =>
    rw [(List.cons.inj hrest).2] at hks
    obtain ⟨t, j, ⟨htc, htl, hth⟩, rfl⟩ := Reactive.trace_until core
      (I := fun c => CookieInv c ∧ c.Holding)
      (P := fun x => ¬ Handled.SuppliesAnother x ∧ Handled.KeepsRefusal x)
      (fun c j hI hP => ⟨cookieInv_step j.occurredAt j.event hI.1,
        (holding_step hI.1 hI.2.1 (held_refused hI.2.2) hP.1 hP.2).1⟩) hks.symm
      ⟨cookieInv_step i.occurredAt i.event hc, hg.1⟩
      (fun x hx => ⟨hset x (by simp [hx]), hkeep x (by simp [hx])⟩)
    have hf : core.entry t j ∈ g :: mid ++ [core.entry t j] := by simp
    exact (holding_step htc htl (held_refused hth) (hset _ hf) (hkeep _ hf)).2 id wedge

theorem no_other_cookie {e : Handled} (h : e.input.event.suppliesCookie = false) :
    ¬ e.SuppliesAnother := by
  rintro ⟨cookie, he, -⟩
  rw [he] at h
  cases h

theorem keepsRefusal_of_idle {e : Handled}
    (hw : (e.before.surveyed e.input.occurredAt e.input.event).acquisition.watched.isEmpty)
    (hf : e.input.event ≠ .settings .rotatedApiCookieWriteFailed) : e.KeepsRefusal where
  watch := by
    intro _ id hdue
    obtain ⟨download, data, hmem, -⟩ := hdue
    rw [List.isEmpty_iff.mp hw] at hmem
    cases hmem
  fallback := fun _ _ he => absurd he hf

def fetchSentEvents : List TimedEvent := admittingEvents [] ++ [replyAt 65 freePage]

def downloadRefused (seconds : Nat) : TimedEvent := failureAt seconds (.refused none)

theorem refused_download_waits :
    Handled.RefusesDownload (core.entry (core.last fetchSentEvents) (downloadRefused 66)) ∧
    ∀ id wedge, ¬ Sends (core.entry (core.last (fetchSentEvents ++ [downloadRefused 66])) (wakeAt 70))
      (.fetchTorrent id wedge) := by
  have hrun := Reactive.run_stretch core fetchSentEvents [] (downloadRefused 66) (wakeAt 70)
  have href : Handled.RefusesDownload (core.entry (core.last fetchSentEvents) (downloadRefused 66)) :=
    ⟨5, .keep, none, by decide +kernel⟩
  refine ⟨href, refused_download_holds hrun href List.singleton_append.symm ?_ ?_⟩
  · intro x hx
    simp only [List.singleton_append, List.mem_cons, List.not_mem_nil, or_false] at hx
    obtain rfl | rfl := hx <;> exact no_other_cookie rfl
  · intro x hx
    simp only [List.singleton_append, List.mem_cons, List.not_mem_nil, or_false] at hx
    obtain rfl | rfl := hx
    · exact keepsRefusal_of_idle (by decide +kernel) (by rintro ⟨⟩)
    · exact keepsRefusal_of_idle (by decide +kernel) (by rintro ⟨⟩)

def secondHash : TorrentHash := ⟨List.replicate 40 ⟨11, by decide⟩, .inl rfl⟩

def secondRow : TorrentRecord :=
  { someRow with id := Nat.toPNat' 2, identity := .linked (Nat.toPNat' 8) secondHash }

def runningEvents : List TimedEvent :=
  -- two downloads run, and a wedge is being spent on the first
  admittingEvents [someRow, secondRow] ++
    [replyAt 65 noBookmarks, replyAt 66 (.torrent (some (listing 7 .no))), replyAt 67 (.wedgeHistory [])]

/-- The watch over running downloads goes on spending wedges after a refusal. -/
theorem wedge_spent_after_refusal : ∃ (pre rest mid post : List Handled) (g f : Handled),
    core.run (runningEvents ++ downloadRefused 68 ::
        ([replyAt 69 (.torrent (some (listing 8 .no)))] ++ [replyAt 70 (.wedgeHistory [])])) =
        pre ++ g :: rest ∧
    g.RefusesDownload ∧ g :: rest = mid ++ f :: post ∧ (∀ x ∈ mid ++ [f], ¬ Handled.SuppliesAnother x) ∧
    Sends f (.fetchTorrent 8 .spend) := by
  have hrun := Reactive.run_stretch core runningEvents [replyAt 69 (.torrent (some (listing 8 .no)))]
    (downloadRefused 68) (replyAt 70 (.wedgeHistory []))
  refine ⟨_, _, core.entry _ _ :: _, [], _, _, hrun, ⟨7, .spend, none, ?_⟩, rfl, ?_,
    ⟨some savedCookie, ?_⟩⟩
  · decide +kernel
  · intro x hx
    refine no_other_cookie ?_
    revert x
    decide +kernel
  · decide +kernel

/-! ## Wedges and the reading that counts them -/

def MamRequest.spendsWedge : MamRequest → Bool
  | .fetchTorrent _ .spend => true
  | _ => false

def wedgesAsked (tr : List Handled) : Nat := (sentRequests tr).countP fun sent => sent.1.spendsWedge

/-- The step `f`, after the steps `pre`, acts on a recent reading that shows more
wedges than were asked for since it was taken. -/
def WedgeCovered (pre : List Handled) (f : Handled) : Prop :=
  ∃ before since r clients data, pre = before ++ since ∧ (since ++ [f]).head? = some r ∧
    Handled.Reads r clients data ∧
    (∀ g ∈ (since ++ [f]).tail, ∀ clients data, ¬ Handled.Reads g clients data) ∧
    f.after.mam.account.data = some data ∧ f.time ≤ r.time + accountFreshFor ∧
    wedgesAsked since < data.wedges

/-- A step free to ask MAM finds no torrent due a wedge, running or queued, while a
wedge was asked for since the reading in force was taken. -/
def Handled.WedgeRested (e : Handled) : Prop :=
  ∀ reading (id : MamTorrentId) (attempt : Instant), e.before.FreeToAsk e.input.occurredAt e.input.event →
    (e.before.received e.input.occurredAt e.input.event).mam.account.reading = some reading →
    e.before.mam.acquisition.wedgeAttempts[id]? = some attempt → reading.taken ≤ attempt →
    ∀ id, ¬ e.before.WedgeDue e.input.occurredAt e.input.event id ∧
      ¬ e.before.QueuedWedgeDue e.input.occurredAt e.input.event id

def SpendsRecorded (tr : List Handled) (c : Core) : Prop :=
  ∀ e ∈ tr, ∀ id, Sends e (.fetchTorrent id .spend) →
    ∃ attempt : Instant, c.mam.acquisition.wedgeAttempts[id]? = some attempt ∧ e.time ≤ attempt

theorem spendsRecorded_step {tr : List Handled} {c : Core} {i : TimedEvent}
    (hs : Steady (tr ++ [core.entry c i])) (hi : SpendsRecorded tr c) :
    SpendsRecorded (tr ++ [core.entry c i]) (core.step c i).1 := by
  have hnow : ∀ e ∈ tr, e.time ≤ i.occurredAt.monotonic :=
    fun e he => (List.pairwise_append.mp hs).2.2 e he _ (List.mem_singleton_self _)
  intro e he id hsend
  rw [List.mem_append, List.mem_singleton] at he
  obtain ⟨spent, cookie, hreq, hatt⟩ | ⟨hno, hatt⟩ := attempts_step c i.occurredAt i.event
  · rw [core_step, hatt, Std.ExtTreeMap.getElem?_insert]
    by_cases hid : spent = id
    · refine ⟨i.occurredAt.monotonic, by simp [hid], ?_⟩
      obtain he | rfl := he
      · exact hnow e he
      · exact le_rfl
    · obtain he | rfl := he
      · obtain ⟨attempt, ha, hle⟩ := hi e he id hsend
        exact ⟨attempt, by simpa [hid] using ha, hle⟩
      · obtain ⟨cookie', hmem⟩ := hsend
        rw [entry_out, ← mem_requests, hreq, List.mem_singleton] at hmem
        cases hmem
        exact absurd rfl hid
  · rw [core_step, hatt]
    obtain he | rfl := he
    · exact hi e he id hsend
    · obtain ⟨cookie', hmem⟩ := hsend
      exact absurd hmem (hno id cookie')

theorem spendsRecorded_run (is : List TimedEvent) (hs : Steady (core.run is)) :
    SpendsRecorded (core.run is) (core.last is) :=
  Reactive.run_invariant core (fun _ _ h => (List.pairwise_append.mp h).1) (by intro e he; cases he)
    (fun _ _ _ hi hs => spendsRecorded_step hs hi) is hs

theorem wedgesAsked_eq_zero {tr : List Handled}
    (h : ∀ e ∈ tr, ∀ id, ¬ Sends e (.fetchTorrent id .spend)) :
    wedgesAsked tr = 0 := by
  unfold wedgesAsked
  rw [List.countP_eq_zero]
  rintro ⟨request, cookie⟩ hmem hspend
  unfold sentRequests at hmem
  obtain ⟨e, he, hreq⟩ := List.mem_flatMap.mp hmem
  dsimp only at hspend
  unfold MamRequest.spendsWedge at hspend
  split at hspend
  · next id => exact h e he id ⟨cookie, mem_requests.mp hreq⟩
  · cases hspend

/-- A wedge is asked for on a recent reading that shows one, and no attempt is on
record since it was taken. -/
theorem spend_rests {c : Core} {i : TimedEvent} {id : MamTorrentId} {cookie : Option ApiCookie}
    (h : .mamRequest (.fetchTorrent id .spend) cookie ∈ (core.entry c i).out)
    (hr : Handled.WedgeRested (core.entry c i)) :
    ∃ reading, (c.received i.occurredAt i.event).mam.account.reading = some reading ∧
      i.occurredAt.monotonic.durationSince reading.taken ≤ accountFreshFor ∧ 0 < reading.data.wedges ∧
      ∀ (id : MamTorrentId) (attempt : Instant), c.mam.acquisition.wedgeAttempts[id]? = some attempt →
        attempt < reading.taken := by
  have hfree := fetch_free h
  obtain ⟨-, ⟨-, hdue⟩ | ⟨records, bookmark, data, hrec, hadmits⟩⟩ := fetch_cases h
  · obtain ⟨download, data, hmem, hid, hc, hfresh, hw⟩ := hdue
    obtain ⟨reading, hreading, hage, -, rfl⟩ := fresh_cases hfresh
    refine ⟨reading, hreading, hage, Nat.pos_of_ne_zero hw, ?_⟩
    intro id' attempt ha
    by_contra hle
    exact (hr reading id' attempt hfree hreading ha (not_lt.mp hle) id).1 ⟨download, _, hmem, hid,
      hc, hfresh, hw⟩
  · have hfresh : (c.received i.occurredAt i.event).mam.account.fresh i.occurredAt.monotonic
        (c.surveyed i.occurredAt i.event).acquisition.lastAdmission = some data := by
      rw [← surveyed_fresh]
      exact hadmits.fresh
    have hneeds := needsWedge_of_admit hadmits.admitted
    obtain ⟨reading, hreading, hage, -, rfl⟩ := fresh_cases hfresh
    refine ⟨reading, hreading, hage, Nat.pos_of_ne_zero hneeds.2.2, ?_⟩
    intro id' attempt ha
    by_contra hle
    exact (hr reading id' attempt hfree hreading ha (not_lt.mp hle) id).2
      ⟨records, bookmark, _, hrec, hadmits.candidate, hadmits.bookmark, hadmits.obstacle, hfresh,
        hadmits.account,
        hneeds⟩

/-- No wedge is asked for on a reading that does not show enough, as long as no
decider reuses a reading. -/
theorem wedges_covered {is : List TimedEvent} (hs : Steady (core.run is))
    (hrested : ∀ e ∈ core.run is, Handled.WedgeRested e) {pre post : List Handled} {f : Handled}
    (hrun : core.run is = pre ++ f :: post) {id : MamTorrentId} (hf : Sends f (.fetchTorrent id .spend)) :
    WedgeCovered pre f := by
  have hsteady : Steady (pre ++ [f]) := by
    rw [hrun] at hs
    have hall : Steady ((pre ++ [f]) ++ post) := by simpa using hs
    exact (List.pairwise_append.mp hall).1
  have hrest : Handled.WedgeRested f := hrested f (by rw [hrun]; simp)
  obtain ⟨js, i, ks, -, rfl, rfl, -⟩ := Reactive.run_split core hrun
  obtain ⟨cookie, hmem⟩ := hf
  obtain ⟨reading, hreading, hage, hwedges, hunspent⟩ := spend_rests hmem hrest
  have hafter : (core.step (core.last js) i).1.mam.account.reading = some reading := by
    rw [core_step, handle_account]
    exact hreading
  -- `r` brought the reading in force, and `h` had asked for it
  obtain ⟨pr, md, po, h, r, hread⟩ := (sourceInv_step (sourceInv_run js)).reading reading hafter
  obtain ⟨clients, -, hreads⟩ := hread.asked
  have hdata : (core.entry (core.last js) i).after.mam.account.data = some reading.data := by
    rw [entry_after]
    unfold Account.data
    rw [← core_step, hafter]
    rfl
  have hfresh : Handled.time (core.entry (core.last js) i) ≤ r.time + accountFreshFor := by
    rw [hread.taken]
    exact Instant.le_add_of_durationSince hage
  have hsplit : core.run js ++ [core.entry (core.last js) i] = (pr ++ h :: md) ++ r :: po := by
    rw [hread.split]
    simp
  obtain rfl | ⟨po, last, rfl⟩ := po.eq_nil_or_concat
  · -- the reading came with this step
    obtain ⟨-, hr⟩ := List.append_inj' hsplit rfl
    obtain ⟨rfl, -⟩ := List.cons.inj hr
    exact ⟨core.run js, [], _, clients, reading.data, by simp, rfl, hreads, by simp, hdata, hfresh,
      hwedges⟩
  · have hsplit' : core.run js ++ [core.entry (core.last js) i] = ((pr ++ h :: md) ++ r :: po) ++
      [last] := by
      rw [hsplit]
      simp
    obtain ⟨htr, hl⟩ := List.append_inj' hsplit' rfl
    obtain ⟨rfl, -⟩ := List.cons.inj hl
    have hzero : wedgesAsked (r :: po) = 0 := by
      refine wedgesAsked_eq_zero fun e he spent hsend => ?_
      have hmemtr : e ∈ core.run js := by rw [htr]; exact List.mem_append_right _ he
      obtain ⟨attempt, ha, hle⟩ :=
        spendsRecorded_run js (List.pairwise_append.mp hsteady).1 e hmemtr spent hsend
      have hlt := hunspent spent attempt ha
      rw [← hread.taken] at hlt
      refine absurd (hlt.trans_le ?_) (not_lt.mpr hle)
      rw [List.mem_cons] at he
      obtain rfl | he := he
      · exact le_rfl
      · have hst : Steady (r :: po) := by
          rw [htr] at hsteady
          exact (List.pairwise_append.mp (List.pairwise_append.mp hsteady).1).2.1
        exact (List.pairwise_cons.mp hst).1 e he
    refine ⟨pr ++ h :: md, r :: po, r, clients, reading.data, htr, rfl, hreads, ?_, hdata, hfresh, ?_⟩
    · intro g hg
      exact hread.latest g (by simpa using hg)
    · rw [hzero]
      exact hwedges

theorem rested_of_empty {e : Handled} (h : e.before.mam.acquisition.wedgeAttempts.isEmpty) :
    e.WedgeRested := by
  intro reading id attempt _ _ ha
  rw [Std.ExtTreeMap.isEmpty_iff] at h
  rw [h] at ha
  simp at ha

theorem first_wedge_covered :
    Sends (core.entry (core.last runningEvents.dropLast) (replyAt 67 (.wedgeHistory [])))
    (.fetchTorrent 7 .spend) ∧
    WedgeCovered (core.run runningEvents.dropLast)
      (core.entry (core.last runningEvents.dropLast) (replyAt 67 (.wedgeHistory []))) := by
  have hrun := Reactive.run_snoc core runningEvents.dropLast (replyAt 67 (.wedgeHistory []))
  have hsent : Sends (core.entry (core.last runningEvents.dropLast) (replyAt 67 (.wedgeHistory [])))
      (.fetchTorrent 7 .spend) := ⟨some savedCookie, by decide +kernel⟩
  refine ⟨hsent, wedges_covered (steady_iff.mpr ?_) ?_ hrun hsent⟩
  · decide +kernel
  · intro e he
    refine rested_of_empty ?_
    revert e
    decide +kernel

theorem wedgesAsked_pos {tr : List Handled} {e : Handled} {id : MamTorrentId} (he : e ∈ tr)
    (h : Sends e (.fetchTorrent id .spend)) : 0 < wedgesAsked tr := by
  obtain ⟨cookie, h⟩ := h
  unfold wedgesAsked
  rw [List.countP_pos_iff]
  exact ⟨_, List.mem_flatMap.mpr ⟨e, he, mem_requests.mpr h⟩, rfl⟩

/-- A reading with one wedge does not cover a second one asked for since. -/
theorem second_wedge_uncovered {pre mid : List Handled} {e f : Handled} {id : MamTorrentId}
    {data : UserData}
    (he : Sends e (.fetchTorrent id .spend))
    (hread : ∀ x ∈ mid ++ [f], ∀ clients data, ¬ Handled.Reads x clients data)
    (hdata : f.after.mam.account.data = some data) (hone : data.wedges = 1) :
    ¬ WedgeCovered (pre ++ e :: mid) f := by
  rintro ⟨before, since, r, clients, data', hsplit, hhead, hr, -, hdata', -, hlt⟩
  rw [hdata] at hdata'
  cases hdata'
  rw [hone, Nat.lt_one_iff] at hlt
  have hmem : r ∈ since ++ [f] := List.mem_of_mem_head? hhead
  have hnot : e ∉ since := by
    intro h
    have hpos := wedgesAsked_pos h he
    rw [hlt] at hpos
    exact lt_irrefl 0 hpos
  obtain ⟨as, -, hmid⟩ | ⟨cs, -, hsince⟩ := List.append_eq_append_iff.mp hsplit
  · cases as with
    | nil => exact hnot (by rw [show since = e :: mid from hmid.symm]; simp)
    | cons x as =>
      obtain ⟨-, hmid⟩ := List.cons.inj hmid
      refine hread r ?_ clients data hr
      rw [show mid = as ++ since from hmid, List.append_assoc]
      exact List.mem_append_right as hmem
  · exact hnot (by rw [hsince]; simp)

def oneWedge : UserData := { accountData with wedges := 1 }

def lastWedgeEvents : List TimedEvent :=
  (admittingEvents [someRow, secondRow]).dropLast ++
    [replyAt 64 (.userData oneWedge), replyAt 65 noBookmarks,
      replyAt 66 (.torrent (some (listing 7 .no)))]

/-- The watch over running downloads spends the one wedge of a reading twice. -/
theorem last_wedge_spent_twice : ∃ (pre post : List Handled) (f : Handled),
    core.run (lastWedgeEvents ++ replyAt 67 (.wedgeHistory []) ::
        ([failureAt 68 .unreachable,
          replyAt 69 (.torrent (some (listing 8 .no)))] ++ [replyAt 70 (.wedgeHistory [])])) =
      pre ++ f :: post ∧
    Steady (pre ++ f :: post) ∧ Sends f (.fetchTorrent 8 .spend) ∧ ¬ WedgeCovered pre f := by
  have hrun := Reactive.run_stretch core lastWedgeEvents
    [failureAt 68 .unreachable,
      replyAt 69 (.torrent (some (listing 8 .no)))] (replyAt 67 (.wedgeHistory []))
    (replyAt 70 (.wedgeHistory []))
  have hsent : Sends (core.entry (core.last lastWedgeEvents) (replyAt 67 (.wedgeHistory [])))
      (.fetchTorrent 7 .spend) :=
    ⟨some savedCookie, by decide +kernel⟩
  rw [hrun, ← List.cons_append, ← List.append_assoc]
  refine ⟨_, [], _, rfl, ?_, ⟨some savedCookie, ?_⟩,
    @second_wedge_uncovered _ _ _ _ _ oneWedge hsent ?_ ?_ rfl⟩
  · rw [List.append_assoc, List.cons_append, ← hrun]
    exact steady_iff.mpr (by decide +kernel)
  · decide +kernel
  · intro x hx
    have hnone : ((Handled.answer x).any fun answer => answer.1.kind == .loadUserData) = false := by
      revert x
      decide +kernel
    intro clients data hread
    rw [hread] at hnone
    cases hnone
  · decide +kernel

end Windlass
