import Windlass.FetchSound
import Windlass.Turns

/-!
# What an admission rests on

A queued row is fetched only by admission, and admission passes every obstacle
first. What it reads of the account was asked for after every earlier admission
was answered, and a torrent MAM reported snatched waits for the owner.
-/

namespace Windlass

/-! ## What admission checks -/

section
variable {a : Acquisition} {facts : Facts}

structure Facts.Clear (facts : Facts) : Prop where
  gate : facts.gate ≠ .closed
  seedbox : facts.seedbox = .confirmed
  guard : ∃ figure, facts.ratioGuard = .watching figure
  readiness : facts.readiness = .ready
  limit : facts.downloading < facts.downloadingLimit.torrents

theorem obstacle_clear (h : a.obstacle facts = none) : facts.Clear := by
  unfold Acquisition.obstacle at h
  split at h
  · cases h
  next hgate =>
  split at h
  · cases h
  next hseedbox =>
  split at h
  · cases h
  split at h
  · cases h
  · cases h
  · cases h
  next figure hguard =>
  split at h
  · cases h
  next hready =>
  split at h
  · cases h
  next hlimit =>
  refine ⟨hgate, ?_, ⟨figure, hguard⟩, ?_, ?_⟩
  · cases hs : facts.seedbox with
    | confirmed => rfl
    | unconfirmed => exact absurd hs hseedbox
  · cases hr : facts.readiness with
    | ready => rfl
    | notReady => exact absurd hr hready
  · unfold DownloadingLimit.isReachedBy at hlimit
    simpa using hlimit

/-- A ratio of at least two, cut to thousandths, is an upload of at least twice
the download. -/
theorem ratio_kept {account : Account} {data : UserData} (hd : account.data = some data)
    (h : account.ratioLow = none) : data.downloaded = 0 ∨ 2 * data.downloaded ≤ data.uploaded := by
  by_cases hz : data.downloaded = 0
  · exact .inl hz
  · right
    unfold Account.ratioLow UserData.ratio Ratio.of at h
    rw [hd, Option.bind_some, if_neg hz, Option.map_eq_none_iff, Option.filter_eq_none_iff] at h
    have hlow := h _ rfl
    rw [decide_eq_true_eq, not_lt, ratioFloor, Nat.le_min] at hlow
    have hmul := (Nat.le_div_iff_mul_le (Nat.pos_of_ne_zero hz)).mp hlow.1
    have hassoc : 2000 * data.downloaded = 2 * data.downloaded * 1000 := by ring
    exact Nat.le_of_mul_le_mul_right (hassoc ▸ hmul) (by decide)

/-- The torrents counted against the unsatisfied limit, the reserve, and the one
to admit; counting stops at the largest 32-bit number. -/
def unsatisfiedWith (summary : SnatchSummary) (recent : Nat) : Nat :=
  min (summary.unsatisfied + recent + 1 + unsatisfiedReserve) u32Max

theorem admitsOneMore_counted {summary : SnatchSummary} {recent : Nat}
    (h : UnsatisfiedLimit.admitsOneMore summary.unsatisfiedLimit
      (summary.unsatisfied.plus (min recent u32Max))
      unsatisfiedReserve) : unsatisfiedWith summary recent ≤ summary.unsatisfiedLimit := by
  unfold UnsatisfiedLimit.admitsOneMore UnsatisfiedCount.plus at h
  rw [decide_eq_true_eq] at h
  refine le_trans (le_of_eq ?_) h
  unfold unsatisfiedWith satAdd
  omega

theorem unsatisfiedWith_exact {summary : SnatchSummary} {recent limit : Nat}
    (h : unsatisfiedWith summary recent ≤ limit)
    (hl : limit < u32Max) : summary.unsatisfied + recent + 1 + unsatisfiedReserve ≤ limit := by
  rcases min_le_iff.mp h with h | h
  · exact h
  · exact absurd hl (not_lt.mpr h)

end

/-! ## A step that admits -/

def Handled.deciding (e : Handled) : Core := e.before.received e.input.occurredAt e.input.event

def Handled.AdmitsRow (e : Handled) (id : MamTorrentId) : Prop :=
  e.deciding.registry.isQueued id ∧ ∃ wedge, Sends e (.fetchTorrent id wedge)

section
variable {r : Records} {id : MamTorrentId}

theorem candidate_cases {a : Acquisition} {queued : List MamTorrentId} {bookmark : Bookmark}
    (h : a.candidate queued = some bookmark) :
    bookmark.id ∈ queued ∧ a.bookmarks.find bookmark.id = some bookmark ∧
      ∀ lookup, a.lookups[bookmark.id]? = some lookup → lookup.listing.isSome := by
  unfold Acquisition.candidate at h
  obtain ⟨id, hid, hfind⟩ := List.exists_of_findSome?_eq_some h
  obtain ⟨hb, hl⟩ := Option.filter_eq_some_iff.mp hfind
  have heq : bookmark.id = id := by
    unfold Bookmarks.find at hb
    obtain ⟨listed, -, hb⟩ := Option.bind_eq_some_iff.mp hb
    unfold Listed.find at hb
    have hb' := List.find?_some hb
    exact beq_iff_eq.mp hb'
  refine ⟨heq ▸ hid, heq ▸ hb, ?_⟩
  intro lookup hlookup
  rw [heq] at hlookup
  rw [hlookup] at hl
  cases hlisting : lookup.listing with
  | some listing => rfl
  | none => simp [hlisting] at hl

theorem admits_queued {a : Acquisition} {queued : List MamTorrentId} {facts : Facts} {wedge : Wedge}
    {bookmark : Bookmark} {data : UserData} (h : a.Admits queued facts id wedge bookmark data) :
    id ∈ queued := by
  rw [← h.bookmark]
  exact (candidate_cases h.candidate).1

end

section
variable {c : Core} {i : TimedEvent} {id : MamTorrentId} {wedge : Wedge}

/-- A queued row is fetched by admission, never by the watch over running
downloads. -/
theorem admission_of_queued (hs : (c.received i.occurredAt i.event).registry.Sound)
    (hq : (c.received i.occurredAt i.event).registry.isQueued id)
    (h : Sends (core.entry c i) (.fetchTorrent id wedge)) :
    ∃ records bookmark data, (c.received i.occurredAt i.event).registry = .loaded records ∧
      (c.surveyed i.occurredAt i.event).acquisition.Admits records.queued
      (c.admissionFacts i.occurredAt i.event) id
        wedge bookmark data := by
  obtain ⟨cookie, h⟩ := h
  obtain ⟨-, ⟨-, download, data, hw, rfl, -⟩ | hadmits⟩ := fetch_cases h
  · obtain ⟨-, records, hrec, hdown⟩ := surveyed_watched hw
    obtain ⟨row, hrow, hrun⟩ := (hs records hrec).live.running hdown
    rw [hrec] at hq
    have hqueued : row.desired = .queued := by
      simpa [Registry.isQueued, Registry.records?, hrow] using hq
    rw [hqueued] at hrun
    rcases hrun with hrun | hrun
    · cases hrun
    · cases hrun
  · exact hadmits

end

/-- The downloads Windlass added that qBittorrent added in the last hour, or has
not added yet. -/
def Records.recent (r : Records) (wall : SystemTime) : Nat :=
  (r.downloads.filter fun download => download.recent wall).length

section
variable {c : Core} {now : ClockReading} {event : Event}

theorem handle_decided : (c.handle now event).1.mam.seedbox = (c.surveyed now event).seedbox ∧
    (c.handle now event).1.mam.network.current = (c.surveyed now event).network.current ∧
    (c.handle now event).1.mam.ratioGuard = (c.surveyed now event).ratioGuard := by
  obtain ⟨wake, h⟩ := handle_mam c now event
  rw [h, Core.sending, send_frame, prepared_eq]
  exact ⟨rfl, rfl, rfl⟩

theorem surveyed_confirms
    (h : (c.surveyed now event).seedbox.confirms (c.connected now event).network.current = .confirmed) :
    (c.surveyed now event).network.current = (c.connected now event).network.current := by
  obtain ⟨hn, -⟩ | ⟨-, hs⟩ := survey_unconfirms (c.connected now event) now (c.received now event).context
  · exact congrArg Network.current hn
  · have hs' : (c.surveyed now event).seedbox = (c.connected now event).seedbox.unconfirm := hs
    rw [hs'] at h
    cases h

theorem surveyed_client : (c.surveyed now event).client =
    (c.received now event).mam.account.clientStanding (c.received now event).context.clientVersion := by
  have ha : (c.connected now event).account = (c.received now event).mam.account := by
    unfold Core.connected
    rw [connect_frame]
  rw [← ha]
  unfold Core.surveyed Core.connected
  simp only [Mam.survey]
  rw [watchDownloads_frame]
  unfold Mam.followConnectability
  dsimp only
  split <;> rfl

theorem admissionFacts_recent {records : Records}
    (h : (c.received now event).registry = .loaded records) :
    (c.admissionFacts now event).recent = min (records.recent now.wall) u32Max := by
  have hr : (c.received now event).context.registry = .loaded records := h
  unfold Core.admissionFacts Mam.facts
  simp only [Mam.survey]
  unfold Mam.watchDownloads
  rw [hr]
  rfl

theorem admissionFacts_downloading {records : Records}
    (h : (c.received now event).registry = .loaded records)
    (hl : (c.admissionFacts now event).downloading <
      (c.admissionFacts now event).downloadingLimit.torrents) :
    (records.downloads.filter Download.isDownloading).length <
      (c.received now event).context.downloadingLimit.torrents := by
  have hr : (c.received now event).context.registry = .loaded records := h
  have hlt : min (records.downloads.filter Download.isDownloading).length u32Max <
      (c.received now event).context.downloadingLimit.torrents := by
    have hd : (c.admissionFacts now event).downloading =
      (c.received now event).context.registry.downloading := rfl
    rw [hd, hr] at hl
    exact hl
  have hmax := (c.received now event).context.downloadingLimit.valid.2
  rcases min_lt_iff.mp hlt with hlt | hlt
  · exact hlt
  · exact absurd (hlt.trans_le hmax) (by decide)

theorem context_ready (h : (c.received now event).context.readiness = .ready) :
    ∃ session, (c.received now event).qbittorrent.session = some session ∧ session.listed ∧
      session.approval ≠ .notAllowed := by
  unfold Core.context at h
  dsimp only at h
  split at h
  · next hany =>
    obtain ⟨session, hs, hok⟩ := (Option.any_eq_true _ _).mp hany
    rw [Bool.and_eq_true, bne_iff_ne] at hok
    exact ⟨session, hs, hok⟩
  · cases h

structure Core.Admitting (c : Core) (now : ClockReading) (event : Event) (records : Records)
    (data : UserData)
    (summary : SnatchSummary) : Prop where
  loaded : (c.received now event).registry = .loaded records
  seedbox : (c.handle now event).1.mam.seedbox.confirms (c.handle now event).1.mam.network.current =
    .confirmed
  guard : ∃ figure, (c.handle now event).1.mam.ratioGuard = .watching figure
  client : ∃ session, (c.received now event).qbittorrent.session = some session ∧ session.listed ∧
    session.approval ≠ .notAllowed
  listed : ((c.received now event).mam.account.clientStanding
    (c.received now event).context.clientVersion).admits
  downloading : (records.downloads.filter Download.isDownloading).length <
    (c.received now event).context.downloadingLimit.torrents
  ratio : data.downloaded = 0 ∨ 2 * data.downloaded ≤ data.uploaded
  shown : data.summary = some summary
  unsatisfied : unsatisfiedWith summary (records.recent now.wall) ≤ summary.unsatisfiedLimit

theorem admits_admitting {records : Records} {id : MamTorrentId} {wedge : Wedge}
    {bookmark : Bookmark} {data : UserData}
    (hr : (c.received now event).registry = .loaded records)
    (h : (c.surveyed now event).acquisition.Admits records.queued (c.admissionFacts now event) id
      wedge bookmark data) :
    ∃ summary, c.Admitting now event records data summary := by
  have hclear := obstacle_clear h.obstacle
  have hfacts : (c.surveyed now event).seedbox.confirms (c.connected now event).network.current =
      .confirmed :=
    hclear.seedbox
  obtain ⟨hseedbox, hnetwork, hguard⟩ := @handle_decided c now event
  obtain ⟨reading, hreading, -, -, rfl⟩ := fresh_cases h.fresh
  have hdata : (c.admissionFacts now event).account.data = some reading.data := by
    unfold Account.data
    rw [hreading]
    rfl
  have hacc := h.account
  unfold accountObstacle at hacc
  split at hacc
  · cases hacc
  next hadmits =>
  split at hacc
  · cases hacc
  next hratio =>
  split at hacc
  · cases hacc
  next summary hsummary =>
  dsimp only at hacc
  split at hacc
  · cases hacc
  next hone =>
  refine ⟨summary, ?_⟩
  refine
    { loaded := hr
      seedbox := by rw [hseedbox, hnetwork, surveyed_confirms hfacts, hfacts]
      guard := by rw [hguard]; exact hclear.guard
      client := context_ready hclear.readiness
      listed := ?_
      downloading := admissionFacts_downloading hr hclear.limit
      ratio := ratio_kept hdata (by simpa using hratio)
      shown := hsummary
      unsatisfied := ?_ }
  · have hc : (c.admissionFacts now event).client = (c.surveyed now event).client := rfl
    rw [← surveyed_client, ← hc]
    simpa using hadmits
  · rw [admissionFacts_recent hr] at hone
    exact admitsOneMore_counted (by simpa using hone)

end

/-! ## Admissions and refusals on record -/

def Handled.ReplacesCookie (e : Handled) : Prop :=
  e.deciding.context.requestedCookie ≠ e.deciding.mam.cookieInUse ∧
    e.deciding.context.requestedCookie ≠ e.deciding.mam.issuedCookie

structure AdmissionInv (tr : List Handled) (c : Core) : Prop where
  admitted : ∀ e ∈ tr, ∀ id, e.AdmitsRow id →
    ∃ last, c.mam.acquisition.lastAdmission = some last ∧ e.time ≤ last
  refused : ∀ older g newer, tr = older ++ g :: newer → g.RefusesDownload →
    (∀ x ∈ g :: newer, ¬ x.ReplacesCookie) →
    c.mam.acquisition.refused.isSome

section
variable {tr : List Handled} {c : Core} {i : TimedEvent}

theorem lastAdmission_step (c : Core) (i : TimedEvent) :
    ((∀ id, ¬ Handled.AdmitsRow (core.entry c i) id) ∧
      (core.step c i).1.mam.acquisition.lastAdmission = c.mam.acquisition.lastAdmission) ∨
    (∃ id, Handled.AdmitsRow (core.entry c i) id) ∧
      (core.step c i).1.mam.acquisition.lastAdmission = some i.occurredAt.monotonic := by
  have hkept : (c.prepared i.occurredAt i.event).acquisition.lastAdmission =
      c.mam.acquisition.lastAdmission := by
    rw [prepared_eq]
    unfold Mam.noteHold
    dsimp only
    rw [surveyed_acquisition]
    exact (received_receives c i.occurredAt i.event).lastAdmission
  obtain ⟨hreq, budget, slot, wake, hmam⟩ | ⟨request, -, hreq, budget, slot, wake, hmam⟩ :=
    handle_recorded c i.occurredAt i.event
  · refine .inl ⟨?_, by rw [core_step, hmam]; exact hkept⟩
    rintro id ⟨-, wedge, cookie, hmem⟩
    rw [entry_out, ← mem_requests, hreq] at hmem
    cases sentAtOnce_register hmem
  · have hsent : ∀ id wedge, Sends (core.entry c i) (.fetchTorrent id wedge) →
      request = .fetchTorrent id wedge := by
      rintro id wedge ⟨cookie, hmem⟩
      rw [entry_out, ← mem_requests, hreq, List.mem_singleton] at hmem
      cases hmem
      rfl
    by_cases hfetch : ∃ id, Handled.AdmitsRow (core.entry c i) id
    · obtain ⟨id, hq, wedge, hs⟩ := hfetch
      refine .inr ⟨⟨id, hq, wedge, hs⟩, ?_⟩
      have hq' : (c.received i.occurredAt i.event).registry.isQueued id := hq
      rw [core_step, hmam, hsent id wedge hs]
      simp [Mam.recordSent, Acquisition.fetch, hq']
    · refine .inl ⟨fun id h => hfetch ⟨id, h⟩, ?_⟩
      rw [core_step, hmam]
      unfold Mam.recordSent
      split
      · exact hkept
      · exact hkept
      · exact hkept
      · next id wedge =>
        have hq : (c.received i.occurredAt i.event).registry.isQueued id = false := by
          by_contra hq
          rw [Bool.not_eq_false] at hq
          have hsend : Sends (core.entry c i) (.fetchTorrent id wedge) :=
            ⟨_, mem_requests.mp (by rw [entry_out, hreq]; exact List.mem_singleton_self _)⟩
          exact hfetch ⟨id, hq, wedge, hsend⟩
        simp [Acquisition.fetch, hq, hkept]
      · exact hkept

theorem refused_step (h : ¬ Handled.ReplacesCookie (core.entry c i)) :
    (core.step c i).1.mam.acquisition.refused =
      refusedAnswered i.occurredAt (c.mam.accepted i.event) c.mam.acquisition.refused := by
  have hcookie : (c.received i.occurredAt i.event).context.requestedCookie =
        (c.received i.occurredAt i.event).mam.cookieInUse ∨
      (c.received i.occurredAt i.event).context.requestedCookie =
      (c.received i.occurredAt i.event).mam.issuedCookie := by
    by_contra hno
    rw [not_or] at hno
    exact h hno
  rw [core_step, handle_refused, ← received_downloadsRefused]
  exact connect_refused hcookie

theorem admissionInv_step (hs : Steady (tr ++ [core.entry c i])) (hi : AdmissionInv tr c) :
    AdmissionInv (tr ++ [core.entry c i]) (core.step c i).1 := by
  have hnow : ∀ e ∈ tr, e.time ≤ i.occurredAt.monotonic :=
    fun e he => (List.pairwise_append.mp hs).2.2 e he _ (List.mem_singleton_self _)
  refine ⟨?_, ?_⟩
  · intro e he id had
    rw [List.mem_append, List.mem_singleton] at he
    obtain ⟨hno, hlast⟩ | ⟨-, hlast⟩ := lastAdmission_step c i
    · rw [hlast]
      obtain he | rfl := he
      · exact hi.admitted e he id had
      · exact absurd had (hno id)
    · rw [hlast]
      obtain he | rfl := he
      · exact ⟨_, rfl, hnow e he⟩
      · exact ⟨_, rfl, le_rfl⟩
  · intro older g newer hsplit href hno
    obtain ⟨rfl, rfl, rfl⟩ | ⟨rest, rfl, rfl⟩ := Reactive.snoc_split hsplit
    · rw [refused_step (hno _ List.mem_cons_self)]
      obtain ⟨id, wedge, message, ha⟩ := href
      have ha' : c.mam.accepted i.event = _ := ha
      rw [ha']
      rfl
    · rw [refused_step (hno _ (by simp))]
      have hprev := hi.refused older g rest rfl href fun x hx => hno x (by
        rw [← List.cons_append]
        exact List.mem_append_left _ hx)
      unfold refusedAnswered
      split
      · rfl
      · exact hprev

theorem admissionInv_init : AdmissionInv [] Core.new where
  admitted := by intro e he; cases he
  refused := by intro older g newer h; simp at h

theorem admissionInv_run (is : List TimedEvent) (hs : Steady (core.run is)) :
    AdmissionInv (core.run is) (core.last is) :=
  Reactive.run_invariant core (fun _ _ h => (List.pairwise_append.mp h).1) admissionInv_init
    (fun _ _ _ hi hs => admissionInv_step hs hi) is hs

end

/-! ## Admissions over a run -/

/-- The reading an admission rests on, after the steps `pre`: it is the latest, it
is recent, and it was asked for once every earlier admission was answered. -/
def ReadForAdmission (pre : List Handled) (f : Handled) (data : UserData) : Prop :=
  ∃ older h mid r newer clients, pre ++ [f] = older ++ h :: (mid ++ r :: newer) ∧
    Sends h (.loadUserData clients) ∧ Handled.Reads r clients data ∧
    (∀ x ∈ newer, ∀ clients data, ¬ Handled.Reads x clients data) ∧ f.time ≤ r.time + accountFreshFor ∧
    ∀ pre' b mid' id wedge, pre = pre' ++ b :: mid' → Handled.AdmitsRow b id →
    Sends b (.fetchTorrent id wedge) →
      ∃ l g l' result, older ++ [h] = pre' ++ b :: (l ++ g :: l') ∧
        Handled.answer g = some (.fetchTorrent id wedge, result)

/-- What an admission at the step `f`, after the steps `pre`, relied on. -/
structure AdmittedOn (pre : List Handled) (f : Handled) (records : Records) (data : UserData)
    (summary : SnatchSummary) : Prop where
  state : f.before.Admitting f.input.occurredAt f.input.event records data summary
  unrefused : ∀ older g newer, pre ++ [f] = older ++ g :: newer → Handled.RefusesDownload g →
    ∃ x ∈ g :: newer, Handled.ReplacesCookie x
  reading : ReadForAdmission pre f data

section
variable {js : List TimedEvent} {i : TimedEvent}

theorem fetch_answered {g : Handled} {id : MamTorrentId} {wedge : Wedge} {sent : Instant}
    {epoch : ConnectionEpoch}
    (h : g.before.mam.outstanding = some (.request (.fetchTorrent id wedge) sent epoch))
    (ha : g.input.event.isAnswer) : ∃ result, g.answer = some (.fetchTorrent id wedge, result) := by
  obtain ⟨result, rotated, hev⟩ := isAnswer_iff.mp ha
  refine ⟨result, ?_⟩
  unfold Handled.answer Mam.accepted
  simp [hev, h, MamRequest.recordsSpend]

theorem admission_read (hs : Steady (core.run js ++ [core.entry (core.last js) i])) {reading : Reading}
    (hreading : ((core.last js).received i.occurredAt i.event).mam.account.reading = some reading)
    (hage : i.occurredAt.monotonic.durationSince reading.taken ≤ accountFreshFor)
    (hsince : ∀ last, (core.last js).mam.acquisition.lastAdmission = some last → last < reading.taken) :
    ReadForAdmission (core.run js) (core.entry (core.last js) i) reading.data := by
  have hi := admissionInv_run js (List.pairwise_append.mp hs).1
  have hafter : (core.step (core.last js) i).1.mam.account.reading = some reading := by
    rw [core_step, handle_account]
    exact hreading
  obtain ⟨older, mid, newer, h, r, hread⟩ := (sourceInv_step (sourceInv_run js)).reading reading hafter
  obtain ⟨clients, hsends, hreads⟩ := hread.asked
  have hfresh : i.occurredAt.monotonic ≤ r.time + accountFreshFor := by
    rw [hread.taken]
    exact Instant.le_add_of_durationSince hage
  refine ⟨older, h, mid, r, newer, clients, hread.split, hsends, hreads, hread.latest, hfresh, ?_⟩
  intro pre' b mid' id wedge hsplit hb hfetch
  have hmemb : b ∈ core.run js := by rw [hsplit]; simp
  obtain ⟨last, hlast, hle⟩ := hi.admitted b hmemb id hb
  have hne : b ≠ h := by
    rintro rfl
    cases sends_unique hmemb hfetch hsends
  have hwhole : core.run js ++ [core.entry (core.last js) i] = pre' ++ b ::
      (mid' ++ [core.entry (core.last js) i]) := by
    rw [hsplit]
    simp
  obtain ⟨m, rfl, hm⟩ :=
    hread.after hs hwhole hfetch.requests_ne_nil hne (hle.trans_lt (hsince last hlast))
  have hrun : core.run (js ++ [i]) = pre' ++ b :: (m ++ h :: (mid ++ r :: newer)) := by
    rw [Reactive.run_snoc, hwhole, hm]
  obtain ⟨l, g, l', epoch, hcut, hans, hout⟩ := answered_between hrun hfetch hsends.requests_ne_nil
  obtain ⟨result, ha⟩ := fetch_answered hout hans
  refine ⟨l, g, l', result, ?_, ha⟩
  rw [List.append_assoc, List.cons_append, hcut]

theorem admission_checked (hs : Steady (core.run js ++ [core.entry (core.last js) i]))
    (hread : ReadsStored (js ++ [i]))
    {id : MamTorrentId} (hf : Handled.AdmitsRow (core.entry (core.last js) i) id) :
    ∃ records data summary,
      AdmittedOn (core.run js) (core.entry (core.last js) i) records data summary := by
  obtain ⟨hq, wedge, hsend⟩ := hf
  have hsound : ((core.last js).received i.occurredAt i.event).registry.Sound :=
    received_sound (registry_sound fun j hj => hread j (List.mem_append_left _ hj))
      (hread i (List.mem_append_right _ List.mem_cons_self))
  obtain ⟨records, bookmark, data, hrec, hadmits⟩ := admission_of_queued hsound hq hsend
  obtain ⟨summary, hstate⟩ := admits_admitting hrec hadmits
  have hfresh := hadmits.fresh
  have hfacts : ((core.last js).admissionFacts i.occurredAt i.event).account.fresh i.occurredAt.monotonic
      ((core.last js).surveyed i.occurredAt i.event).acquisition.lastAdmission = some data := hfresh
  have haccount : ((core.last js).admissionFacts i.occurredAt i.event).account =
      ((core.last js).surveyed i.occurredAt i.event).account := rfl
  rw [haccount, surveyed_fresh] at hfacts
  obtain ⟨reading, hreading, hage, hsince, rfl⟩ := fresh_cases hfacts
  refine ⟨records, reading.data, summary, hstate, ?_, admission_read hs hreading hage ?_⟩
  · intro older g newer hsplit href
    by_contra hno
    have hinv := (admissionInv_step hs (admissionInv_run js (List.pairwise_append.mp hs).1)).refused
      older g newer
      hsplit href fun x hx hrep => hno ⟨x, hx, hrep⟩
    have hnone := obstacle_refused hadmits.obstacle
    rw [surveyed_refused, ← handle_refused] at hnone
    rw [core_step, hnone] at hinv
    cases hinv
  · intro last hlast
    refine hsince last ?_
    rw [surveyed_acquisition]
    exact (received_receives (core.last js) i.occurredAt i.event).lastAdmission.trans hlast

end

theorem admissions_checked {is : List TimedEvent} (hs : Steady (core.run is)) (hread : ReadsStored is)
    {pre post : List Handled} {f : Handled} (hrun : core.run is = pre ++ f :: post) {id : MamTorrentId}
    (hf : f.AdmitsRow id) : ∃ records data summary, AdmittedOn pre f records data summary ∧
      (summary.unsatisfiedLimit < u32Max →
        summary.unsatisfied + records.recent f.input.occurredAt.wall + 1 +
        unsatisfiedReserve ≤ summary.unsatisfiedLimit) := by
  have hsteady : Steady (pre ++ [f]) := by
    rw [hrun] at hs
    have hall : Steady ((pre ++ [f]) ++ post) := by simpa using hs
    exact (List.pairwise_append.mp hall).1
  obtain ⟨js, i, ks, his, rfl, rfl, -⟩ := Reactive.run_split core hrun
  have hstored : ReadsStored (js ++ [i]) := by
    intro j hj
    refine hread j ?_
    rw [his]
    simp only [List.mem_append, List.mem_cons, List.not_mem_nil, or_false] at hj ⊢
    tauto
  obtain ⟨records, data, summary, hon⟩ := admission_checked hsteady hstored hf
  exact ⟨records, data, summary, hon, unsatisfiedWith_exact hon.state.unsatisfied⟩

theorem free_row_admitted :
    Handled.AdmitsRow (core.entry (core.last (admittingEvents [])) (replyAt 65 freePage)) 5 ∧
    ∃ records data summary, AdmittedOn (core.run (admittingEvents []))
      (core.entry (core.last (admittingEvents [])) (replyAt 65 freePage)) records data summary ∧
      (summary.unsatisfiedLimit < u32Max →
        summary.unsatisfied + records.recent (replyAt 65 freePage).occurredAt.wall + 1 +
        unsatisfiedReserve ≤
          summary.unsatisfiedLimit) := by
  have hadmits : Handled.AdmitsRow
      (core.entry (core.last (admittingEvents [])) (replyAt 65 freePage)) 5 :=
    ⟨by decide +kernel, .keep, some savedCookie, by decide +kernel⟩
  have hsteady : Steady (core.run (admittingEvents [] ++ [replyAt 65 freePage])) :=
    steady_iff.mpr (by decide +kernel)
  have hrun : core.run (admittingEvents [] ++ [replyAt 65 freePage]) = core.run (admittingEvents []) ++
      core.entry (core.last (admittingEvents [])) (replyAt 65 freePage) :: [] :=
    Reactive.run_snoc core (admittingEvents []) (replyAt 65 freePage)
  exact ⟨hadmits, admissions_checked hsteady (readsStored_of_short (by decide +kernel)) hrun hadmits⟩

def countlessData : UserData :=
  -- an account with as many unsatisfied torrents as a 32-bit number can count
  { accountData with
    summary := accountData.summary.map fun summary =>
      { summary with unsatisfied := u32Max, unsatisfiedLimit := u32Max } }

def countlessEvents : List TimedEvent :=
  (admittingEvents []).dropLast ++ [replyAt 64 (.userData countlessData)]

theorem admitted_over_the_limit :
    ∃ (pre post : List Handled) (f : Handled) (records : Records) (data : UserData)
    (summary : SnatchSummary), core.run (countlessEvents ++ [replyAt 65 freePage]) = pre ++ f :: post ∧
    Steady (pre ++ f :: post) ∧ f.AdmitsRow 5 ∧ f.deciding.registry = .loaded records ∧
    f.after.mam.account.data = some data ∧ data.summary = some summary ∧
    summary.unsatisfiedLimit <
    summary.unsatisfied + records.recent f.input.occurredAt.wall + 1 + unsatisfiedReserve := by
  have hrun := Reactive.run_snoc core countlessEvents (replyAt 65 freePage)
  have hsteady : Steady (core.run (countlessEvents ++ [replyAt 65 freePage])) :=
    steady_iff.mpr (by decide +kernel)
  have hdata : (core.entry (core.last countlessEvents) (replyAt 65 freePage)).after.mam.account.data =
      some countlessData := by decide +kernel
  have hloaded : (Handled.deciding
      (core.entry (core.last countlessEvents) (replyAt 65 freePage))).registry.records?.isSome := by
    decide +kernel
  obtain ⟨records, hrec⟩ := Option.isSome_iff_exists.mp hloaded
  refine ⟨_, [], _, records, countlessData, _, hrun, hrun ▸ hsteady, ?_, ?_, hdata, rfl, ?_⟩
  · exact ⟨by decide +kernel, .keep, some savedCookie, by decide +kernel⟩
  · generalize (Handled.deciding
      (core.entry (core.last countlessEvents) (replyAt 65 freePage))).registry = g at hrec ⊢
    cases g with
    | loaded r =>
      cases hrec
      rfl
    | _ => cases hrec
  · have hlt : ∀ recent : Nat, u32Max < u32Max + recent + 1 + unsatisfiedReserve := by
      intro recent
      omega
    exact hlt _

end Windlass
