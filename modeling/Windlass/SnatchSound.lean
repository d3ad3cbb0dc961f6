import Windlass.AdmissionSound

/-!
# Snatched torrents wait for the owner

Once MAM is known to report a torrent snatched, no row of it is queued under the
owner's bookmark: the queued row becomes a snatched one, no second row is made,
and only the owner queues it again. Only a queued row is admitted, so what the
watch over running downloads spends on a row that runs is all that is fetched.
-/

namespace Windlass

/-! ## Rows that wait -/

structure Records.Waits (r : Records) (mam : MamTorrentId) : Prop where
  known : ∃ id, r.byMam[mam]? = some id
  unqueued : ∀ (id : RecordId) (entry : Entry), r.entries[id]? = some entry →
    entry.record.identity.mamId = some mam →
    entry.record.desired = .queued → entry.record.origin ≠ .bookmark

section
variable {r r' : Records} {mam : MamTorrentId}

theorem Records.Turn.still_known (ht : r.Turn r') (h : ∃ id, r.byMam[mam]? = some id) :
    ∃ id, r'.byMam[mam]? = some id := by
  obtain ⟨id, hid⟩ := h
  obtain hk | ⟨hk, -⟩ := ht.known hid
  · exact ⟨id, hk⟩
  · exact hk

theorem Records.Turned.still_known (ht : r.Turned r') (h : ∃ id, r.byMam[mam]? = some id) :
    ∃ id, r'.byMam[mam]? = some id := by
  induction ht with
  | refl => exact h
  | tail _ ht ih => exact ht.still_known ih

theorem Records.Turn.waits (ht : r.Turn r') (h : r.Waits mam) : r'.Waits mam := by
  refine ⟨ht.still_known h.known, ?_⟩
  intro id entry' he' hm hq hbook
  obtain ⟨entry, he, hi, ho, hd⟩ | ⟨mam', hn, hi, -⟩ | ⟨hash, hi⟩ | ⟨entry, he, hi, -, hd⟩ | ⟨entry,
    he, hi, -, ho⟩ |
    ⟨entry, he, hi, -, hd⟩ | hd | ⟨mam', hash, hi, hd, -⟩ := ht.rows he'
  · exact h.unqueued id entry he (hi ▸ hm) (hd ▸ hq) (ho ▸ hbook)
  · rw [hi] at hm
    cases hm
    obtain ⟨id', hid'⟩ := h.known
    rw [hn] at hid'
    cases hid'
  · rw [hi] at hm
    cases hm
  · rw [hq] at hd
    cases hd
  · rw [hbook] at ho
    cases ho
  · rw [hq] at hd
    rcases hd with hd | hd
    · cases hd
    · cases hd
  · rw [hq] at hd
    cases hd
  · rw [hq] at hd
    cases hd

theorem Records.Turned.waits (ht : r.Turned r') (h : r.Waits mam) : r'.Waits mam := by
  induction ht with
  | refl => exact h
  | tail _ ht ih => exact ht.waits ih

/-- A row of a torrent that is not the one the torrent is known by is history. -/
theorem Records.Live.other_row (h : r.Live) {id : RecordId} {entry : Entry}
    (he : r.entries[id]? = some entry)
    (hm : entry.record.identity.mamId = some mam) (hne : r.byMam[mam]? ≠ some id) :
    entry.record.desired = .removed := by
  by_contra hd
  exact hne (h id entry mam he hm hd)

theorem snatched_waits (h : r.Live) (hk : ∃ id, r.byMam[mam]? = some id) (now : Instant) :
    (r.snatched now mam).1.Waits mam := by
  obtain ⟨row, hrow⟩ := hk
  have hsaved : ∀ r' : Records, r'.Waits mam → (r'.save now).1.Waits mam :=
    fun r' h' => (Records.Turn.saved now).waits h'
  unfold Records.snatched
  rw [hrow]
  refine hsaved _ ?_
  cases hf : (some row).filter fun id => r.entries[id]?.any fun entry =>
      entry.record.desired == .queued && entry.record.origin == .bookmark with
  | some id =>
    obtain ⟨hid, -⟩ := Option.filter_eq_some_iff.mp hf
    cases hid
    refine ⟨⟨row, hrow⟩, ?_⟩
    intro id entry' he' hm hq
    obtain ⟨entry, he, hi, -, hd⟩ := setDesired_entries he'
    split at hd
    · rw [hq] at hd
      cases hd
    · next hne =>
      have hgone := h.other_row he (hi ▸ hm) (by
        rw [hrow]
        intro heq
        exact hne (Option.some.inj heq))
      rw [hq, hgone] at hd
      cases hd
  | none =>
    refine ⟨⟨row, hrow⟩, ?_⟩
    intro id entry he hm hq hbook
    by_cases hid : row = id
    · subst hid
      rw [Option.filter_eq_none_iff] at hf
      exact hf row rfl (by simp [he, hq, hbook])
    · have hgone := h.other_row he hm (by
        rw [hrow]
        intro heq
        exact hid (Option.some.inj heq))
      rw [hq] at hgone
      cases hgone

theorem snatchedAll_waits (h : r.Live) (hk : ∃ id, r.byMam[mam]? = some id) (now : Instant)
    {bookmarks : List Bookmark}
    {bookmark : Bookmark} (hb : bookmark ∈ bookmarks) (hid : bookmark.id = mam)
    (hs : bookmark.snatched = .before) :
    (r.snatchedAll now bookmarks).1.Waits mam := by
  rw [snatchedAll_rows]
  -- a later bookmark of the listing leaves the row waiting
  induction bookmarks generalizing r with
  | nil => cases hb
  | cons b bookmarks ih =>
    have hstep : ∀ (r : Records) (b : Bookmark),
        r.Turned (if b.snatched = .before then (r.snatched now b.id).1 else r) := by
      intro r b
      split
      · exact snatched_turned r now b.id
      · exact .refl r
    rw [List.foldl_cons]
    rw [List.mem_cons] at hb
    obtain rfl | hb := hb
    · subst hid
      rw [if_pos hs]
      exact (turned_foldl _ hstep bookmarks).waits (snatched_waits h hk now)
    · exact ih ((hstep r b).live h) ((hstep r b).still_known hk) hb

theorem snatched_byMam (r : Records) (now : Instant) (mam : MamTorrentId) :
    (r.snatched now mam).1.byMam = r.byMam := by
  unfold Records.snatched
  rw [save_byMam]
  split <;> rfl

theorem snatchedAll_byMam (r : Records) (now : Instant) (bookmarks : List Bookmark) :
    (r.snatchedAll now bookmarks).1.byMam = r.byMam := by
  rw [snatchedAll_rows]
  induction bookmarks generalizing r with
  | nil => rfl
  | cons bookmark bookmarks ih =>
    rw [List.foldl_cons, ih]
    split
    · exact snatched_byMam r now bookmark.id
    · rfl

/-! ## Rows made by a listing -/

structure Records.Unknown (r : Records) (mam : MamTorrentId) : Prop where
  unknown : r.byMam[mam]? = none
  unqueued : ∀ (id : RecordId) (entry : Entry), r.entries[id]? = some entry →
    entry.record.identity.mamId = some mam →
    entry.record.desired ≠ .queued

theorem Records.Live.unknown (h : r.Live) (hn : r.byMam[mam]? = none) : r.Unknown mam := by
  refine ⟨hn, ?_⟩
  intro id entry he hm hq
  have hgone := h.other_row he hm (by rw [hn]; simp)
  rw [hq] at hgone
  cases hgone

theorem bookmark_new {desired : Desired} (h : r.Unknown mam) :
    r.bookmark (mam, desired) =
      { r with
        nextId := r.nextId.after
        byMam := r.byMam.insert mam r.nextId
        entries := r.entries.insert r.nextId (Entry.new
          { id := r.nextId
            identity := .mam mam
            origin := .bookmark
            desired := desired
            savePath := none
            deletion := .notAllowed
            observation := none })
        unsaved := r.unsaved.insert r.nextId } := by
  unfold Records.bookmark
  dsimp only
  rw [if_neg (by rw [Std.ExtTreeMap.contains_eq_isSome_getElem?, h.unknown]; simp)]
  rfl

theorem bookmark_snatched (h : r.Unknown mam) : (r.bookmark (mam, .snatched)).Waits mam := by
  rw [bookmark_new h]
  refine ⟨⟨r.nextId, by simp⟩, ?_⟩
  intro id entry he hm hq
  obtain ⟨-, rfl⟩ | ⟨-, he⟩ := insert_entries he
  · cases hq
  · exact absurd hq (h.unqueued id entry he hm)

theorem bookmark_unknown (h : r.Unknown mam) {new : MamTorrentId × Desired} (hne : new.1 ≠ mam) :
    (r.bookmark new).Unknown mam := by
  obtain ⟨mam', desired⟩ := new
  unfold Records.bookmark
  dsimp only
  split
  · exact h
  · refine ⟨?_, ?_⟩
    · rw [Std.ExtTreeMap.getElem?_insert, if_neg (by simpa using hne)]
      exact h.unknown
    · intro id entry he hm
      obtain ⟨-, rfl⟩ | ⟨-, he⟩ := insert_entries he
      · exact absurd (Option.some.inj hm) hne
      · exact h.unqueued id entry he hm

theorem bookmark_foldl_waits (h : r.Unknown mam) {new : List (MamTorrentId × Desired)}
    (hnew : (new.find? fun p => p.1 == mam) = some (mam, .snatched)) :
    (new.foldl Records.bookmark r).Waits mam := by
  induction new generalizing r with
  | nil => cases hnew
  | cons p new ih =>
    rw [List.foldl_cons]
    rw [List.find?_cons] at hnew
    by_cases hp : p.1 = mam
    · rw [beq_iff_eq.mpr hp] at hnew
      cases hnew
      exact (turned_foldl _ (fun r new => (Records.Turn.bookmarked new).turned) new).waits
        (bookmark_snatched h)
    · rw [beq_false_of_ne hp] at hnew
      exact ih (bookmark_unknown h hp) hnew

theorem newBookmarks_find {bookmarks : List Bookmark} {bookmark : Bookmark} (hn : r.byMam[mam]? = none)
    (hf : (bookmarks.find? fun b => b.id == mam) = some bookmark) (hs : bookmark.snatched = .before) :
    ((r.newBookmarks bookmarks).find? fun p => p.1 == mam) = some (mam, .snatched) := by
  have hunknown : r.knows mam = false := by
    unfold Records.knows
    rw [Std.ExtTreeMap.contains_eq_isSome_getElem?, hn]
    rfl
  unfold Records.newBookmarks
  simp only [List.find?_map, List.find?_filter, Function.comp_def]
  have hid : bookmark.id = mam := by
    have hp := List.find?_some hf
    exact beq_iff_eq.mp hp
  have hfind : (bookmarks.find? fun b => decide ((!r.knows b.id) = true ∧ (b.id == mam) = true)) =
      some bookmark := by
    rw [← hf]
    congr 1
    funext b
    by_cases hb : b.id = mam
    · simp [hb, hunknown]
    · simp [hb]
  rw [hfind]
  simp [hid, hs]

end

/-! ## What MAM reports -/

/-- A step whose accepted answer reports the torrent snatched: a lookup of it, or
the page that completes a listing with it, once the rows are known. -/
inductive Handled.ReportsSnatched (g : Handled) (mam : MamTorrentId) : Prop
  | lookedUp (listing : Bookmark)
      (ha : g.answer = some (.lookUpTorrent mam, .ok (.torrent (some listing))))
      (hs : listing.snatched = .before)
  | listed (start : BookmarkCount) (page : BookmarkPage) (listed : Listed) (listing : Bookmark)
      (records : Records)
      (ha : g.answer = some (.listBookmarks start, .ok (.bookmarks page)))
      (hl : (g.before.mam.acquisition.bookmarks.page g.time g.input.occurredAt.wall page).2 = some listed)
      (hf : listed.find mam = some listing) (hs : listing.snatched = .before)
      (hr : g.before.registry = .loaded records)

section
variable {c : Core} {now : ClockReading} {event : Event}

theorem accepted_registry (now : ClockReading) {request : MamRequest}
    {result : Except MamFailure MamReply}
    (h : c.mam.accepted event = some (request, result)) (hn : request.recordsSpend = false) :
    ∃ session, ((c.note event).dispatch now event).1.registry =
      (Mam.applyAnswer { c.mam with outstanding := none,
                                    session := session } now request result true c.registry).2.1 := by
  obtain ⟨sent, epoch, rotated, ho, hev⟩ := accepted_outstanding h
  have hepoch : epoch = c.mam.epoch := by
    unfold Mam.accepted at h
    rw [hev, ho] at h
    dsimp only at h
    split at h
    · next hok => simpa [hn] using hok
    · cases h
  subst hev
  obtain ⟨session, issued, -, hreg, -⟩ := requestAnswered_eq ho now result rotated c.registry
  refine ⟨session, ?_⟩
  rw [beq_iff_eq.mpr hepoch] at hreg
  exact hreg

theorem torrentAnswered_waits (m : Mam) (now : ClockReading) {mam : MamTorrentId}
    {listing : Bookmark} {records : Records}
    (hs : records.Sound) (hk : ∃ id, records.byMam[mam]? = some id) (hb : listing.snatched = .before) :
    ∃ r, (m.torrentAnswered now mam (.ok (.torrent (some listing))) (.loaded records)).2.1 =
    .loaded r ∧ r.Waits mam := by
  have hw := snatched_waits hs.live hk now.monotonic
  have hi : (Registry.loaded (records.snatched now.monotonic mam).1).Indexed := by
    intro r hr
    cases hr
    exact (snatched_turned records now.monotonic mam).indexed hs.indexed
  have ht := (followDownloads_changed (P := fun _ _ _ => True)
    { m with acquisition := m.acquisition.lookedUp now.monotonic mam (some listing) } now).turned hi
  unfold Mam.torrentAnswered
  simp only [Option.any_some, hb, beq_self_eq_true, if_true, Registry.change]
  generalize (Mam.followDownloads _ now _).2.1 = g at ht ⊢
  cases ht with
  | same => exact ⟨_, rfl, hw⟩
  | loaded ht => exact ⟨_, rfl, ht.waits hw⟩

theorem listed_waits (m : Mam) (now : ClockReading) {mam : MamTorrentId} {page : BookmarkPage}
    {listed : Listed} {listing : Bookmark}
    {records : Records} (hs : records.Sound)
    (hl : (m.acquisition.bookmarks.page now.monotonic now.wall page).2 = some listed)
    (hf : listed.find mam = some listing) (hb : listing.snatched = .before) :
    ∃ r, (m.listed now page (.loaded records)).2.1 = .loaded r ∧ r.Waits mam := by
  have hmem : listing ∈ listed.bookmarks ∧ listing.id = mam := by
    have hp := List.find?_some hf
    exact ⟨List.mem_of_find?_eq_some hf, beq_iff_eq.mp hp⟩
  generalize hr1 : (records.snatchedAll now.monotonic listed.bookmarks).1 = r1
  have ht1 : records.Turned r1 :=
    hr1 ▸ (snatchedAll_changed (P := fun _ _ _ =>
      True) records now.monotonic listed.bookmarks).turned hs.indexed
  generalize hr2 : (r1.bookmarked now.monotonic (r1.newBookmarks listed.bookmarks)).1 = r2
  have ht2 : r1.Turned r2 := hr2 ▸ (bookmarked_changed (P := fun _ _ _ => True) r1 now.monotonic _).turned
    (ht1.indexed hs.indexed)
  have hw : r2.Waits mam := by
    -- a torrent already known is marked as it is listed, a new one as it is added
    by_cases hk : ∃ id, records.byMam[mam]? = some id
    · have hw1 : r1.Waits mam := by
        rw [← hr1]
        exact snatchedAll_waits hs.live hk now.monotonic hmem.1 hmem.2 hb
      exact ht2.waits hw1
    · have hnone : r1.byMam[mam]? = none := by
        rw [← hr1, snatchedAll_byMam]
        exact Option.eq_none_iff_forall_ne_some.mpr fun id hid => hk ⟨id, hid⟩
      have hu := (ht1.live hs.live).unknown hnone
      rw [← hr2]
      exact (Records.Turn.saved now.monotonic).waits
        (bookmark_foldl_waits hu (newBookmarks_find hnone hf hb))
  have hi : (Registry.loaded r2).Indexed := by
    intro r hr
    cases hr
    exact (ht1.trans ht2).indexed hs.indexed
  have ht := (followDownloads_changed (P := fun _ _ _ => True)
    { m with acquisition.bookmarks := (m.acquisition.bookmarks.page now.monotonic now.wall page).1 }
    now).turned hi
  unfold Mam.listed
  dsimp only
  rw [hl]
  dsimp only
  rw [hr1, hr2]
  generalize (Mam.followDownloads _ now _).2.1 = g at ht ⊢
  cases ht with
  | same => exact ⟨_, rfl, hw⟩
  | loaded ht => exact ⟨_, rfl, ht.waits hw⟩

theorem lookUp_known (hs : (c.received now event).registry.Sound) {mam : MamTorrentId}
    {cookie : Option ApiCookie}
    (h : .mamRequest (.lookUpTorrent mam) cookie ∈ (c.handle now event).2) :
    ∃ r, (c.received now event).registry = .loaded r ∧ ∃ id, r.byMam[mam]? = some id := by
  have hfound : ∀ {r : Records} {row : TorrentRecord}, r.findMam mam = some row →
      ∃ id, r.byMam[mam]? = some id := by
    intro r row hrow
    obtain ⟨id, hid, -⟩ := Option.bind_eq_some_iff.mp hrow
    exact ⟨id, hid⟩
  obtain ⟨-, hreq, -⟩ | ⟨-, -, hw, -⟩ := request_cases h
  · cases hreq
  · obtain ⟨hreq, -⟩ | ⟨_, hreq, -⟩ | ⟨_, hreq, -⟩ | ⟨_, _, hreq, -⟩ | hd | ⟨records, hrec, hd⟩ :=
      decision_cases hw
    · cases hreq
    · cases hreq
    · cases hreq
    · cases hreq
    · obtain ⟨download, watch, hmem, ⟨hreq, -⟩ | ⟨hreq, -⟩ | ⟨hreq, -⟩⟩ := watchNext_cases hd
      · cases hreq
        obtain ⟨-, records, hrec, hdown⟩ := surveyed_watched hmem
        obtain ⟨row, hrow, -⟩ := (hs records hrec).live.running hdown
        exact ⟨records, hrec, hfound hrow⟩
      · cases hreq
      · cases hreq
    · obtain ⟨bookmark, data, hc, -, hadmit⟩ := next_cases hd
      obtain ⟨hreq, -⟩ | ⟨_, -, ⟨hreq, -⟩ | ⟨hreq, -⟩⟩ | ⟨hreq, -⟩ | ⟨hreq, -⟩ := admit_cases hadmit
      · cases hreq
      · cases hreq
      · cases hreq
      · cases hreq
      · cases hreq
        obtain ⟨id, entry, hid, -⟩ := (hs records hrec).live.queued (candidate_cases hc).1
        exact ⟨records, hrec, id, hid⟩

end

def Core.LookUpKnown (c : Core) : Prop :=
  ∀ mam sent epoch, c.mam.outstanding = some (.request (.lookUpTorrent mam) sent epoch) →
    ∃ r, c.registry = .loaded r ∧ ∃ id, r.byMam[mam]? = some id

structure RowsInv (c : Core) : Prop where
  sound : c.registry.Sound
  late : c.registry ≠ .unread → c.state.isEarly = false
  lookUp : c.LookUpKnown

section
variable {c : Core} {i : TimedEvent}

theorem lookUpKnown_step (h : RowsInv c) (hsound : (c.received i.occurredAt i.event).registry.Sound) :
    (core.step c i).1.LookUpKnown := by
  intro mam sent epoch ho
  rw [core_step] at ho ⊢
  obtain hb | ⟨-, cookie, hmem⟩ := outstanding_step ho
  · obtain ⟨r, hr, hk⟩ := h.lookUp mam sent epoch hb
    have hlate : c.state.isEarly = false := h.late (by rw [hr]; simp)
    obtain ⟨r', hr', ht⟩ := handle_turned i.occurredAt i.event hlate hr (h.sound r hr).indexed
    exact ⟨r', hr', ht.still_known hk⟩
  · obtain ⟨r, hr, hk⟩ := lookUp_known hsound hmem
    obtain hc | ⟨r', last, hr', hc⟩ := handle_commanded c i.occurredAt i.event
    · exact ⟨r, hc.trans hr, hk⟩
    · rw [hr] at hr'
      cases hr'
      exact ⟨_, hc, hk⟩

theorem rowsInv_run {is : List TimedEvent} (h : ReadsStored is) : RowsInv (core.last is) := by
  induction is using List.reverseRecOn with
  | nil =>
    refine ⟨registry_sound h, registry_late [], ?_⟩
    intro mam sent epoch ho
    cases ho
  | append_singleton is i ih =>
    refine ⟨registry_sound h, registry_late _, ?_⟩
    rw [Reactive.last_snoc]
    have hi := ih fun j hj => h j (List.mem_append_left _ hj)
    exact lookUpKnown_step hi (received_sound hi.sound (h i (List.mem_append_right _ List.mem_cons_self)))

/-! ## From the report on -/

/-- The row a torrent is known by when the step chooses its request. -/
def Handled.rowOf (e : Handled) (mam : MamTorrentId) : Option TorrentRecord :=
  e.deciding.registry.records?.bind fun records => records.findMam mam

structure Core.Waits (c : Core) (mam : MamTorrentId) : Prop where
  late : c.state.isEarly = false
  rows : ∃ r, c.registry = .loaded r ∧ r.Sound ∧ r.Waits mam

theorem reported_waits (h : RowsInv c) {mam : MamTorrentId}
    (hg : Handled.ReportsSnatched (core.entry c i) mam) :
    (c.received i.occurredAt i.event).Waits mam := by
  have hanswered : ∃ records r, c.registry = .loaded records ∧
      ((c.note i.event).dispatch i.occurredAt i.event).1.registry = .loaded r ∧ r.Waits mam := by
    cases hg with
    | lookedUp listing ha hs =>
      have ha' : c.mam.accepted i.event = _ := ha
      obtain ⟨sent, epoch, rotated, ho, -⟩ := accepted_outstanding ha'
      obtain ⟨records, hrec, hk⟩ := h.lookUp mam sent epoch ho
      obtain ⟨session, hd⟩ := accepted_registry i.occurredAt ha' rfl
      obtain ⟨r, hr, hw⟩ := torrentAnswered_waits { c.mam with outstanding := none, session := session }
        i.occurredAt (h.sound records hrec) hk hs
      rw [← hrec] at hr
      exact ⟨records, r, hrec, hd.trans hr, hw⟩
    | listed start page listed listing records ha hl hf hs hrec =>
      have ha' : c.mam.accepted i.event = _ := ha
      have hrec' : c.registry = .loaded records := hrec
      obtain ⟨session, hd⟩ := accepted_registry i.occurredAt ha' rfl
      obtain ⟨r, hr, hw⟩ :=
        listed_waits { c.mam with outstanding := none, session := session } i.occurredAt
        (h.sound records hrec') hl hf hs
      rw [← hrec'] at hr
      exact ⟨records, r, hrec', hd.trans hr, hw⟩
  obtain ⟨records, r, hrec, hdis, hw⟩ := hanswered
  have hlate : c.state.isEarly = false := h.late (by rw [hrec]; simp)
  obtain ⟨r', hr', ht⟩ := received_turned i.occurredAt i.event hlate hrec (h.sound records hrec).indexed
  refine ⟨received_late i.occurredAt i.event hlate, r', hr', ht.sound (h.sound records hrec), ?_⟩
  have ho : ((c.note i.event).dispatch i.occurredAt i.event).1.registry.Turned
      (c.received i.occurredAt i.event).registry :=
    (observe_registry_changed (P := fun _ _ _ => True) i.occurredAt
      (((c.note i.event).dispatch i.occurredAt i.event).1.expireLease i.occurredAt)).turned
      (dispatch_indexed (c := c.note i.event) i.occurredAt i.event hrec (h.sound records hrec).indexed)
  rw [hdis, hr'] at ho
  cases ho with
  | same => exact hw
  | loaded ho => exact ho.waits hw

theorem waits_received {mam : MamTorrentId} (h : c.Waits mam) :
    (c.received i.occurredAt i.event).Waits mam := by
  obtain ⟨hlate, r, hr, hs, hw⟩ := h
  obtain ⟨r', hr', ht⟩ := received_turned i.occurredAt i.event hlate hr hs.indexed
  exact ⟨received_late i.occurredAt i.event hlate, r', hr', ht.sound hs, ht.waits hw⟩

theorem waits_handled {mam : MamTorrentId} (h : (c.received i.occurredAt i.event).Waits mam) :
    (core.step c i).1.Waits mam := by
  obtain ⟨hlate, r, hr, hs, hw⟩ := h
  refine ⟨by rw [core_step, (handle_frame c i.occurredAt i.event).1]; exact hlate, ?_⟩
  have hc := (handle_commanded c i.occurredAt i.event).turned
  rw [hr] at hc
  rw [core_step]
  generalize (c.handle i.occurredAt i.event).1.registry = g at hc ⊢
  cases hc with
  | same => exact ⟨r, rfl, hs, hw⟩
  | loaded hc => exact ⟨_, rfl, hc.sound hs, hc.waits hw⟩

/-- What is fetched of a torrent that waits is a wedge for a row that runs. -/
theorem waits_unfetched {mam : MamTorrentId} {wedge : Wedge}
    (h : (c.received i.occurredAt i.event).Waits mam)
    (hf : Sends (core.entry c i) (.fetchTorrent mam wedge)) {row : TorrentRecord}
    (hrow : Handled.rowOf (core.entry c i) mam = some row) (ho : row.origin = .bookmark) :
    wedge = .spend ∧ c.WedgeDue i.occurredAt i.event mam := by
  obtain ⟨-, r, hr, hs, hw⟩ := h
  obtain ⟨cookie, hmem⟩ := hf
  obtain ⟨-, hdue | ⟨records, bookmark, data, hrec, hadmits⟩⟩ := fetch_cases hmem
  · exact hdue
  · rw [hr] at hrec
    cases hrec
    obtain ⟨id, entry, hid, he, hm, hq⟩ := hs.live.queued (admits_queued hadmits)
    have hentry : Handled.rowOf (core.entry c i) mam = some entry.record := by
      have hd : (Handled.deciding (core.entry c i)).registry = .loaded r := hr
      simp [Handled.rowOf, hd, Registry.records?, Records.findMam, hid, he]
    rw [hrow] at hentry
    cases hentry
    exact absurd ho (hw.unqueued id entry he hm hq)

end

/-! ## What admission knows of a torrent -/

def followLookup (id : MamTorrentId) (last : Option (Option Bookmark)) (e : Handled) :
    Option (Option Bookmark) :=
  match e.answer with
  | some (.lookUpTorrent id', .ok (.torrent listing)) => if id' = id then some listing else last
  | _ => last

theorem followLookup_some {id id' : MamTorrentId} {last : Option (Option Bookmark)} {e : Handled}
    {listing : Option Bookmark} (ha : e.answer = some (.lookUpTorrent id', .ok (.torrent listing))) :
    followLookup id last e = if id' = id then some listing else last := by
  unfold followLookup
  rw [ha]

theorem followLookup_other {id : MamTorrentId} {last : Option (Option Bookmark)} {e : Handled}
    (hno : ∀ id listing, e.answer = some (.lookUpTorrent id, .ok (.torrent listing)) → False) :
    followLookup id last e = last := by
  unfold followLookup
  split
  · next ha => exact (hno _ _ ha).elim
  · rfl

def lookedUp (id : MamTorrentId) (tr : List Handled) : Option (Option Bookmark) :=
  tr.foldl (followLookup id) none

theorem lookedUp_step {tr : List Handled} {c : Core} {i : TimedEvent} {id : MamTorrentId}
    (h : (c.mam.acquisition.lookups[id]?).map (·.listing) = lookedUp id tr) :
    ((core.step c i).1.mam.acquisition.lookups[id]?).map (·.listing) =
    lookedUp id (tr ++ [core.entry c i]) := by
  have hl : (core.step c i).1.mam.acquisition.lookups =
      lookupsAnswered i.occurredAt (c.mam.accepted i.event) c.mam.acquisition.lookups := by
    rw [core_step, handle_acquisition]
    exact (received_receives c i.occurredAt i.event).lookups
  have hsnoc : lookedUp id (tr ++ [core.entry c i]) = followLookup id (lookedUp id tr) (core.entry c i) :=
    List.foldl_concat ..
  have ha : Handled.answer (core.entry c i) = c.mam.accepted i.event := rfl
  rw [hl, hsnoc, ← h]
  unfold lookupsAnswered
  split
  · next id' listing hs =>
    rw [followLookup_some (ha.trans hs), Std.ExtTreeMap.getElem?_insert]
    by_cases hid : id' = id
    · simp [hid]
    · simp [hid]
  · next hno => rw [followLookup_other fun id listing hs => hno id listing (ha.symm.trans hs)]

theorem lookedUp_run (is : List TimedEvent) (id : MamTorrentId) :
    ((core.last is).mam.acquisition.lookups[id]?).map (·.listing) = lookedUp id (core.run is) :=
  Reactive.run_invariant core (I := fun tr c =>
    (c.mam.acquisition.lookups[id]?).map (·.listing) = lookedUp id tr)
    (H := fun _ => True) (fun _ _ h => h) rfl (fun _ _ _ h _ => lookedUp_step h) is trivial

theorem admitted_listed {js : List TimedEvent} {i : TimedEvent} (hread : ReadsStored (js ++ [i]))
    {id : MamTorrentId}
    (hf : Handled.AdmitsRow (core.entry (core.last js) i) id) :
    (∃ bookmark ∈ bookmarksOn (pages (core.run (js ++ [i]))).latest, bookmark.id = id) ∧
      lookedUp id (core.run (js ++ [i])) ≠ some none := by
  obtain ⟨hq, wedge, hsend⟩ := hf
  have hsound : ((core.last js).received i.occurredAt i.event).registry.Sound :=
    received_sound (registry_sound fun j hj => hread j (List.mem_append_left _ hj))
      (hread i (List.mem_append_right _ List.mem_cons_self))
  obtain ⟨records, bookmark, data, hrec, hadmits⟩ := admission_of_queued hsound hq hsend
  obtain ⟨-, hfind, hlookup⟩ := candidate_cases hadmits.candidate
  rw [hadmits.bookmark] at hlookup
  obtain ⟨hbookmarks, hlookups, -⟩ := surveyed_evidence (core.last js) i.occurredAt i.event
  rw [hbookmarks] at hfind
  rw [hlookups] at hlookup
  refine ⟨?_, ?_⟩
  · obtain ⟨listed, hlatest, hmem⟩ := Option.bind_eq_some_iff.mp hfind
    have hev := evidenceInv_run (js ++ [i])
    rw [Reactive.last_snoc] at hev
    obtain ⟨hon, -⟩ := hev.bookmarks.latest listed hlatest
    exact ⟨bookmark, hon ▸ List.mem_of_find?_eq_some hmem, hadmits.bookmark⟩
  · rw [← lookedUp_run, Reactive.last_snoc, core_step]
    intro hnone
    obtain ⟨lookup, hl, hlisting⟩ := Option.map_eq_some_iff.mp hnone
    have hsome := hlookup lookup hl
    rw [hlisting] at hsome
    cases hsome

theorem snatched_wait_for_owner {is : List TimedEvent} (hread : ReadsStored is) :
    (∀ pre g rest mid f post mam wedge row,
      core.run is = pre ++ g :: rest → g :: rest = mid ++ f :: post →
      Handled.ReportsSnatched g mam → Sends f (.fetchTorrent mam wedge) → Handled.rowOf f mam = some row →
      row.origin = .bookmark → wedge = .spend ∧ f.before.WedgeDue f.input.occurredAt f.input.event mam) ∧
    ∀ pre f post id, core.run is = pre ++ f :: post → Handled.AdmitsRow f id →
      (∃ bookmark ∈ bookmarksOn (pages (pre ++ [f])).latest, bookmark.id = id) ∧
        lookedUp id (pre ++ [f]) ≠ some none := by
  have hstart : ∀ js i ks, is = js ++ i :: ks → ReadsStored (js ++ [i]) := by
    rintro js i ks rfl j hj
    refine hread j ?_
    simp only [List.mem_append, List.mem_cons, List.not_mem_nil, or_false] at hj ⊢
    tauto
  refine ⟨?_, ?_⟩
  · intro pre g rest mid f post mam wedge row hrun hrest hg hf hrow ho
    obtain ⟨js, i, ks, his, rfl, rfl, hpost⟩ := Reactive.run_split core hrun
    have hinv : RowsInv (core.last js) :=
      rowsInv_run fun j hj => hstart js i ks his j (List.mem_append_left _ hj)
    have hw := reported_waits hinv hg
    cases mid with
    | nil =>
      obtain ⟨rfl, -⟩ := List.cons.inj hrest
      exact waits_unfetched hw hf hrow ho
    | cons x mid =>
      obtain ⟨rfl, htail⟩ := List.cons.inj hrest
      rw [hpost, entry_after] at htail
      obtain ⟨t, j, ht, rfl⟩ := Reactive.trace_until core (I := fun c => c.Waits mam) (P := fun _ => True)
        (fun c j hc _ => waits_handled (waits_received hc)) htail (waits_handled hw) (fun _ _ => trivial)
      exact waits_unfetched (waits_received ht) hf hrow ho
  · intro pre f post id hrun hf
    obtain ⟨js, i, ks, his, rfl, rfl, -⟩ := Reactive.run_split core hrun
    rw [← Reactive.run_snoc]
    exact admitted_listed (hstart js i ks his) hf

def snatchedListing : Bookmark := { listing 7 .no with snatched := .before }

def snatchReportedEvents : List TimedEvent := admittingEvents [someRow] ++ [replyAt 65 noBookmarks]

def snatchReported : TimedEvent := replyAt 66 (.torrent (some snatchedListing))

def historyShown : TimedEvent := replyAt 67 (.wedgeHistory [])

def Event.isRedownload : Event → Bool
  | .registry (.redownload _) => true
  | _ => false

theorem snatched_row_wedged : ∃ (pre rest mid post : List Handled) (g f : Handled) (row : TorrentRecord),
    core.run (snatchReportedEvents ++ snatchReported :: ([] ++ [historyShown])) = pre ++ g :: rest ∧
    g :: rest = mid ++ f :: post ∧
    g.answer = some (.lookUpTorrent 7, .ok (.torrent (some snatchedListing))) ∧
    (∀ x ∈ pre ++ g :: rest, ∀ id, x.input.event ≠ .registry (.redownload id)) ∧ f.rowOf 7 = some row ∧
    row.origin = .bookmark ∧ Sends f (.fetchTorrent 7 .spend) := by
  have hrun := Reactive.run_stretch core snatchReportedEvents [] snatchReported historyShown
  refine ⟨_, _, [_], [], _, _, someRow, hrun, rfl, by decide +kernel, ?_, by decide +kernel, rfl,
    some savedCookie, by decide +kernel⟩
  rw [← hrun]
  refine (Reactive.forall_mem_run core (P := fun i => ∀ id, i.event ≠ .registry (.redownload id))).mpr ?_
  intro i hi id hev
  have hnone : ∀ i ∈ snatchReportedEvents ++ snatchReported :: ([] ++ [historyShown]),
      i.event.isRedownload = false := by
    decide +kernel
  have hi' := hnone i hi
  rw [hev] at hi'
  cases hi'

theorem snatched_row_runs_on :
    Sends (core.entry (core.last (snatchReportedEvents ++ snatchReported :: [])) historyShown)
      (.fetchTorrent 7 .spend) ∧
    (core.last (snatchReportedEvents ++ snatchReported :: [])).WedgeDue
      historyShown.occurredAt historyShown.event 7 ∧
    ∃ bookmark ∈ bookmarksOn (pages (core.run (admittingEvents [] ++ [replyAt 65 freePage]))).latest,
      bookmark.id = 5 := by
  have hrun := Reactive.run_stretch core snatchReportedEvents [] snatchReported historyShown
  have hg : Handled.ReportsSnatched (core.entry (core.last snatchReportedEvents) snatchReported) 7 :=
    .lookedUp snatchedListing (by decide +kernel) rfl
  have hsend : Sends (core.entry (core.last (snatchReportedEvents ++ snatchReported :: [])) historyShown)
      (.fetchTorrent 7 .spend) := ⟨some savedCookie, by decide +kernel⟩
  have hstored : ReadsStored (snatchReportedEvents ++ snatchReported :: ([] ++ [historyShown])) :=
    readsStored_of_short (by decide +kernel)
  have hdue := (snatched_wait_for_owner hstored).1 _ _ _ [_] _ [] 7 .spend someRow hrun rfl hg hsend
    (by decide +kernel) rfl
  have hadmits : Handled.AdmitsRow
      (core.entry (core.last (admittingEvents [])) (replyAt 65 freePage)) 5 :=
    ⟨by decide +kernel, .keep, some savedCookie, by decide +kernel⟩
  have hrun' := Reactive.run_snoc core (admittingEvents []) (replyAt 65 freePage)
  have hlisted :=
    (snatched_wait_for_owner (readsStored_of_short (by decide +kernel))).2 _ _ [] 5 hrun' hadmits
  rw [← hrun'] at hlisted
  exact ⟨hsend, hdue.2, hlisted.1⟩

end Windlass
