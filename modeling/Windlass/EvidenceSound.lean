import Windlass.WedgeSound

/-!
# What a download is admitted on

The flags a torrent is judged by come from a lookup or from a bookmark listing of
several pages. The listing is dated by its last page; `Pages` keeps the steps
that accepted each of its pages, so that the age of the flags themselves can be
told.
-/

namespace Windlass

/-! ## The pages of a listing -/

def Handled.page (e : Handled) : Option BookmarkPage :=
  match e.answer with
  | some (.listBookmarks _, .ok (.bookmarks page)) => some page
  | _ => none

structure Pages where
  listing : List Handled
  latest : List Handled

def Pages.follow (p : Pages) (e : Handled) : Pages :=
  match e.answer with
  | some (.listBookmarks _, .ok (.bookmarks page)) =>
    if (e.before.mam.acquisition.bookmarks.page e.time e.input.occurredAt.wall page).2.isSome then
      { listing := [], latest := p.listing ++ [e] }
    else { p with listing := p.listing ++ [e] }
  | some (.listBookmarks _, .error _) => { p with listing := [] }
  | _ => p

def pages (tr : List Handled) : Pages := tr.foldl Pages.follow { listing := [], latest := [] }

theorem Pages.follow_page {p : Pages} {e : Handled} {start : BookmarkCount} {page : BookmarkPage}
    (ha : e.answer = some (.listBookmarks start, .ok (.bookmarks page))) : p.follow e =
      if (e.before.mam.acquisition.bookmarks.page e.time e.input.occurredAt.wall page).2.isSome then
        { listing := [], latest := p.listing ++ [e] }
      else { p with listing := p.listing ++ [e] } := by
  unfold Pages.follow
  rw [ha]

theorem Pages.follow_failure {p : Pages} {e : Handled} {start : BookmarkCount} {failure : MamFailure}
    (ha : e.answer = some (.listBookmarks start, .error failure)) :
    p.follow e = { p with listing := [] } := by
  unfold Pages.follow
  rw [ha]

theorem Pages.follow_other {p : Pages} {e : Handled}
    (hpage : ∀ start page, e.answer = some (.listBookmarks start, .ok (.bookmarks page)) → False)
    (herror : ∀ start failure, e.answer = some (.listBookmarks start, .error failure) → False) :
    p.follow e = p := by
  unfold Pages.follow
  split
  · next ha => exact (hpage _ _ ha).elim
  · next ha => exact (herror _ _ ha).elim
  · rfl

theorem pages_snoc (tr : List Handled) (e : Handled) : pages (tr ++ [e]) = (pages tr).follow e :=
  List.foldl_concat ..

def bookmarksOn (steps : List Handled) : List Bookmark :=
  steps.flatMap fun e => (e.page.map (·.bookmarks)).getD []

theorem bookmarksOn_snoc {e : Handled} {page : BookmarkPage} (steps : List Handled)
    (h : e.page = some page) :
    bookmarksOn (steps ++ [e]) = bookmarksOn steps ++ page.bookmarks := by
  simp [bookmarksOn, h]

theorem mem_bookmarksOn {steps : List Handled} {bookmark : Bookmark} (h : bookmark ∈ bookmarksOn steps) :
    ∃ e ∈ steps, ∃ page, e.page = some page ∧ bookmark ∈ page.bookmarks := by
  obtain ⟨e, he, hb⟩ := List.mem_flatMap.mp h
  cases hp : e.page with
  | none => simp [hp] at hb
  | some page => exact ⟨e, he, page, hp, by simpa [hp] using hb⟩

/-- While the latest listing counts as fresh, so does each of its pages. -/
def PagesFresh (pre : List Handled) (e : Handled) : Prop :=
  (∀ last ∈ (pages (pre ++ [e])).latest.getLast?, e.time.durationSince last.time ≤ lookupFreshFor) →
    ∀ g ∈ (pages (pre ++ [e])).latest, e.time.durationSince g.time ≤ lookupFreshFor

/-! ## Where flags and histories come from -/

/-- The step accepts an answer that itself carries flags of the torrent. -/
def Carries (e : Handled) (id : MamTorrentId) (flags : Bookmark) : Prop :=
  e.answer = some (.lookUpTorrent id, .ok (.torrent (some flags))) ∨
    ∃ page, e.page = some page ∧ flags ∈ page.bookmarks ∧ flags.id = id

structure ListingFrom (tr : List Handled) (p : Pages) (b : Bookmarks) : Prop where
  listing : b.listing.getD [] = bookmarksOn p.listing
  latest : ∀ listed, b.latest = some listed → listed.bookmarks = bookmarksOn p.latest ∧
    ∃ last, p.latest.getLast? = some last ∧ last.time = listed.taken
  accepted : ∀ e ∈ p.latest ++ p.listing, e ∈ tr

structure EvidenceInv (tr : List Handled) (c : Core) : Prop where
  bookmarks : ListingFrom tr (pages tr) c.mam.acquisition.bookmarks
  lookups : ∀ (id : MamTorrentId) (lookup : Lookup), c.mam.acquisition.lookups[id]? = some lookup →
    ∃ e ∈ tr, e.answer = some (.lookUpTorrent id, .ok (.torrent lookup.listing)) ∧ e.time = lookup.at'
  history : ∀ history, c.mam.acquisition.history = some history →
    ∃ e ∈ tr, ∃ spent, e.answer = some (.wedgeHistory, .ok (.wedgeHistory spent)) ∧
      history = { wedged := Std.ExtTreeSet.ofList (spent.map (·.torrent)), at' := e.time }

theorem evidenceInv_init : EvidenceInv [] Core.new where
  bookmarks :=
    { listing := rfl
      latest := by intro listed h; cases h
      accepted := by intro e he; cases he }
  lookups := by
    intro id lookup h
    simp [Core.new, Mam.new, Acquisition.new] at h
  history := by intro history h; cases h

theorem bookmarks_page_some {b : Bookmarks} {now : Instant} {wall : SystemTime} {page : BookmarkPage}
    (h : (b.page now wall page).2.isSome) :
    (b.page now wall page).1.listing = none ∧ ∃ listed, (b.page now wall page).1.latest = some listed ∧
      listed.bookmarks = b.listing.getD [] ++ page.bookmarks ∧ listed.taken = now := by
  unfold Bookmarks.page at h ⊢
  dsimp only at h ⊢
  split
  · exact ⟨rfl, _, rfl, rfl, rfl⟩
  · next hn =>
    rw [if_neg hn] at h
    cases h

theorem bookmarks_page_none {b : Bookmarks} {now : Instant} {wall : SystemTime} {page : BookmarkPage}
    (h : ¬ (b.page now wall page).2.isSome) :
    (b.page now wall page).1 = { b with listing := some (b.listing.getD [] ++ page.bookmarks) } := by
  unfold Bookmarks.page at h ⊢
  dsimp only at h ⊢
  split
  · next hn =>
    rw [if_pos hn] at h
    exact absurd rfl h
  · rfl

/-- A page is added to the listing it belongs to, and a failed page ends it. -/
theorem ListingFrom.follow {tr : List Handled} {p : Pages} {e : Handled}
    (h : ListingFrom tr p e.before.mam.acquisition.bookmarks) :
    ListingFrom (tr ++ [e]) (p.follow e)
      (e.before.mam.acquisition.bookmarks.answered e.input.occurredAt e.answer) := by
  have hold : ∀ g ∈ p.latest ++ p.listing, g ∈ tr ++ [e] :=
    fun g hg => List.mem_append_left _ (h.accepted g hg)
  unfold Bookmarks.answered
  -- a page goes on with the listing or completes it, a failure starts it over
  split
  · next start page ha =>
    have hp : e.page = some page := by rw [Handled.page, ha]
    rw [Pages.follow_page ha]
    split
    · next hd =>
      obtain ⟨hl, listed, hlatest, hb, ht⟩ := bookmarks_page_some hd
      refine ⟨?_, ?_, ?_⟩
      · exact congrArg (·.getD []) hl
      · intro listed' hl'
        have heq : some listed = some listed' := hlatest.symm.trans hl'
        cases heq
        refine ⟨?_, e, List.getLast?_concat, ht.symm⟩
        rw [hb, bookmarksOn_snoc _ hp, h.listing]
      · intro g hg
        simp only [List.append_nil, List.mem_append, List.mem_singleton] at hg
        obtain hg | rfl := hg
        · exact hold g (List.mem_append_right _ hg)
        · simp
    · next hd =>
      have hpage := bookmarks_page_none hd
      refine ⟨?_, ?_, ?_⟩
      · rw [bookmarksOn_snoc _ hp, ← h.listing]
        exact congrArg (·.listing.getD []) hpage
      · intro listed hl
        exact h.latest listed ((congrArg Bookmarks.latest hpage).symm.trans hl)
      · intro g hg
        simp only [List.mem_append, List.mem_singleton] at hg
        obtain hg | hg | rfl := hg
        · exact hold g (List.mem_append_left _ hg)
        · exact hold g (List.mem_append_right _ hg)
        · simp
  · next start failure ha =>
    rw [Pages.follow_failure ha]
    exact ⟨rfl, h.latest, fun g hg => hold g (List.mem_append_left _ (by simpa using hg))⟩
  · next hpage herror =>
    rw [Pages.follow_other hpage herror]
    exact ⟨h.listing, h.latest, hold⟩

theorem evidenceInv_step {tr : List Handled} {c : Core} {i : TimedEvent} (hi : EvidenceInv tr c) :
    EvidenceInv (tr ++ [core.entry c i]) (core.step c i).1 := by
  have hr := received_receives c i.occurredAt i.event
  refine ⟨?_, ?_, ?_⟩
  · have hb : (core.step c i).1.mam.acquisition.bookmarks =
        c.mam.acquisition.bookmarks.answered i.occurredAt (c.mam.accepted i.event) := by
      rw [core_step, handle_acquisition]
      exact hr.bookmarks
    rw [hb, pages_snoc]
    exact ListingFrom.follow (e := core.entry c i) hi.bookmarks
  · intro id lookup hl
    rw [core_step, handle_acquisition] at hl
    dsimp only at hl
    rw [hr.lookups] at hl
    have hold : c.mam.acquisition.lookups[id]? = some lookup → ∃ e ∈ tr ++ [core.entry c i],
        Handled.answer e = some (.lookUpTorrent id, .ok (.torrent lookup.listing)) ∧
        Handled.time e = lookup.at' := by
      intro h
      obtain ⟨e, he, hrest⟩ := hi.lookups id lookup h
      exact ⟨e, List.mem_append_left _ he, hrest⟩
    unfold lookupsAnswered at hl
    split at hl
    · next id' listing ha =>
      rw [Std.ExtTreeMap.getElem?_insert] at hl
      split at hl
      · next heq =>
        cases hl
        rw [Std.LawfulEqOrd.eq_of_compare heq] at ha
        exact ⟨core.entry c i, by simp, ha, rfl⟩
      · exact hold hl
    · exact hold hl
  · intro history hh
    rw [core_step, handle_acquisition] at hh
    dsimp only at hh
    rw [hr.history] at hh
    unfold wedgesAnswered at hh
    split at hh
    · next spent ha =>
      cases hh
      exact ⟨core.entry c i, by simp, spent, ha, rfl⟩
    · obtain ⟨e, he, hrest⟩ := hi.history history hh
      exact ⟨e, List.mem_append_left _ he, hrest⟩

theorem evidenceInv_run (is : List TimedEvent) : EvidenceInv (core.run is) (core.last is) :=
  Reactive.run_invariant core (I := EvidenceInv) (H := fun _ => True) (fun _ _ h => h) evidenceInv_init
    (fun _ _ _ hi _ => evidenceInv_step hi) is trivial

/-! ## Admission -/

theorem newerSighting_cases {a b : Option (Option Bookmark × Instant)}
    {sighting : Option Bookmark × Instant}
    (h : newerSighting a b = some sighting) : a = some sighting ∨ b = some sighting := by
  unfold newerSighting at h
  split at h
  · split at h
    · exact .inl h
    · exact .inr h
  · exact .inl h
  · exact .inr h

theorem current_cases {a : Acquisition} {id : MamTorrentId} {now : Instant} {within : Duration}
    {flags : Option Bookmark} {seen : Instant} (h : a.current id now within = some (flags, seen)) :
    now.durationSince seen ≤ within ∧
      ((∃ lookup : Lookup, a.lookups[id]? = some lookup ∧ lookup.listing = flags ∧ lookup.at' = seen) ∨
        ∃ listed bookmark, a.bookmarks.latest = some listed ∧ bookmark ∈ listed.bookmarks ∧
        bookmark.id = id ∧
          flags = some bookmark ∧ listed.taken = seen) := by
  obtain ⟨hl, hf⟩ := Option.filter_eq_some_iff.mp h
  refine ⟨of_decide_eq_true hf, ?_⟩
  obtain hl | hl := newerSighting_cases hl
  · obtain ⟨lookup, hlook, he⟩ := Option.map_eq_some_iff.mp hl
    cases he
    exact .inl ⟨lookup, hlook, rfl, rfl⟩
  · obtain ⟨listed, hlist, hb⟩ := Option.bind_eq_some_iff.mp hl
    obtain ⟨bookmark, hfind, he⟩ := Option.map_eq_some_iff.mp hb
    cases he
    exact .inr ⟨listed, bookmark, hlist, List.mem_of_find?_eq_some hfind,
      by simpa using List.find?_some hfind,
      rfl, rfl⟩

section
variable {c : Core} {now : ClockReading} {event : Event}

theorem surveyed_evidence (c : Core) (now : ClockReading) (event : Event) :
    (c.surveyed now event).acquisition.bookmarks = (c.handle now event).1.mam.acquisition.bookmarks ∧
      (c.surveyed now event).acquisition.lookups = (c.handle now event).1.mam.acquisition.lookups ∧
      (c.surveyed now event).acquisition.history = (c.handle now event).1.mam.acquisition.history ∧
      (c.surveyed now event).account.data = (c.handle now event).1.mam.account.data := by
  rw [handle_acquisition, handle_account, surveyed_acquisition, surveyed_account]
  exact ⟨rfl, rfl, rfl, rfl⟩

theorem fresh_data {a : Account} {now : Instant} {since : Option Instant} {data : UserData}
    (h : a.fresh now since = some data) : a.data = some data := by
  unfold Account.fresh at h
  obtain ⟨reading, hr, rfl⟩ := Option.map_eq_some_iff.mp h
  rw [Account.data, (Option.filter_eq_some_iff.mp hr).1]
  rfl

/-- A download without a wedge is admitted on flags, or on a wedge the history
shows. -/
theorem keep_cases {id : MamTorrentId} {cookie : Option ApiCookie}
    (h : .mamRequest (.fetchTorrent id .keep) cookie ∈ (c.handle now event).2) :
    (∃ flags seen data,
      (c.surveyed now event).acquisition.current id now.monotonic lookupFreshFor =
        some (some flags, seen) ∧
      (c.handle now event).1.mam.account.data = some data ∧ freeForOwner flags data now.wall) ∨
    ∃ history, (c.handle now event).1.mam.acquisition.history = some history ∧
      now.monotonic.durationSince history.at' ≤ historyFreshFor ∧ history.wedged.contains id := by
  obtain ⟨-, hr, -⟩ | ⟨-, -, hw, -⟩ := request_cases h
  · cases hr
  · obtain ⟨hr, -⟩ | ⟨_, hr, -⟩ | ⟨_, hr, -⟩ | ⟨_, _, hr, -⟩ | hd | ⟨records, -, hd⟩ := decision_cases hw
    · cases hr
    · cases hr
    · cases hr
    · cases hr
    · obtain ⟨download, watch, -, ⟨hr, -⟩ | ⟨hr, -⟩ | ⟨hr, -⟩⟩ := watchNext_cases hd <;> cases hr
    · obtain ⟨bookmark, data, -, hfresh, hadmit⟩ := next_cases hd
      have hdata : (c.handle now event).1.mam.account.data = some data := by
        rw [← (surveyed_evidence c now event).2.2.2]
        exact fresh_data hfresh
      obtain ⟨hr, flags, seen, hc, hfree⟩ | ⟨history, hs, ⟨hr, hwedged⟩ | ⟨hr, -⟩⟩ | ⟨hr, -⟩ | ⟨hr, -⟩ :=
        admit_cases hadmit
      · cases hr
        exact .inl ⟨flags, seen, data, hc, hdata, hfree⟩
      · cases hr
        obtain ⟨hh, hcond⟩ := Option.filter_eq_some_iff.mp hs
        rw [Bool.and_eq_true] at hcond
        refine .inr ⟨history, ?_, of_decide_eq_true hcond.1, hwedged⟩
        rw [← (surveyed_evidence c now event).2.2.1]
        exact hh
      · cases hr
      · cases hr
      · cases hr

end

/-- A torrent fetched without a wedge is free by flags that arrived at most five
minutes before, or wedged by a history at most five minutes old. -/
theorem admitted_on_recent_evidence {is : List TimedEvent}
    (hfresh : Reactive.Along PagesFresh (core.run is))
    {pre post : List Handled} {f : Handled} (hrun : core.run is = pre ++ f :: post) {id : MamTorrentId}
    {cookie : Option ApiCookie} (hreq : .mamRequest (.fetchTorrent id .keep) cookie ∈ f.out) :
    (∃ g ∈ pre ++ [f], ∃ flags data, Carries g id flags ∧ f.time ≤ g.time + lookupFreshFor ∧
      f.after.mam.account.data = some data ∧ freeForOwner flags data f.input.occurredAt.wall) ∨
    ∃ g ∈ pre ++ [f], ∃ spent, g.answer = some (.wedgeHistory, .ok (.wedgeHistory spent)) ∧
      id ∈ spent.map (·.torrent) ∧ f.time ≤ g.time + historyFreshFor := by
  have hpages := hfresh pre f post hrun
  obtain ⟨js, i, ks, -, rfl, rfl, -⟩ := Reactive.run_split core hrun
  have hi := evidenceInv_step (i := i) (evidenceInv_run js)
  obtain ⟨flags, seen, data, hc, hdata, hfree⟩ | ⟨history, hh, hage, hw⟩ := keep_cases hreq
  · left
    obtain ⟨hage, hlook | hlist⟩ := current_cases hc
    · obtain ⟨lookup, hl, hflags, hseen⟩ := hlook
      rw [(surveyed_evidence _ _ _).2.1] at hl
      obtain ⟨g, hg, hans, ht⟩ := hi.lookups id lookup hl
      refine ⟨g, hg, flags, data, .inl (hflags ▸ hans), ?_, hdata, hfree⟩
      rw [ht, hseen]
      exact Instant.le_add_of_durationSince hage
    · obtain ⟨listed, bookmark, hl, hmem, hid, hflags, hseen⟩ := hlist
      cases hflags
      rw [(surveyed_evidence _ _ _).1] at hl
      obtain ⟨hb, last, hlast, ht⟩ := hi.bookmarks.latest listed hl
      rw [hb] at hmem
      obtain ⟨g, hg, page, hp, hbook⟩ := mem_bookmarksOn hmem
      refine ⟨g, hi.bookmarks.accepted g (List.mem_append_left _ hg), flags, data,
        .inr ⟨page, hp, hbook, hid⟩, ?_,
        hdata, hfree⟩
      refine Instant.le_add_of_durationSince (hpages ?_ g hg)
      intro last' hlast'
      rw [Option.mem_def, hlast] at hlast'
      cases hlast'
      rw [ht, hseen]
      exact hage
  · right
    obtain ⟨g, hg, spent, hans, rfl⟩ := hi.history history hh
    refine ⟨g, hg, spent, hans, ?_, Instant.le_add_of_durationSince hage⟩
    simpa [Std.ExtTreeSet.contains_ofList] using hw

instance {pre : List Handled} {e : Handled} : Decidable (PagesFresh pre e) :=
  inferInstanceAs (Decidable (_ → _))

def freePage : MamReply := .bookmarks { found := 1, bookmarks := [listing 5 .forEveryone] }

theorem free_bookmark_admitted :
    Reactive.Along PagesFresh (core.run (admittingEvents [] ++ [replyAt 65 freePage])) ∧
    ∃ g flags, Carries g 5 flags ∧ Duration.fromSecs 65 ≤ g.time + lookupFreshFor ∧
      freeForOwner flags accountData (replyAt 65 freePage).occurredAt.wall := by
  have hfresh : Reactive.Along PagesFresh (core.run (admittingEvents [] ++ [replyAt 65 freePage])) := by
    decide +kernel
  have hdata : (core.entry (core.last (admittingEvents []))
    (replyAt 65 freePage)).after.mam.account.data =
      some accountData := by decide +kernel
  have hfetch : .mamRequest (.fetchTorrent 5 .keep) (some savedCookie) ∈
      (core.entry (core.last (admittingEvents [])) (replyAt 65 freePage)).out := by decide +kernel
  refine ⟨hfresh, ?_⟩
  obtain ⟨g, -, flags, data, hc, hage, hd, hfree⟩ | ⟨g, hg, spent, hans, -⟩ :=
    admitted_on_recent_evidence hfresh (Reactive.run_snoc core _ _) hfetch
  · rw [hdata] at hd
    cases hd
    exact ⟨g, flags, hc, hage, hfree⟩
  · have hno : ∀ g ∈ core.run (admittingEvents []) ++
      [core.entry (core.last (admittingEvents [])) (replyAt 65 freePage)],
        (Handled.answer g).map (·.1) ≠ some .wedgeHistory := by decide +kernel
    exact absurd (by rw [hans]; rfl) (hno g hg)

def interruptedEvents : List TimedEvent :=
  -- the first page of a listing shows the torrent free; after a pause of an hour the second
  -- completes it
  admittingEvents [] ++
    [replyAt 65 (.bookmarks { found := 2, bookmarks := [listing 5 .forEveryone] }),
      .after 66 (.mamPause (.set .paused)), .after 66 (.mamPause .written),
      replyAt 67 (.bookmarks { found := 2, bookmarks := [listing 6 .no] }),
      .after 3700 (.mamPause (.set .enabled)), .after 3700 (.mamPause .written),
      replyAt 3701 (.ip { ip := .v4 1, asn := 1, provider := none }),
      .after 3702 (.mam .registrationAttemptSaved),
      replyAt 3703 (.registered .completed (.v4 1)), replyAt 3704 (.userData accountData)]

def lastPage : TimedEvent := replyAt 3705 (.bookmarks { found := 2, bookmarks := [listing 6 .no] })

theorem admitted_on_old_flags :
    ∃ pre f post cookie, core.run (interruptedEvents ++ [lastPage]) = pre ++ f :: post ∧
    Steady (core.run (interruptedEvents ++ [lastPage])) ∧ f.after.registry.isQueued 5 ∧
    .mamRequest (.fetchTorrent 5 .keep) cookie ∈ f.out ∧
    ¬ ((∃ g ∈ pre ++ [f], ∃ flags data,
        Carries g 5 flags ∧ Handled.time f ≤ Handled.time g + lookupFreshFor ∧
        f.after.mam.account.data = some data ∧ freeForOwner flags data f.input.occurredAt.wall) ∨
      ∃ g ∈ pre ++ [f], ∃ spent, Handled.answer g = some (.wedgeHistory, .ok (.wedgeHistory spent)) ∧
        5 ∈ spent.map (·.torrent) ∧ Handled.time f ≤ Handled.time g + historyFreshFor) := by
  refine ⟨_, _, [], some savedCookie, Reactive.run_snoc core _ _, steady_iff.mpr (by decide +kernel),
    by decide +kernel, by decide +kernel, ?_⟩
  have hno : ∀ g ∈ core.run interruptedEvents ++ [core.entry (core.last interruptedEvents) lastPage],
      (Handled.answer g).map (·.1) ≠ some .wedgeHistory ∧
      (Handled.answer g).map (·.1) ≠ some (.lookUpTorrent 5) ∧
      (lastPage.occurredAt.monotonic ≤ Handled.time g + lookupFreshFor →
        ∀ b ∈ ((Handled.page g).map (·.bookmarks)).getD [], b.id ≠ 5) := by decide +kernel
  rintro (⟨g, hg, flags, -, hans | ⟨page, hp, hmem, hid⟩, hage, -⟩ | ⟨g, hg, spent, hans, -⟩)
  · exact absurd (by rw [hans]; rfl) (hno g hg).2.1
  · exact (hno g hg).2.2 hage flags (by rw [hp]; exact hmem) hid
  · exact absurd (by rw [hans]; rfl) (hno g hg).1

end Windlass
