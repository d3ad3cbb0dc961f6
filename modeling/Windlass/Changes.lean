import Windlass.Rows

/-!
# Changes of the registry

Between two answers of storage the rows change by a chain of elementary changes.
Each says what it needs of its row and which batches it hands to storage.
-/

namespace Windlass

def Action.batch? : Action → Option (List TorrentRecord)
  | .saveTorrents records => some records
  | _ => none

/-- The batches of rows that actions hand to storage. -/
def batches (out : List Action) : List (List TorrentRecord) := out.filterMap Action.batch?

@[simp] theorem batches_nil : batches [] = [] := rfl

@[simp] theorem batches_append (out out' : List Action) :
    batches (out ++ out') = batches out ++ batches out' :=
  List.filterMap_append

theorem batches_none {out : List Action} (h : ∀ a ∈ out, a.part ≠ .registry) : batches out = [] := by
  unfold batches
  rw [List.filterMap_eq_nil_iff]
  intro a ha
  have hp := h a ha
  cases a with
  | saveTorrents => exact absurd rfl hp
  | _ => rfl

theorem Emits.batches {part : Part} {out : List Action} (h : Emits part out) (hp : part ≠ .registry) :
    batches out = [] := by
  refine batches_none fun a ha => ?_
  rw [h a ha]
  exact hp

/-- The elementary changes of the rows. A row is linked only where `P` allows
its MAM torrent and the fetched hash. -/
inductive Records.Change (P : Records → MamTorrentId → TorrentHash → Prop) (r : Records) :
    List (List TorrentRecord) → Records → Prop
  | saved (now : Instant) : Records.Change P r (batches (r.save now).2) (r.save now).1
  | bookmarked (new : MamTorrentId × Desired) : Records.Change P r [] (r.bookmark new)
  | found (now : ClockReading) (hash : TorrentHash) (torrent : Torrent) (hn : r.byHash[hash]? = none) :
    Records.Change P r [] ((r.adopt hash torrent).1.recordSeen now (r.adopt hash torrent).2 torrent)
  | seen (now : ClockReading) (id : RecordId) (torrent : Torrent) :
    Records.Change P r [] (r.recordSeen now id torrent)
  | snatched (id : RecordId) (entry : Entry) (he : r.entries[id]? = some entry)
      (hq : entry.record.desired = .queued) (ho : entry.record.origin = .bookmark) :
    Records.Change P r [] (r.setDesired id .snatched)
  | requeued (id : RecordId) (entry : Entry) (he : r.entries[id]? = some entry)
      (hs : entry.record.desired = .snatched) : Records.Change P r []
    { r with
      entries := r.entries.insert id
        { entry with record := { entry.record with desired := .queued, origin := .redownload } }
      unsaved := r.unsaved.insert id }
  | resumed (id : RecordId) (entry : Entry) (he : r.entries[id]? = some entry)
      (hh : entry.record.desired = .held) : Records.Change P r [] (r.setDesired id .active)
  | held (id : RecordId) (h : r.Indexed → ∃ entry, r.entries[id]? = some entry ∧
      (entry.record.desired = .active ∨ entry.record.desired = .held) ∧ entry.record.origin ≠ .adopted) :
    Records.Change P r [] (r.setDesired id .held)
  | linked (id : RecordId) (mam : MamTorrentId) (hash : TorrentHash) (entry : Entry)
      (hm : r.byMam[mam]? = some id) (he : r.entries[id]? = some entry) (hq : entry.record.desired =
        .queued)
      (hf : P r mam hash) : Records.Change P r [] (r.link id mam hash)

def Records.Changed (P : Records → MamTorrentId → TorrentHash → Prop) :
    Records → List (List TorrentRecord) → Records → Prop :=
  Reactive.Chain (Records.Change P)

section
variable {P : Records → MamTorrentId → TorrentHash → Prop} {r r' r'' : Records}
  {out out' : List (List TorrentRecord)}

theorem Records.Change.changed (h : r.Change P out r') : r.Changed P out r' := Reactive.Chain.single h

theorem Records.Changed.refl (r : Records) : r.Changed P [] r := Reactive.Chain.refl r

theorem Records.Changed.trans (h : r.Changed P out r') (h' : r'.Changed P out' r'') :
    r.Changed P (out ++ out') r'' :=
  Reactive.Chain.trans h h'

theorem Records.Change.indexed (h : r.Change P out r') (hi : r.Indexed) : r'.Indexed := by
  cases h with
  | saved now => exact save_indexed hi now
  | bookmarked new => exact bookmark_indexed hi new
  | found now hash torrent hn => exact recordSeen_indexed (adopt_indexed hi torrent hn) now _ torrent
  | seen now id torrent => exact recordSeen_indexed hi now id torrent
  | snatched id => exact setDesired_indexed hi id .snatched
  | requeued id entry he => exact hi.of_hashes (hashIn_insert_same he rfl) rfl
  | resumed id => exact setDesired_indexed hi id .active
  | held id => exact setDesired_indexed hi id .held
  | linked id mam hash => exact link_indexed hi id mam hash

theorem Records.Changed.indexed (h : r.Changed P out r') (hi : r.Indexed) : r'.Indexed :=
  Reactive.Chain.kept (fun _ _ _ hi h => Records.Change.indexed h hi) h hi

/-- A change that hands nothing to storage, and then another. -/
theorem Records.Changed.next (h : r.Changed P [] r') (h' : r'.Changed P out r'') : r.Changed P out r'' :=
  h.trans h'

end

/-! ## The operations of the registry -/

section
variable {P : Records → MamTorrentId → TorrentHash → Prop} (r : Records) (now : Instant)

theorem save_changed : r.Changed P (batches (r.save now).2) (r.save now).1 :=
  (Records.Change.saved now).changed

theorem snatched_changed (mam : MamTorrentId) :
    r.Changed P (batches (r.snatched now mam).2) (r.snatched now mam).1 := by
  unfold Records.snatched
  refine Records.Changed.next ?_ (save_changed _ now)
  split
  · next id hid =>
    obtain ⟨-, hany⟩ := Option.filter_eq_some_iff.mp hid
    obtain ⟨entry, he, hrow⟩ := (Option.any_eq_true _ _).mp hany
    rw [Bool.and_eq_true, beq_iff_eq, beq_iff_eq] at hrow
    exact (Records.Change.snatched id entry he hrow.1 hrow.2).changed
  · exact .refl r

theorem resume_changed (hash : TorrentHash) :
    r.Changed P (batches (r.resume now hash).2) (r.resume now hash).1 := by
  unfold Records.resume
  refine Records.Changed.next ?_ (save_changed _ now)
  split
  · next id hid =>
    obtain ⟨-, hany⟩ := Option.filter_eq_some_iff.mp hid
    obtain ⟨entry, he, hrow⟩ := (Option.any_eq_true _ _).mp hany
    exact (Records.Change.resumed id entry he (beq_iff_eq.mp hrow)).changed
  · exact .refl r

theorem redownload_changed (id : RecordId) :
    r.Changed P (batches (r.redownload now id).2) (r.redownload now id).1 := by
  unfold Records.redownload
  split
  · next entry he =>
    split
    · next hs => exact (Records.Change.requeued id entry he hs).changed.next (save_changed _ now)
    · exact .refl r
  · exact .refl r

theorem fetched_changed {mam : MamTorrentId} {hash : TorrentHash}
    (hq : (r.findMam mam).any fun record => record.desired == .queued) (hf : P r mam hash) :
    r.Changed P (batches (r.fetched now mam hash).2) (r.fetched now mam hash).1 := by
  unfold Records.fetched
  refine Records.Changed.next ?_ (save_changed _ now)
  split
  · next id hid =>
    unfold Records.findMam at hq
    rw [hid, Option.bind_some, Option.any_map] at hq
    obtain ⟨entry, he, hrow⟩ := (Option.any_eq_true _ _).mp hq
    exact (Records.Change.linked id mam hash entry hid he (beq_iff_eq.mp hrow) hf).changed
  · exact .refl r

theorem changed_foldl {α : Type} {f : Records → α → Records}
    (h : ∀ (r : Records) a, r.Changed P [] (f r a))
    (l : List α) : r.Changed P [] (l.foldl f r) := by
  induction l generalizing r with
  | nil => exact .refl r
  | cons a l ih => exact (h r a).next (ih (f r a))

theorem bookmarked_changed (bookmarks : List (MamTorrentId × Desired)) :
    r.Changed P (batches (r.bookmarked now bookmarks).2) (r.bookmarked now bookmarks).1 :=
  (changed_foldl r (fun _ new =>
    (Records.Change.bookmarked new).changed) bookmarks).next (save_changed _ now)

theorem snatchedAll_rows (bookmarks : List Bookmark) : (r.snatchedAll now bookmarks).1 =
    bookmarks.foldl (fun r bookmark =>
      if bookmark.snatched = .before then (r.snatched now bookmark.id).1 else r) r := by
  unfold Records.snatchedAll
  refine (List.foldl_hom Prod.fst fun p bookmark => ?_).symm
  obtain ⟨r, actions⟩ := p
  dsimp only
  split <;> rfl

theorem snatchedAll_changed (bookmarks : List Bookmark) :
    r.Changed P (batches (r.snatchedAll now bookmarks).2) (r.snatchedAll now bookmarks).1 := by
  have hfold {f : Records × List Action → Bookmark → Records × List Action}
      (hf : ∀ r actions bookmark, f (r, actions) bookmark =
        if bookmark.snatched = .before then
          ((r.snatched now bookmark.id).1, actions ++ (r.snatched now bookmark.id).2)
        else (r, actions)) :
      ∀ (l : List Bookmark) (r' : Records) (actions : List Action), r.Changed P (batches actions) r' →
        r.Changed P (batches (l.foldl f (r', actions)).2) (l.foldl f (r', actions)).1 := by
    intro l
    induction l with
    | nil => exact fun _ _ h => h
    | cons bookmark l ih =>
      intro r' actions h
      rw [List.foldl_cons, hf]
      by_cases hs : bookmark.snatched = .before
      · simp only [hs, if_true]
        refine ih _ _ ?_
        rw [batches_append]
        exact h.trans (snatched_changed r' now bookmark.id)
      · simp only [hs, if_false]
        exact ih r' actions h
  exact hfold (fun _ _ _ => rfl) bookmarks r [] (.refl r)

theorem releaseCompleted_changed (id : RecordId) (torrent : Torrent) :
    r.Changed P [] (r.releaseCompleted id torrent) := by
  unfold Records.releaseCompleted
  split
  · next hh =>
    rw [Bool.and_eq_true] at hh
    obtain ⟨entry, he, hrow⟩ := (Option.any_eq_true _ _).mp hh.1
    exact (Records.Change.resumed id entry he (beq_iff_eq.mp hrow)).changed
  · exact .refl _

theorem observeTorrent_changed (now : ClockReading) (reported : TorrentHash × Torrent) :
    r.Changed P [] (Records.observeTorrent now r reported) := by
  unfold Records.observeTorrent
  dsimp only
  cases hb : r.byHash[reported.1]? with
  | some id => exact (Records.Change.seen now id reported.2).changed.next (releaseCompleted_changed _ _ _)
  | none =>
    exact (Records.Change.found now reported.1 reported.2 hb).changed.next
      (releaseCompleted_changed _ _ _)

theorem observe_changed (now : ClockReading) (session : Session) :
    r.Changed P (batches (r.observe now session).2) (r.observe now session).1 :=
  (changed_foldl r (fun r reported =>
    observeTorrent_changed r now reported) _).next (save_changed _ now.monotonic)

end

/-! ## Following running downloads -/

/-- The row with this hash is a download Windlass added, and runs or is held. -/
def Records.Runs (r : Records) (hash : TorrentHash) : Prop :=
  ∃ (id : RecordId) (entry : Entry), r.byHash[hash]? = some id ∧ r.entries[id]? = some entry ∧
    (entry.record.desired = .active ∨ entry.record.desired = .held) ∧ entry.record.origin ≠ .adopted

section
variable {P : Records → MamTorrentId → TorrentHash → Prop} {r : Records}

theorem download_runs (hi : r.Indexed) {download : Download} (h : download ∈ r.downloads) :
    r.Runs download.hash := by
  unfold Records.downloads at h
  rw [List.mem_filterMap] at h
  obtain ⟨row, hrow, hdown⟩ := h
  obtain ⟨id, entry, he, rfl⟩ := mem_records.mp hrow
  unfold TorrentRecord.download at hdown
  split at hdown
  · next mam hash hident =>
    dsimp only at hdown
    split at hdown
    · next hrun =>
      cases hdown
      rw [Bool.and_eq_true, Bool.or_eq_true, beq_iff_eq, beq_iff_eq] at hrun
      exact ⟨id, entry, hi id hash (by rw [hashIn, he, Option.bind_some, hident]; rfl), he, hrun.1,
        bne_iff_ne.mp hrun.2⟩
    · cases hdown
  · cases hdown

theorem setDesired_getElem (id id' : RecordId) (desired : Desired) :
    (r.setDesired id desired).entries[id']? =
    if id = id' then r.entries[id']?.map fun e =>
      { e with record := { e.record with desired := desired } }
    else r.entries[id']? := by
  unfold Records.setDesired
  rw [Std.ExtTreeMap.getElem?_modify]
  by_cases h : id = id'
  · subst h
    simp
  · rw [if_neg (by simpa using h), if_neg h]

theorem setDesired_runs {hash : TorrentHash} (h : r.Runs hash) (id : RecordId) {desired : Desired}
    (hd : desired = .active ∨ desired = .held) : (r.setDesired id desired).Runs hash := by
  obtain ⟨id', entry, hb, he, hrun⟩ := h
  by_cases hid : id = id'
  · refine ⟨id', { entry with record := { entry.record with desired := desired } }, hb, ?_, hd, hrun.2⟩
    rw [setDesired_getElem, if_pos hid, he]
    rfl
  · exact ⟨id', entry, hb, by rw [setDesired_getElem, if_neg hid, he], hrun⟩

theorem save_runs {hash : TorrentHash} (h : r.Runs hash) (now : Instant) : (r.save now).1.Runs hash := by
  obtain ⟨id, entry, hb, he, hrun⟩ := h
  unfold Records.save
  split
  · exact ⟨id, entry, hb, he, hrun⟩
  · refine ⟨id, _, hb, by dsimp only; rw [Std.ExtTreeMap.getElem?_map, he]; rfl, ?_⟩
    dsimp only
    split <;> exact hrun

theorem resume_runs {hash : TorrentHash} (h : r.Runs hash) (now : Instant) (hash' : TorrentHash) :
    (r.resume now hash').1.Runs hash := by
  unfold Records.resume
  refine save_runs ?_ now
  split
  · exact setDesired_runs h _ (.inl rfl)
  · exact h

theorem hold_runs {hash : TorrentHash} (h : r.Runs hash) (now : Instant) (hash' : TorrentHash) :
    (r.hold now hash').1.Runs hash := by
  unfold Records.hold
  refine save_runs ?_ now
  split
  · exact setDesired_runs h _ (.inr rfl)
  · exact h

theorem hold_changed {hash : TorrentHash} (h : r.Indexed → r.Runs hash) (now : Instant) :
    r.Changed P (batches (r.hold now hash).2) (r.hold now hash).1 := by
  unfold Records.hold
  refine Records.Changed.next ?_ (save_changed _ now)
  split
  · next id hid =>
    refine (Records.Change.held id fun hi => ?_).changed
    obtain ⟨id', entry, hb, he, hrun⟩ := h hi
    rw [hid] at hb
    cases hb
    exact ⟨entry, he, hrun⟩
  · exact .refl r

/-- What following one running download does to the rows. -/
def Records.follow (r : Records) (now : Instant) (permits noWedges tripped : Bool)
    (watched : Download × DownloadWatch) :
    Records :=
  let free := if watched.2.isFree &&
    (watched.1.desired == .held && permits) then (r.resume now watched.1.hash).1 else r
  if (tripped || (downloadNotice watched.1 watched.2 noWedges).isSome) && watched.1.isDownloading then
    (free.hold now watched.1.hash).1
  else free

theorem follow_records (now : Instant) (observed : Option IpObservation) (permits noWedges tripped : Bool)
    (f : Following) (watched : Download × DownloadWatch) :
    (Following.follow now observed permits noWedges tripped f watched).records =
      f.records.follow now permits noWedges tripped watched := by
  have hreport (f : Following) (download : Download) (notice : Option Notice) :
      (f.report download notice).records = f.records := by
    unfold Following.report
    split
    · split <;> rfl
    · rfl
  obtain ⟨download, watch⟩ := watched
  unfold Following.follow Records.follow
  dsimp only
  rw [hreport]
  cases watch.isFree with
  | false =>
    simp only [Bool.false_eq_true, if_false, Bool.false_and]
    split <;> rfl
  | true =>
    simp only [if_true, Bool.true_and]
    split
    · split <;> rfl
    · split <;> rfl

theorem following_records (m : Mam) (now : ClockReading) (records : Records) :
    (m.following now records).records =
      (m.watchAll now records).foldl (fun r watched =>
        r.follow now.monotonic m.ratioGuard.permitsDownloads
        (m.account.data.any fun data => data.wedges == 0) m.ratioGuard.isTripped watched) records := by
  unfold Mam.following
  exact (List.foldl_hom Following.records fun f watched => (follow_records _ _ _ _ _ f watched).symm).symm

theorem resume_indexed_iff {now : Instant} {hash : TorrentHash} :
    (r.resume now hash).1.Indexed ↔ r.Indexed := by
  unfold Records.resume
  rw [save_indexed_iff]
  split
  · exact setDesired_indexed_iff
  · exact Iff.rfl

theorem hold_indexed_iff {now : Instant} {hash : TorrentHash} :
    (r.hold now hash).1.Indexed ↔ r.Indexed := by
  unfold Records.hold
  rw [save_indexed_iff]
  split
  · exact setDesired_indexed_iff
  · exact Iff.rfl

/-- Following a download leaves the hashes of the rows and their index alone. -/
theorem follow_indexed (now : Instant) (permits noWedges tripped : Bool)
    (watched : Download × DownloadWatch)
    (h : (r.follow now permits noWedges tripped watched).Indexed) : r.Indexed := by
  unfold Records.follow at h
  dsimp only at h
  split at h
  · have h' := hold_indexed_iff.mp h
    split at h'
    · exact resume_indexed_iff.mp h'
    · exact h'
  · split at h
    · exact resume_indexed_iff.mp h
    · exact h

theorem follow_runs {hash : TorrentHash} (h : r.Runs hash) (now : Instant)
    (permits noWedges tripped : Bool)
    (watched : Download × DownloadWatch) : (r.follow now permits noWedges tripped watched).Runs hash := by
  have hfree : (if watched.2.isFree && (watched.1.desired == .held && permits) then
      (r.resume now watched.1.hash).1 else r).Runs hash := by
    split
    · exact resume_runs h now _
    · exact h
  unfold Records.follow
  dsimp only
  split
  · exact hold_runs hfree now _
  · exact hfree

theorem following_resume_changed {r : Records} {f : Following}
    (h : r.Changed P (batches f.actions) f.records)
    (now : Instant) (observed : Option IpObservation) (download : Download) :
    r.Changed P (batches (f.resume now observed download).actions)
    (f.resume now observed download).records := by
  unfold Following.resume
  rw [batches_append]
  exact h.trans (resume_changed _ now _)

theorem follow_changed {r : Records} {f : Following} {watched : Download × DownloadWatch}
    (h : r.Changed P (batches f.actions) f.records)
    (hw : f.records.Indexed → f.records.Runs watched.1.hash)
    (now : Instant)
    (observed : Option IpObservation) (permits noWedges tripped : Bool) :
    r.Changed P (batches (Following.follow now observed permits noWedges tripped f watched).actions)
      (Following.follow now observed permits noWedges tripped f watched).records := by
  have hreport (f : Following) (download : Download) (notice : Option Notice)
      (h : r.Changed P (batches f.actions) f.records) :
      r.Changed P (batches (f.report download notice).actions) (f.report download notice).records := by
    unfold Following.report
    split
    · split <;> exact h
    · exact h
  have hhold (f : Following) (h : r.Changed P (batches f.actions) f.records)
      (hw : f.records.Indexed → f.records.Runs watched.1.hash) :
      r.Changed P (batches (f.hold now watched.1).actions) (f.hold now watched.1).records := by
    unfold Following.hold
    rw [batches_append]
    exact h.trans (hold_changed hw now)
  obtain ⟨download, watch⟩ := watched
  unfold Following.follow
  dsimp only at hw hhold ⊢
  refine hreport _ _ _ ?_
  cases watch.isFree with
  | false =>
    simp only [Bool.false_eq_true, if_false]
    split
    · exact hhold f h hw
    · exact h
  | true =>
    simp only [if_true]
    by_cases hres : (download.desired == .held && permits) = true
    · simp only [hres, if_true]
      have hr := following_resume_changed h now observed download
      split
      · refine hhold { f.resume now observed download with reported := _ } hr fun hi => ?_
        exact resume_runs (hw (resume_indexed_iff.mp hi)) now download.hash
      · exact hr
    · simp only [hres]
      split
      · exact hhold { f with reported := _ } h hw
      · exact h

theorem followAll_changed {r : Records} (now : Instant) (observed : Option IpObservation)
    (permits noWedges tripped : Bool) (watched : List (Download × DownloadWatch)) (f : Following)
    (h : r.Changed P (batches f.actions) f.records)
    (hw : ∀ w ∈ watched, f.records.Indexed → f.records.Runs w.1.hash) :
    r.Changed P (batches (watched.foldl (Following.follow now observed permits noWedges tripped)
      f).actions)
      (watched.foldl (Following.follow now observed permits noWedges tripped) f).records := by
  induction watched generalizing f with
  | nil => exact h
  | cons w watched ih =>
    refine ih _ (follow_changed h (hw w List.mem_cons_self) now observed permits noWedges tripped)
      fun w' hw' => ?_
    rw [follow_records]
    intro hi
    exact follow_runs (hw w' (List.mem_cons_of_mem w hw')
      (follow_indexed now permits noWedges tripped w hi)) now permits
      noWedges tripped w

theorem mem_watchAll {a : Acquisition} {downloads : List Download} {data : Option UserData}
    {now : Instant}
    {wall : SystemTime} {download : Download} {watch : DownloadWatch}
    (h : (download, watch) ∈ a.watchAll downloads data now wall) : download ∈ downloads := by
  unfold Acquisition.watchAll at h
  rw [List.mem_map] at h
  obtain ⟨d, hd, heq⟩ := h
  cases heq
  exact (List.mem_filter.mp hd).1

theorem following_changed (r : Records) (m : Mam) (now : ClockReading) :
    r.Changed P (batches (m.following now r).actions) (m.following now r).records :=
  followAll_changed _ _ _ _ _ _ _ (.refl r) fun _ hw hi => download_runs hi (mem_watchAll hw)

end

/-! ## The registry in a step -/

inductive Registry.Changed (P : Records → MamTorrentId → TorrentHash → Prop) :
    Registry → List (List TorrentRecord) → Registry → Prop
  | same (g : Registry) : Registry.Changed P g [] g
  | loaded {r r' : Records} {out : List (List TorrentRecord)} (h : r.Changed P out r') :
    Registry.Changed P (.loaded r) out (.loaded r')

/-- The torrent an answer delivers, with its MAM ID. -/
def Mam.delivered (m : Mam) (event : MamEvent) : Option (MamTorrentId × TorrentHash) :=
  match m.outstanding, event with
  | some (.request (.fetchTorrent id _) _ _), .answered (.ok (.fetched torrent)) _ =>
    some (id, torrent.hash)
  | _, _ => none

/-- What storage's answer makes of the rows, before they change further. -/
def Records.answered (r : Records) (event : Event) : Records :=
  match event, r.saving with
  | .registry .saved, some _ => { r with saving := none, lastSave := .saved }
  | .registry .saveFailed, some ids =>
    { r with unsaved := r.unsaved ∪ ids, saving := none, lastSave := .failed }
  | _, _ => r

def Registry.answered (g : Registry) (event : Event) : Registry :=
  match g.loadedBy event with
  | .loaded r => .loaded (r.answered event)
  | g => g

section
variable {P : Records → MamTorrentId → TorrentHash → Prop} {g g' g'' : Registry}
  {out out' : List (List TorrentRecord)}

theorem Registry.Changed.trans (h : g.Changed P out g') (h' : g'.Changed P out' g'') :
    g.Changed P (out ++ out') g'' := by
  cases h with
  | same => exact h'
  | loaded h =>
    cases h' with
    | same =>
      rw [List.append_nil]
      exact .loaded h
    | loaded h' => exact .loaded (h.trans h')

theorem Registry.Changed.indexed (h : g.Changed P out g') (hi : ∀ r, g = .loaded r → r.Indexed) :
    ∀ r, g' = .loaded r → r.Indexed := by
  cases h with
  | same => exact hi
  | loaded h =>
    intro r hr
    cases hr
    exact h.indexed (hi _ rfl)

theorem Registry.Changed.unloaded (h : g.Changed P out g') (hg : g.records? = none) :
    g'.records? = none ∧ out = [] := by
  cases h with
  | same => exact ⟨hg, rfl⟩
  | loaded => cases hg

theorem change_changed (g : Registry) {f : Records → Records × List Action}
    (h : ∀ r, g = .loaded r → r.Changed P (batches (f r).2) (f r).1) :
    g.Changed P (batches (g.change f).2) (g.change f).1 := by
  cases g with
  | loaded r => exact .loaded (h r rfl)
  | _ => exact .same _

end

section
variable {P : Records → MamTorrentId → TorrentHash → Prop} (m : Mam) (now : ClockReading) {g : Registry}

theorem followDownloads_changed :
    g.Changed P (batches (m.followDownloads now g).2.2) (m.followDownloads now g).2.1 := by
  cases g with
  | loaded records => exact .loaded (following_changed records m now)
  | _ => exact .same _

theorem mam_fetched_changed (id : MamTorrentId) (wedge : Wedge) (result : Except MamFailure MamReply)
    (hf : ∀ torrent r, result = .ok (.fetched torrent) → g = .loaded r → P r id torrent.hash) :
    g.Changed P (batches (m.fetched now id wedge result g).2.2)
    (m.fetched now id wedge result g).2.1 := by
  unfold Mam.fetched
  dsimp only
  split
  · split
    · next torrent hq =>
      refine change_changed g ?_
      rintro r rfl
      exact fetched_changed r _ hq (hf torrent r rfl rfl)
    · exact followDownloads_changed _ now
  all_goals exact .same g

theorem listed_changed (page : BookmarkPage) :
    g.Changed P (batches (m.listed now page g).2.2) (m.listed now page g).2.1 := by
  unfold Mam.listed
  dsimp only
  split
  · next listed records _ =>
    have hs := snatchedAll_changed (P := P) records now.monotonic listed.bookmarks
    have hb := bookmarked_changed (P := P) (records.snatchedAll now.monotonic listed.bookmarks).1
      now.monotonic
      ((records.snatchedAll now.monotonic listed.bookmarks).1.newBookmarks listed.bookmarks)
    have hl := Registry.Changed.loaded (hs.trans hb)
    rw [batches_append, batches_append]
    exact hl.trans (followDownloads_changed _ now)
  · exact .same _

theorem seen_batches (seen : Seen) : batches seen.actions = [] := by
  cases seen <;> rfl

theorem torrentAnswered_changed (id : MamTorrentId) (result : Except MamFailure MamReply) :
    g.Changed P (batches (m.torrentAnswered now id result g).2.2)
    (m.torrentAnswered now id result g).2.1 := by
  unfold Mam.torrentAnswered
  split
  · dsimp only
    split
    · have h := change_changed g fun r _ => snatched_changed (P := P) r now.monotonic id
      rw [batches_append]
      exact h.trans (followDownloads_changed _ now)
    · exact followDownloads_changed _ now
  all_goals exact .same g

theorem applyAnswer_changed (request : MamRequest) (result : Except MamFailure MamReply) (current : Bool)
    (hf : ∀ id wedge torrent r, request = .fetchTorrent id wedge → result = .ok (.fetched torrent) →
      g = .loaded r → P r id torrent.hash) :
    g.Changed P (batches (m.applyAnswer now request result current g).2.2)
      (m.applyAnswer now request result current g).2.1 := by
  unfold Mam.applyAnswer
  split
  · exact .same g
  · next id wedge => exact mam_fetched_changed m now id wedge _ fun torrent r => hf id wedge torrent r rfl
  · exact .same g
  · exact .same g
  · unfold Mam.userDataAnswered
    split
    · dsimp only
      rw [batches_append, seen_batches, List.nil_append]
      exact followDownloads_changed _ now
    all_goals exact .same g
  · unfold Mam.historyAnswered
    split
    · exact followDownloads_changed _ now
    all_goals exact .same g
  · exact torrentAnswered_changed m now _ _
  · unfold Mam.bookmarksAnswered
    split
    · exact listed_changed m now _
    all_goals exact .same g
  · exact .same g

theorem mam_handle_changed (event : MamEvent)
    (hf : ∀ mam hash r, m.delivered event = some (mam, hash) → g = .loaded r → P r mam hash) :
    g.Changed P (batches (m.handle now event g).2.2.1) (m.handle now event g).2.1 := by
  cases event with
  | ratioUseChecked =>
    simp only [Mam.handle, Mam.ratioUseChecked]
    split
    · exact followDownloads_changed _ now
    · exact .same g
  | answered result rotated =>
    simp only [Mam.handle, Mam.requestAnswered]
    split
    · next request at' epoch ho =>
      refine applyAnswer_changed _ now _ _ _ ?_
      rintro id wedge torrent r rfl rfl hg
      exact hf id torrent.hash r (by simp [Mam.delivered, ho]) hg
    · exact .same g
  | registrationAttemptSaved =>
    have hb : batches (m.registrationAttemptSaved now).2 = [] := by
      unfold Mam.registrationAttemptSaved
      split
      · dsimp only
        split <;> rfl
      · rfl
    simp only [Mam.handle, hb]
    exact .same g
  | _ => exact .same g

end

/-- The torrent an event delivers, with its MAM ID. -/
def Core.delivered (c : Core) (event : Event) : Option (MamTorrentId × TorrentHash) :=
  match event with
  | .mam event => c.mam.delivered event
  | _ => none

section
variable {P : Records → MamTorrentId → TorrentHash → Prop} (c : Core) (now : ClockReading) (event : Event)

theorem answered_other {g : Registry} {event : Event} (h : ∀ e, event ≠ .registry e) :
    g.answered event = g := by
  unfold Registry.answered Registry.loadedBy Records.answered
  cases event with
  | registry e => exact absurd rfl (h e)
  | _ => cases g <;> rfl

theorem registry_handle_changed (g : Registry) (now : Instant) (event : RegistryEvent) :
    (g.answered (.registry event)).Changed P (batches (g.handle now event).2) (g.handle now event).1 ∨
      (g.handle now event).1 = .readFailed ∧ batches (g.handle now event).2 = [] ∧ g.records? = none := by
  cases g with
  | reading =>
    cases event with
    | readFailed => exact .inr ⟨rfl, rfl, rfl⟩
    | _ => exact .inl (.same _)
  | loaded records =>
    left
    cases event with
    | saved =>
      simp only [Registry.handle, Registry.answered, Registry.loadedBy, Records.answered]
      cases hs : records.saving with
      | some ids => exact .loaded (save_changed _ now)
      | none => exact .same _
    | redownload id => exact .loaded (redownload_changed records now id)
    | saveFailed =>
      simp only [Registry.handle, Registry.answered, Registry.loadedBy, Records.answered]
      cases hs : records.saving with
      | some ids => exact .same _
      | none => exact .same _
    | _ => exact .same _
  | _ =>
    left
    cases event <;> exact .same _

theorem handleStartup_batches (event : StartupEvent) : batches (c.handleStartup event).2 = [] := by
  have h := (startup_emits c.state event).batches (by decide)
  simp only [Core.handleStartup, batches_append, h, List.nil_append]
  split <;> rfl

theorem dispatch_batches {event : Event} (h : Part.registry ∉ event.parts) :
    batches (c.dispatch now event).2 = [] := by
  refine batches_none fun a ha hp => h ?_
  rw [← hp]
  exact dispatch_parts c now ha

theorem dispatch_changed
    (hf : ∀ mam hash r, c.delivered event = some (mam, hash) → c.registry = .loaded r → P r mam hash) :
    (c.registry.answered event).Changed P (batches (c.dispatch now event).2)
    (c.dispatch now event).1.registry ∨
      (c.dispatch now event).1.registry.records? = none ∧ batches (c.dispatch now event).2 = [] ∧
        (c.registry.records? = none ∨ c.state.isOpeningStorage) := by
  have hother {event : Event} (he : ∀ e, event ≠ .registry e) (hp : Part.registry ∉ event.parts)
      (hr : (c.dispatch now event).1.registry = c.registry) :
      (c.registry.answered event).Changed P (batches (c.dispatch now event).2)
      (c.dispatch now event).1.registry := by
    rw [answered_other he, dispatch_batches c now hp, hr]
    exact .same _
  cases event with
  | startup event =>
    have hb : batches (c.dispatch now (.startup event)).2 = [] := handleStartup_batches c event
    obtain ⟨-, -, h⟩ | ⟨ho, -, -, -, h⟩ := handleStartup_eq c event
    · left
      have h' : (c.dispatch now (.startup event)).1.registry = c.registry := h
      rw [h', hb, answered_other (by simp)]
      exact .same _
    · right
      have h' : (c.dispatch now (.startup event)).1.registry = .reading := h
      rw [h']
      exact ⟨rfl, hb, .inr ho⟩
  | registry event =>
    obtain h | ⟨h, hb, hn⟩ := registry_handle_changed (P := P) c.registry now.monotonic event
    · exact .inl h
    · right
      have h' : (c.dispatch now (.registry event)).1.registry = .readFailed := h
      rw [h']
      exact ⟨rfl, hb, .inl hn⟩
  | mam event =>
    left
    have h := mam_handle_changed (P := P) c.mam now event hf
    rw [answered_other (by simp)]
    have hb : batches (c.dispatch now (.mam event)).2 =
        batches (c.mam.handle now event c.registry).2.2.1 := by
      simp only [Core.dispatch, Core.handleMam, batches_append]
      split
      · rw [(settings_rotate_emits _ _).batches (by decide), List.append_nil]
      · rw [batches_nil, List.append_nil]
    rw [hb]
    exact h
  | timerExpired name id =>
    left
    refine hother (by simp) (by cases name <;> simp [Event.parts, TimerName.part]) ?_
    cases name <;> rfl
  | _ => exact .inl (hother (by simp) (by simp [Event.parts]) rfl)

theorem observe_registry_changed (c : Core) :
    c.registry.Changed P (batches (c.observe now).2) (c.observe now).1.registry := by
  unfold Core.observe
  split
  · cases hr : c.registry with
    | loaded records =>
      simp only [Registry.observe]
      split
      · exact .loaded (observe_changed records now _)
      · exact .same _
    | _ =>
      simp only [Registry.observe]
      exact .same _
  · exact .same _

theorem handle_batches : batches (c.handle now event).2 =
    batches ((c.note event).dispatch now event).2 ++
      batches ((((c.note event).dispatch now event).1.expireLease now).observe now).2 := by
  rw [handle_out]
  simp only [batches_append, (decideMam_emits c now event).batches (by decide),
    (renewLease_emits _).batches (by decide), (decideQbittorrent_emits now _).batches (by decide),
    (trimHistory_emits _).batches (by decide), (notify_emits now _ _ _).batches (by decide),
    List.append_nil]

/-- A step turns the rows storage's answer left into those it decides on, and
hands every batch on the way to storage. -/
theorem received_changed
    (hf : ∀ mam hash r, c.delivered event = some (mam, hash) → c.registry = .loaded r → P r mam hash) :
    (c.registry.answered event).Changed P (batches (c.handle now event).2)
    (c.received now event).registry ∨
      (c.received now event).registry.records? = none ∧ batches (c.handle now event).2 = [] ∧
        (c.registry.records? = none ∨ c.state.isOpeningStorage) := by
  have h : ((c.note event).dispatch now event).1.registry.Changed P _ (c.received now event).registry :=
    observe_registry_changed now (((c.note event).dispatch now event).1.expireLease now)
  rw [handle_batches]
  obtain hd | ⟨hd, hb, hn⟩ := dispatch_changed (c.note event) now event hf
  · exact .inl (hd.trans h)
  · right
    rw [hb, List.nil_append]
    obtain ⟨hr, ho⟩ := h.unloaded hd
    exact ⟨hr, ho, hn⟩

/-- Choosing a command hands on the registry as the command left it, and the
command to qBittorrent. -/
theorem qbittorrent_decide_registry {ρ : Type} (q : Qbittorrent) (timers : Timers) (wanted : Wanted)
    (registry : ρ) (command : ρ → Session → ρ × Option TorrentCommand) :
    (q.decide now timers wanted registry command).2.2.1 = registry ∨ ∃ session,
      (q.decide now timers wanted registry command).2.2.1 = (command registry session).1 ∧
      ∀ given, (command registry session).2 = some given →
        .qbittorrentCommand given ∈ (q.decide now timers wanted registry command).2.2.2 := by
  unfold Qbittorrent.decide
  split
  · exact .inl rfl
  · next session after _ =>
    split
    · exact .inl rfl
    · split
      · exact .inl rfl
      · right
        refine ⟨session, ?_⟩
        split
        · next h =>
          rw [h]
          refine ⟨rfl, fun given hg => ?_⟩
          cases hg
          exact List.mem_singleton_self _
        · next h =>
          rw [h]
          refine ⟨?_, fun given hg => by cases hg⟩
          split <;> rfl

theorem handle_registry : (c.handle now event).1.registry =
    (((c.received now event).decideMam now).1.renewLease.1.decideQbittorrent now).1.registry := by
  rw [handle_eq, decided_eq]

theorem registry_command_given (g : Registry) (now : Instant) (permits : MamTorrentId → Bool)
    (session : Session) :
    (g.command now permits session).1 = g ∨ ∃ r given, g = .loaded r ∧
      (g.command now permits session).1 = .loaded { r with lastCommand := some (given, now) } ∧
      (g.command now permits session).2 = some given := by
  cases g with
  | loaded records =>
    simp only [Registry.command]
    split
    · unfold Records.command
      split
      · split
        · exact .inl rfl
        · exact .inr ⟨records, _, rfl, rfl, rfl⟩
      · exact .inl rfl
    · exact .inl rfl
  | _ => exact .inl rfl

/-- Once it follows qBittorrent, a step changes nothing about the registry but the
last command, and only to the one it gives. -/
theorem handle_given : (c.handle now event).1.registry = (c.received now event).registry ∨
    ∃ r given, (c.received now event).registry = .loaded r ∧
      (c.handle now event).1.registry = .loaded { r with lastCommand := some (given, now.monotonic) } ∧
      .qbittorrentCommand given ∈ (c.handle now event).2 := by
  have hreg : ((c.received now event).decideMam now).1.renewLease.1.registry =
      (c.received now event).registry := by
    rw [renewLease_frame, decideMam_eq]
  have hout : ∀ a ∈ (((c.received now event).decideMam now).1.renewLease.1.decideQbittorrent now).2,
      a ∈ (c.handle now event).2 := by
    intro a ha
    rw [handle_out]
    simp only [List.mem_append]
    exact .inl (.inr (.inl (.inr ha)))
  rw [handle_registry, ← hreg]
  generalize ((c.received now event).decideMam now).1.renewLease.1 = d at hout ⊢
  simp only [Core.decideQbittorrent, List.mem_append] at hout ⊢
  obtain h | ⟨session, h, hgiven⟩ :=
    qbittorrent_decide_registry now d.qbittorrent d.timers d.wanted d.registry
    fun registry session => registry.command now.monotonic d.mam.permitsDownload session
  · exact .inl h
  · rw [h]
    obtain hs | ⟨r, given, hr, hs, hg⟩ :=
      registry_command_given d.registry now.monotonic d.mam.permitsDownload session
    · exact .inl hs
    · exact .inr ⟨r, given, hr, hs, hout _ (.inl (hgiven given hg))⟩

/-- Choosing a command changes nothing about the rows. -/
def Registry.Commanded (g g' : Registry) : Prop :=
  g' = g ∨ ∃ r last, g = .loaded r ∧ g' = .loaded { r with lastCommand := last }

theorem handle_commanded : (c.received now event).registry.Commanded (c.handle now event).1.registry := by
  obtain h | ⟨r, given, hr, h, -⟩ := handle_given c now event
  · exact .inl h
  · exact .inr ⟨r, _, hr, h⟩

theorem handle_loaded {r : Records} (hr : (c.received now event).registry = .loaded r) :
    ∃ last, (c.handle now event).1.registry = .loaded { r with lastCommand := last } := by
  obtain hk | ⟨r₀, last, h₀, hk⟩ := handle_commanded c now event
  · exact ⟨r.lastCommand, hk.trans hr⟩
  · rw [hr] at h₀
    cases h₀
    exact ⟨last, hk⟩

theorem received_unloaded (h : (c.received now event).registry.records? = none) :
    batches (c.handle now event).2 = [] := by
  obtain hc | ⟨-, hb, -⟩ := received_changed (P := fun _ _ _ => True) c now event fun _ _ _ _ _ => trivial
  · generalize c.registry.answered event = answered at hc
    generalize (c.received now event).registry = g at h hc
    generalize batches (c.handle now event).2 = out at hc ⊢
    cases hc with
    | same => rfl
    | loaded => cases h
  · exact hb

/-- The rows a step decides on come by changes from those the event found or loaded. -/
theorem received_from {records : Records} (h : (c.received now event).registry = .loaded records)
    (hf : ∀ mam hash r, c.delivered event = some (mam, hash) → c.registry = .loaded r → P r mam hash) :
    ∃ r, c.registry.loadedBy event = .loaded r ∧
      (r.answered event).Changed P (batches (c.handle now event).2) records := by
  obtain hc | ⟨hn, -⟩ := received_changed c now event hf
  · rw [h] at hc
    unfold Registry.answered at hc
    generalize c.registry.loadedBy event = g at hc
    generalize batches (c.handle now event).2 = out at hc ⊢
    cases g with
    | loaded r =>
      cases hc with
      | same => exact ⟨r, rfl, .refl _⟩
      | loaded hc => exact ⟨r, rfl, hc⟩
    | _ => cases hc
  · rw [h] at hn
    cases hn

end

/-! ## What holds of the rows along a run -/

/-- What storage's answers, commands and changes of the rows keep. -/
structure Records.Invariant (P : Records → MamTorrentId → TorrentHash → Prop) (I : Records → Prop) :
    Prop where
  answered : ∀ r event, I r → I (r.answered event)
  commanded : ∀ r last, I r → I { r with lastCommand := last }
  changed : ∀ r out r', I r → r.Change P out r' → I r'

section
variable {P : Records → MamTorrentId → TorrentHash → Prop} {I : Records → Prop}
  (hI : Records.Invariant P I)
include hI

theorem received_kept {c : Core} {now : ClockReading} {event : Event}
    (hbefore : ∀ r, c.registry = .loaded r → I r)
    (hread : ∀ rows, event = .registry (.read rows) → I (Records.new rows))
    (hf : ∀ mam hash r, c.delivered event = some (mam, hash) → c.registry = .loaded r → P r mam hash) :
    ∀ r, (c.received now event).registry = .loaded r → I r := by
  intro r hr
  obtain ⟨r₀, hl, hc⟩ := received_from c now event hr hf
  refine Reactive.Chain.kept hI.changed hc (hI.answered r₀ event ?_)
  unfold Registry.loadedBy at hl
  split at hl
  · next rows _ =>
    cases hl
    exact hread rows rfl
  · exact hbefore r₀ hl

theorem handle_kept {c : Core} {now : ClockReading} {event : Event}
    (h : ∀ r, (c.received now event).registry = .loaded r → I r) :
    ∀ r, (c.handle now event).1.registry = .loaded r → I r := by
  intro r hr
  obtain hc | ⟨r', last, hr', hc⟩ := handle_commanded c now event
  · exact h r (hc.symm.trans hr)
  · rw [hr] at hc
    cases hc
    exact hI.commanded r' last (h r' hr')

/-- It holds of the rows whenever it holds of them as they are read. -/
theorem registry_kept {is : List TimedEvent}
    (hread : ∀ i ∈ is, ∀ rows, i.event = .registry (.read rows) → I (Records.new rows))
    (hf : ∀ e ∈ core.run is, ∀ mam hash r, e.before.delivered e.input.event = some (mam, hash) →
      e.before.registry = .loaded r → P r mam hash) :
    ∀ r, (core.last is).registry = .loaded r → I r := by
  induction is using List.reverseRecOn with
  | nil =>
    intro r hr
    cases hr
  | append_singleton is i ih =>
    rw [Reactive.run_snoc] at hf
    rw [Reactive.last_snoc, core_step]
    refine handle_kept hI (received_kept hI ?_ ?_ (hf (core.entry (core.last is) i) (by simp)))
    · exact ih (fun j hj => hread j (List.mem_append_left _ hj)) fun e he =>
        hf e (List.mem_append_left _ he)
    · exact hread i (List.mem_append_right _ List.mem_cons_self)

end

/-! ## Indexed rows along a run -/

theorem answered_indexed {r : Records} (hi : r.Indexed) (event : Event) : (r.answered event).Indexed := by
  unfold Records.answered
  split <;> exact hi

theorem indexed_invariant (P : Records → MamTorrentId → TorrentHash → Prop) :
    Records.Invariant P Records.Indexed :=
  ⟨fun _ event h => answered_indexed h event, fun _ _ h => h, fun _ _ _ h hc => hc.indexed h⟩

/-- Whatever happens to it, a registry read from storage stays indexed. -/
theorem registry_indexed {is : List TimedEvent} (h : ReadsDistinct is) {records : Records}
    (hr : (core.last is).registry = .loaded records) : records.Indexed :=
  registry_kept (indexed_invariant fun _ _ _ => True) (fun i hi rows hev => new_indexed (h i hi rows hev))
    (fun _ _ _ _ _ _ _ => trivial) records hr

end Windlass
