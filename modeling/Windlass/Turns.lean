import Windlass.CookieSound
import Windlass.CommandSound

/-!
# What becomes of a row

Every change of the registry's rows is a chain of turns, each of which says what
the row it is made to was before. A turn keeps the rows found under their hashes
and leaves at most one live row for a MAM torrent.
-/

namespace Windlass

/-- The elementary changes of the rows, with what each needs of its row. -/
inductive Records.Turn (r : Records) : Records → Prop
  | saved (now : Instant) : Records.Turn r (r.save now).1
  | bookmarked (new : MamTorrentId × Desired) : Records.Turn r (r.bookmark new)
  | adopted (hash : TorrentHash) (torrent : Torrent) (hn : r.byHash[hash]? = none) :
    Records.Turn r (r.adopt hash torrent).1
  | seen (now : ClockReading) (id : RecordId) (torrent : Torrent) : Records.Turn r
      (r.recordSeen now id torrent)
  | snatched (id : RecordId) (entry : Entry) (he : r.entries[id]? = some entry)
      (hq : entry.record.desired = .queued) (ho : entry.record.origin = .bookmark) :
    Records.Turn r (r.setDesired id .snatched)
  | requeued (id : RecordId) (entry : Entry) (he : r.entries[id]? = some entry)
      (hs : entry.record.desired = .snatched) : Records.Turn r
    { r with
      entries := r.entries.insert id
        { entry with record := { entry.record with desired := .queued, origin := .redownload } }
      unsaved := r.unsaved.insert id }
  | resumed (id : RecordId) (entry : Entry) (he : r.entries[id]? = some entry)
      (hh : entry.record.desired = .held) : Records.Turn r (r.setDesired id .active)
  | held (id : RecordId) (entry : Entry) (he : r.entries[id]? = some entry)
      (hr : entry.record.desired = .active ∨ entry.record.desired = .held) :
    Records.Turn r (r.setDesired id .held)
  | linked (id : RecordId) (mam : MamTorrentId) (hash : TorrentHash) (entry : Entry)
      (hm : r.byMam[mam]? = some id) (he : r.entries[id]? = some entry) (hq : entry.record.desired =
        .queued) :
    Records.Turn r (r.link id mam hash)
  | written (unsaved : Std.ExtTreeSet RecordId) (lastSave : LastSave) :
    Records.Turn r { r with unsaved := unsaved, saving := none, lastSave := lastSave }
  | commanded (last : Option (TorrentCommand × Instant)) : Records.Turn r { r with lastCommand := last }

def Records.Turned : Records → Records → Prop := Relation.ReflTransGen Records.Turn

theorem Records.Turn.turned {r r' : Records} (h : r.Turn r') : r.Turned r' := .single h

theorem Records.Turned.refl (r : Records) : r.Turned r := Relation.ReflTransGen.refl

theorem Records.Turned.trans {r r' r'' : Records} (h : r.Turned r') (h' : r'.Turned r'') : r.Turned r'' :=
  Relation.ReflTransGen.trans h h'

theorem turned_foldl {α : Type} {f : Records → α → Records} (r : Records)
    (h : ∀ (r : Records) a, r.Turned (f r a))
    (l : List α) : r.Turned (l.foldl f r) := by
  induction l generalizing r with
  | nil => exact .refl r
  | cons a l ih => exact (h r a).trans (ih (f r a))

section
variable {r r' : Records}

theorem Records.Turn.indexed (ht : r.Turn r') (h : r.Indexed) : r'.Indexed := by
  cases ht with
  | saved now => exact save_indexed h now
  | bookmarked new => exact bookmark_indexed h new
  | adopted hash torrent hn => exact adopt_indexed h torrent hn
  | seen now id torrent => exact recordSeen_indexed h now id torrent
  | snatched id => exact setDesired_indexed h id .snatched
  | requeued id entry he => exact h.of_hashes (hashIn_insert_same he rfl) rfl
  | resumed id => exact setDesired_indexed h id .active
  | held id => exact setDesired_indexed h id .held
  | linked id mam hash => exact link_indexed h id mam hash
  | written => exact h
  | commanded => exact h

theorem Records.Turned.indexed (ht : r.Turned r') (h : r.Indexed) : r'.Indexed := by
  induction ht with
  | refl => exact h
  | tail _ ht ih => exact ht.indexed ih

/-- What a turn may have made of the row it leaves at `id`. -/
inductive RowAfter (r r' : Records) (id : RecordId) (row : TorrentRecord) : Prop
  | kept (entry : Entry) (he : r.entries[id]? = some entry) (hi : row.identity = entry.record.identity)
      (ho : row.origin = entry.record.origin) (hd : row.desired = entry.record.desired)
  | bookmarked (mam : MamTorrentId) (hn : r.byMam[mam]? = none) (hi : row.identity = .mam mam)
      (hm : r'.byMam[mam]? = some id)
  | adopted (hash : TorrentHash) (hi : row.identity = .client hash)
  | snatched (entry : Entry) (he : r.entries[id]? = some entry) (hi : row.identity =
      entry.record.identity)
      (hq : entry.record.desired = .queued) (hd : row.desired = .snatched)
  | requeued (entry : Entry) (he : r.entries[id]? = some entry) (hi : row.identity =
      entry.record.identity)
      (hs : entry.record.desired = .snatched) (ho : row.origin = .redownload)
  | running (entry : Entry) (he : r.entries[id]? = some entry) (hi : row.identity = entry.record.identity)
      (hr : entry.record.desired = .active ∨ entry.record.desired = .held)
      (hd : row.desired = .active ∨ row.desired = .held)
  | removed (hd : row.desired = .removed)
  | linked (mam : MamTorrentId) (hash : TorrentHash) (hi : row.identity = .linked mam hash)
      (hd : row.desired = .active) (hm : r'.byMam[mam]? = some id)

theorem setDesired_entries {id id' : RecordId} {desired : Desired} {entry' : Entry}
    (h : (r.setDesired id desired).entries[id']? = some entry') :
    ∃ entry, r.entries[id']? = some entry ∧ entry'.record.identity = entry.record.identity ∧
      entry'.record.origin = entry.record.origin ∧
      entry'.record.desired = if id = id' then desired else entry.record.desired := by
  unfold Records.setDesired at h
  rw [Std.ExtTreeMap.getElem?_modify] at h
  by_cases hid : id = id'
  · subst hid
    rw [if_pos (by simp), Option.map_eq_some_iff] at h
    obtain ⟨entry, he, rfl⟩ := h
    exact ⟨entry, he, rfl, rfl, by simp⟩
  · rw [if_neg (by simpa using hid)] at h
    exact ⟨entry', h, rfl, rfl, by simp [hid]⟩

theorem setDesired_rows {id id' : RecordId} {entry entry' : Entry} {desired : Desired}
    (he : r.entries[id]? = some entry) (h : (r.setDesired id desired).entries[id']? = some entry')
    (hrow : entry'.record.identity = entry.record.identity → entry'.record.desired = desired →
      RowAfter r (r.setDesired id desired) id entry'.record) :
    RowAfter r (r.setDesired id desired) id' entry'.record := by
  obtain ⟨old, ho, hi, horigin, hd⟩ := setDesired_entries h
  by_cases hid : id = id'
  · subst hid
    rw [he, Option.some.injEq] at ho
    subst ho
    exact hrow hi (by simpa using hd)
  · rw [if_neg hid] at hd
    exact .kept old ho hi horigin hd

theorem save_entries {now : Instant} {id : RecordId} {entry' : Entry}
    (h : (r.save now).1.entries[id]? = some entry') :
    ∃ entry, r.entries[id]? = some entry ∧ entry'.record = entry.record := by
  unfold Records.save at h
  split at h
  · exact ⟨entry', h, rfl⟩
  · dsimp only at h
    rw [Std.ExtTreeMap.getElem?_map, Option.map_eq_some_iff] at h
    obtain ⟨entry, he, rfl⟩ := h
    refine ⟨entry, he, ?_⟩
    split <;> rfl

theorem save_byMam (now : Instant) : (r.save now).1.byMam = r.byMam := by
  unfold Records.save
  split <;> rfl

theorem insert_entries {entries : Std.ExtTreeMap RecordId Entry} {id id' : RecordId}
    {entry entry' : Entry}
    (h : (entries.insert id entry)[id']? = some entry') :
    id = id' ∧ entry' = entry ∨ id ≠ id' ∧ entries[id']? = some entry' := by
  rw [Std.ExtTreeMap.getElem?_insert] at h
  by_cases hid : id = id'
  · rw [if_pos (by simpa using hid), Option.some.injEq] at h
    exact .inl ⟨hid, h.symm⟩
  · rw [if_neg (by simpa using hid)] at h
    exact .inr ⟨hid, h⟩

theorem RowAfter.same {id : RecordId} {entry entry' : Entry} (he : r.entries[id]? = some entry)
    (h : entry'.record = entry.record) : RowAfter r r' id entry'.record := by
  rw [h]
  exact .kept entry he rfl rfl rfl

theorem bookmark_rows {new : MamTorrentId × Desired} {id : RecordId} {entry : Entry}
    (h : (r.bookmark new).entries[id]? = some entry) : RowAfter r (r.bookmark new) id entry.record := by
  obtain ⟨mam, desired⟩ := new
  unfold Records.bookmark at h ⊢
  dsimp only at h ⊢
  split at h
  · next hc =>
    rw [if_pos hc]
    exact .same h rfl
  · next hc =>
    rw [if_neg hc]
    obtain ⟨rfl, rfl⟩ | ⟨-, h⟩ := insert_entries h
    · refine .bookmarked mam ?_ rfl (by simp [Records.allocate])
      simpa using hc
    · exact .same h rfl

theorem adopt_rows {hash : TorrentHash} {torrent : Torrent} {id : RecordId} {entry : Entry}
    (h : (r.adopt hash torrent).1.entries[id]? = some entry) :
    RowAfter r (r.adopt hash torrent).1 id entry.record := by
  obtain ⟨rfl, rfl⟩ | ⟨-, h⟩ := insert_entries h
  · exact .adopted hash rfl
  · exact .same h rfl

theorem entry_observe_record (entry : Entry) (now : Instant) (observation : Observation) :
    (entry.observe now observation).1.record = { entry.record with observation := some observation } := by
  unfold Entry.observe
  dsimp only
  split
  · split <;> rfl
  · rfl

theorem recordSeen_rows {now : ClockReading} {id id' : RecordId} {torrent : Torrent} {entry' : Entry}
    (h : (r.recordSeen now id torrent).entries[id']? = some entry') :
    RowAfter r (r.recordSeen now id torrent) id' entry'.record := by
  unfold Records.recordSeen at h ⊢
  cases he : r.entries[id]? with
  | none =>
    rw [he] at h
    exact .same h rfl
  | some entry =>
    rw [he] at h
    obtain ⟨rfl, rfl⟩ | ⟨-, h⟩ := insert_entries h
    · have hr := entry_observe_record entry now.monotonic { torrent := torrent, lastSeen := now.wall }
      exact .kept entry he (by rw [hr]) (by rw [hr]) (by rw [hr])
    · exact .same h rfl

/-- The row a fetched torrent is linked to: one already in qBittorrent, or the
queued row itself. -/
def Records.target (r : Records) (id : RecordId) (hash : TorrentHash) : RecordId :=
  (r.byHash[hash]?).getD id

theorem link_byMam {id : RecordId} {mam : MamTorrentId} {hash : TorrentHash}
    (hm : r.byMam[mam]? = some id) (mam' : MamTorrentId) :
    (r.link id mam hash).byMam[mam']? = if mam =
    mam' then some (r.target id hash) else r.byMam[mam']? := by
  unfold Records.link Records.target
  dsimp only
  cases r.byHash[hash]? with
  | none =>
    dsimp only [Records.setDesired, Option.getD]
    split
    · next h => rw [← h, hm]
    · rfl
  | some existing =>
    dsimp only [Option.getD]
    by_cases hex : existing = id
    · subst hex
      simp only [ne_eq, not_true_eq_false, if_false, Records.setDesired]
      split
      · next h => rw [← h, hm]
      · rfl
    · simp only [ne_eq, hex, not_false_eq_true, if_true, Records.setDesired]
      rw [Std.ExtTreeMap.getElem?_insert]
      simp

theorem relinked_entries {entries : Std.ExtTreeMap RecordId Entry} {target id : RecordId}
    {f : Entry → Entry}
    {identity : Identity} {entry' : Entry}
    (h : ((entries.modify target f).modify target fun e =>
      { e with record := { e.record with desired := .active } })[id]? = some entry')
    (hf : ∀ e, (f e).record.identity = identity) :
    (id = target ∧ entry'.record.identity = identity ∧ entry'.record.desired = .active) ∨
      (id ≠ target ∧ entries[id]? = some entry') := by
  rw [Std.ExtTreeMap.getElem?_modify] at h
  by_cases ht : target = id
  · subst ht
    rw [if_pos (by simp), Option.map_eq_some_iff] at h
    obtain ⟨e, he, rfl⟩ := h
    rw [Std.ExtTreeMap.getElem?_modify, if_pos (by simp), Option.map_eq_some_iff] at he
    obtain ⟨e', -, rfl⟩ := he
    exact .inl ⟨rfl, hf e', rfl⟩
  · have hne : compare target id ≠ .eq := by simpa using ht
    rw [if_neg hne, Std.ExtTreeMap.getElem?_modify, if_neg hne] at h
    exact .inr ⟨Ne.symm ht, h⟩

/-- Linking makes one row active under the torrent's identities; the queued row
is removed when that row is another. -/
theorem link_entries {id id' : RecordId} {mam : MamTorrentId} {hash : TorrentHash} {entry' : Entry}
    (h : (r.link id mam hash).entries[id']? = some entry') :
    (id' = r.target id hash ∧ entry'.record.identity = .linked mam hash ∧
      entry'.record.desired = .active) ∨
    (id' ≠ r.target id hash ∧ id' = id ∧ entry'.record.desired = .removed) ∨
    (id' ≠ r.target id hash ∧ id' ≠ id ∧ r.entries[id']? = some entry') := by
  unfold Records.link at h
  unfold Records.target
  dsimp only at h
  cases hb : r.byHash[hash]? with
  | none =>
    rw [hb] at h
    dsimp only [Records.setDesired] at h
    obtain h | ⟨hne, h⟩ := relinked_entries h fun _ => rfl
    · exact .inl h
    · exact .inr (.inr ⟨hne, hne, h⟩)
  | some existing =>
    rw [hb] at h
    dsimp only at h
    by_cases hex : existing = id
    · subst hex
      simp only [ne_eq, not_true_eq_false, if_false, Records.setDesired] at h
      obtain h | ⟨hne, h⟩ := relinked_entries h fun _ => rfl
      · exact .inl h
      · exact .inr (.inr ⟨hne, hne, h⟩)
    · rw [if_pos hex] at h
      obtain h | ⟨hne, h⟩ := relinked_entries h fun _ => rfl
      · exact .inl h
      · obtain ⟨entry, he, -, -, hd⟩ := setDesired_entries h
        by_cases hid : id = id'
        · exact .inr (.inl ⟨hne, hid.symm, by simpa [hid] using hd⟩)
        · dsimp only [Records.setDesired] at h
          rw [Std.ExtTreeMap.getElem?_modify, if_neg (by simpa using hid)] at h
          exact .inr (.inr ⟨hne, Ne.symm hid, h⟩)

theorem Records.Turn.rows (ht : r.Turn r') {id : RecordId} {entry' : Entry}
    (h : r'.entries[id]? = some entry') :
    RowAfter r r' id entry'.record := by
  cases ht with
  | saved now =>
    obtain ⟨entry, he, hr⟩ := save_entries h
    exact .same he hr
  | bookmarked new => exact bookmark_rows h
  | adopted hash torrent hn => exact adopt_rows h
  | seen now id torrent => exact recordSeen_rows h
  | snatched id entry he hq ho => exact setDesired_rows he h fun hi hd => .snatched entry he hi hq hd
  | requeued id entry he hs =>
    obtain ⟨rfl, rfl⟩ | ⟨-, h⟩ := insert_entries h
    · exact .requeued entry he rfl hs rfl
    · exact .same h rfl
  | resumed id entry he hh =>
    exact setDesired_rows he h fun hi hd => .running entry he hi (.inr hh) (.inl hd)
  | held id entry he hr => exact setDesired_rows he h fun hi hd => .running entry he hi hr (.inr hd)
  | linked id mam hash entry hm he hq =>
    obtain ⟨rfl, hi, hd⟩ | ⟨-, -, hd⟩ | ⟨-, -, h⟩ := link_entries h
    · exact .linked mam hash hi hd (by rw [link_byMam hm, if_pos rfl])
    · exact .removed hd
    · exact .same h rfl
  | written => exact .same h rfl
  | commanded => exact .same h rfl

/-- A torrent known to the registry stays known, and its row stays the one it is
known by unless that row is removed. -/
theorem Records.Turn.known (ht : r.Turn r') {mam : MamTorrentId} {id : RecordId}
    (h : r.byMam[mam]? = some id) :
    r'.byMam[mam]? = some id ∨ (∃ id', r'.byMam[mam]? = some id') ∧
      ∀ entry', r'.entries[id]? = some entry' → entry'.record.desired = .removed := by
  cases ht with
  | saved now => exact .inl (by rw [save_byMam, h])
  | bookmarked new =>
    left
    obtain ⟨mam', desired⟩ := new
    unfold Records.bookmark
    dsimp only
    split
    · exact h
    · next hc =>
      have hne : mam' ≠ mam := by
        rintro rfl
        rw [Std.ExtTreeMap.contains_eq_isSome_getElem?, h] at hc
        exact hc rfl
      rw [Std.ExtTreeMap.getElem?_insert, if_neg (by simpa using hne)]
      exact h
  | seen now id torrent =>
    left
    unfold Records.recordSeen
    split
    · exact h
    · exact h
  | linked id₀ mam' hash entry hm he hq =>
    rw [link_byMam hm]
    split
    · next hmam =>
      subst hmam
      rw [hm, Option.some.injEq] at h
      subst h
      by_cases ht : r.target id₀ hash = id₀
      · exact .inl (by rw [ht])
      · refine .inr ⟨⟨_, rfl⟩, fun entry' he' => ?_⟩
        obtain ⟨h, -⟩ | ⟨-, -, hd⟩ | ⟨-, h, -⟩ := link_entries he'
        · exact absurd h.symm ht
        · exact hd
        · exact absurd rfl h
    · exact .inl h
  | _ => exact .inl h

/-! ## One live row for a MAM torrent -/

/-- A row that is not just history leads, by its MAM torrent, back to itself. -/
def Records.Live (r : Records) : Prop :=
  ∀ (id : RecordId) (entry : Entry) (mam : MamTorrentId), r.entries[id]? = some entry →
    entry.record.identity.mamId = some mam → entry.record.desired ≠ .removed → r.byMam[mam]? = some id

theorem Records.Turn.live (ht : r.Turn r') (h : r.Live) : r'.Live := by
  intro id entry' mam he' hm hd
  have hold : ∀ entry : Entry, r.entries[id]? = some entry →
    entry'.record.identity = entry.record.identity →
      entry.record.desired ≠ .removed → r'.byMam[mam]? = some id := by
    intro entry he hi hlive
    obtain hk | ⟨-, hgone⟩ := ht.known (h id entry mam he (hi ▸ hm) hlive)
    · exact hk
    · exact absurd (hgone entry' he') hd
  obtain ⟨entry, he, hi, -, hkept⟩ | ⟨mam', -, hi, hb⟩ | ⟨hash, hi⟩ | ⟨entry, he, hi, hq,
    -⟩ | ⟨entry, he, hi, hs, -⟩ |
    ⟨entry, he, hi, hr, -⟩ | hgone | ⟨mam', hash, hi, -, hb⟩ := ht.rows he'
  · exact hold entry he hi (by rw [← hkept]; exact hd)
  · rw [hi] at hm
    cases hm
    exact hb
  · rw [hi] at hm
    cases hm
  · exact hold entry he hi (by rw [hq]; decide)
  · exact hold entry he hi (by rw [hs]; decide)
  · refine hold entry he hi ?_
    obtain hr | hr := hr
    · rw [hr]
      decide
    · rw [hr]
      decide
  · exact absurd hgone hd
  · rw [hi] at hm
    cases hm
    exact hb

theorem Records.Turned.live (ht : r.Turned r') (h : r.Live) : r'.Live := by
  induction ht with
  | refl => exact h
  | tail _ ht ih => exact ht.live ih

/-- The row a torrent is known by is queued exactly when some row of it is. -/
theorem Records.Live.queued (h : r.Live) {mam : MamTorrentId} (hq : mam ∈ r.queued) :
    ∃ (id : RecordId) (entry : Entry),
    r.byMam[mam]? = some id ∧ r.entries[id]? = some entry ∧ entry.record.identity.mamId = some mam ∧
      entry.record.desired = .queued := by
  unfold Records.queued at hq
  rw [List.mem_filterMap] at hq
  obtain ⟨row, hrow, hm⟩ := hq
  rw [List.mem_filter, beq_iff_eq] at hrow
  obtain ⟨id, entry, he, rfl⟩ := mem_records.mp hrow.1
  exact ⟨id, entry, h id entry mam he hm (by rw [hrow.2]; decide), he, hm, hrow.2⟩

/-- The row of a download Windlass added is the one its torrent is known by. -/
theorem Records.Live.running (h : r.Live) {download : Download} (hd : download ∈ r.downloads) :
    ∃ row, r.findMam download.mam = some row ∧ (row.desired = .active ∨ row.desired = .held) := by
  unfold Records.downloads at hd
  rw [List.mem_filterMap] at hd
  obtain ⟨row, hrow, hdown⟩ := hd
  obtain ⟨id, entry, he, rfl⟩ := mem_records.mp hrow
  unfold TorrentRecord.download at hdown
  split at hdown
  · next mam hash hi =>
    dsimp only at hdown
    split at hdown
    · next hrun =>
      cases hdown
      rw [Bool.and_eq_true, Bool.or_eq_true, beq_iff_eq, beq_iff_eq] at hrun
      have hlive : entry.record.desired ≠ .removed := by
        intro hgone
        simp [hgone] at hrun
      have hb := h id entry mam he (by rw [hi]; rfl) hlive
      exact ⟨entry.record, by simp [Records.findMam, hb, he], hrun.1⟩
    · cases hdown
  · cases hdown

end

/-! ## The registry -/

inductive Registry.Turned : Registry → Registry → Prop
  | same (g : Registry) : Registry.Turned g g
  | loaded {r r' : Records} (h : r.Turned r') : Registry.Turned (.loaded r) (.loaded r')

def Registry.Indexed (g : Registry) : Prop := ∀ r, g = .loaded r → r.Indexed

/-! ## Rows as storage keeps them -/

/-- Rows as storage keeps them: no two share a hash, and no two that are not just
history are for one MAM torrent. -/
structure StoredRows (rows : List TorrentRecord) : Prop where
  hashes : DistinctHashes rows
  live : rows.Pairwise fun row row' => row.desired ≠ .removed → row'.desired ≠ .removed →
    ∀ mam, row.identity.mamId = some mam → row'.identity.mamId ≠ some mam

def ReadsStored (is : List TimedEvent) : Prop :=
  ∀ i ∈ is, ∀ rows, i.event = .registry (.read rows) → StoredRows rows

theorem storedRows_of_short {rows : List TorrentRecord} (h : rows.length ≤ 1) : StoredRows rows := by
  rcases rows with _ | ⟨row, _ | ⟨row', rows⟩⟩
  · exact ⟨List.Pairwise.nil, List.Pairwise.nil⟩
  · exact ⟨List.pairwise_singleton _ _, List.pairwise_singleton _ _⟩
  · simp at h

theorem readsStored_of_short {is : List TimedEvent} (h : ∀ i ∈ is, i.event.rowsRead.length ≤ 1) :
    ReadsStored is := by
  intro i hi rows hev
  have hl := h i hi
  rw [hev] at hl
  exact storedRows_of_short hl

/-- Index a row under its MAM torrent, over what is there. -/
def indexMam (byMam : Std.ExtTreeMap MamTorrentId RecordId) (row : TorrentRecord) :
    Std.ExtTreeMap MamTorrentId RecordId :=
  match row.identity.mamId with
  | some mam => byMam.insert mam row.id
  | none => byMam

theorem indexMam_other {byMam : Std.ExtTreeMap MamTorrentId RecordId} {mam : MamTorrentId}
    {row : TorrentRecord}
    (h : row.identity.mamId ≠ some mam) : (indexMam byMam row)[mam]? = byMam[mam]? := by
  unfold indexMam
  split
  · next mam' hm =>
    have hne : mam' ≠ mam := by
      rintro rfl
      exact h hm
    rw [Std.ExtTreeMap.getElem?_insert, if_neg (by simpa using hne)]
  · rfl

theorem indexMam_foldl_other {mam : MamTorrentId} {rows : List TorrentRecord}
    (h : ∀ row ∈ rows, row.identity.mamId ≠ some mam) (byMam : Std.ExtTreeMap MamTorrentId RecordId) :
    (rows.foldl indexMam byMam)[mam]? = byMam[mam]? := by
  induction rows generalizing byMam with
  | nil => rfl
  | cons row rows ih =>
    rw [List.foldl_cons, ih fun row' hr' => h row' (List.mem_cons_of_mem _ hr'),
      indexMam_other (h row List.mem_cons_self)]

theorem indexMam_foldl {rows : List TorrentRecord} {row : TorrentRecord} {mam : MamTorrentId}
    (hd : rows.Pairwise fun row row' =>
      ∀ mam, row.identity.mamId = some mam → row'.identity.mamId ≠ some mam)
    (hr : row ∈ rows) (hm : row.identity.mamId = some mam)
    (byMam : Std.ExtTreeMap MamTorrentId RecordId) :
    (rows.foldl indexMam byMam)[mam]? = some row.id := by
  induction rows generalizing byMam with
  | nil => cases hr
  | cons row' rows ih =>
    obtain ⟨hrow, hrows⟩ := List.pairwise_cons.mp hd
    rw [List.foldl_cons]
    rw [List.mem_cons] at hr
    obtain rfl | hr := hr
    · rw [indexMam_foldl_other fun row' hr' => hrow row' hr' mam hm]
      unfold indexMam
      rw [hm]
      simp
    · exact ih hrows hr _

theorem new_entries {rows : List TorrentRecord} {id : RecordId} {entry : Entry}
    (h : (Records.new rows).entries[id]? = some entry) :
    ∃ row ∈ rows, row.id = id ∧ entry = Entry.new row := by
  have hfold (rows : List TorrentRecord) : ∀ entries : Std.ExtTreeMap RecordId Entry,
      (rows.foldl (fun m record => m.insert record.id (Entry.new record)) entries)[id]? = some entry →
      entries[id]? = some entry ∨ ∃ row ∈ rows, row.id = id ∧ entry = Entry.new row := by
    induction rows with
    | nil => exact fun entries h => .inl h
    | cons row rows ih =>
      intro entries h
      rw [List.foldl_cons] at h
      obtain h | ⟨row', hr', h⟩ := ih _ h
      · obtain ⟨hid, he⟩ | ⟨-, h⟩ := insert_entries h
        · exact .inr ⟨row, List.mem_cons_self, hid, he⟩
        · exact .inl h
      · exact .inr ⟨row', List.mem_cons_of_mem _ hr', h⟩
  obtain h | h := hfold rows ∅ h
  · simp at h
  · exact h

theorem new_live {rows : List TorrentRecord} (h : StoredRows rows) : (Records.new rows).Live := by
  intro id entry mam he hm hd
  obtain ⟨row, hr, rfl, rfl⟩ := new_entries he
  have hlive : row ∈ rows.filter fun record => record.desired != .removed := by
    rw [List.mem_filter, bne_iff_ne]
    exact ⟨hr, hd⟩
  have hdistinct : (rows.filter fun record => record.desired != .removed).Pairwise fun row row' =>
      ∀ mam, row.identity.mamId = some mam → row'.identity.mamId ≠ some mam := by
    rw [List.pairwise_filter]
    refine h.live.imp fun hrow hl hl' => hrow ?_ ?_
    · exact bne_iff_ne.mp hl
    · exact bne_iff_ne.mp hl'
  have hb : (Records.new rows).byMam =
    (rows.filter fun record => record.desired != .removed).foldl indexMam
      ((rows.filter fun record => record.desired == .removed).foldl indexMam ∅) := List.foldl_append
  rw [hb]
  exact indexMam_foldl hdistinct hlive hm _

/-- Rows found by their hashes and by their MAM torrents. -/
structure Records.Sound (r : Records) : Prop where
  indexed : r.Indexed
  live : r.Live

theorem Records.Turned.sound {r r' : Records} (ht : r.Turned r') (h : r.Sound) : r'.Sound :=
  ⟨ht.indexed h.indexed, ht.live h.live⟩

def Registry.Sound (g : Registry) : Prop := ∀ r, g = .loaded r → r.Sound

theorem Registry.Sound.indexed {g : Registry} (h : g.Sound) : g.Indexed := fun r hr => (h r hr).indexed

/-! ## Turns of a step -/

section
variable {P : Records → MamTorrentId → TorrentHash → Prop} {r r' : Records}
  {out : List (List TorrentRecord)}

theorem Records.Change.turned (h : r.Change P out r') (hi : r.Indexed) : r.Turned r' := by
  cases h with
  | saved now => exact (Records.Turn.saved now).turned
  | bookmarked new => exact (Records.Turn.bookmarked new).turned
  | found now hash torrent hn =>
    exact (Records.Turn.adopted hash torrent hn).turned.trans (Records.Turn.seen now _ torrent).turned
  | seen now id torrent => exact (Records.Turn.seen now id torrent).turned
  | snatched id entry he hq ho => exact (Records.Turn.snatched id entry he hq ho).turned
  | requeued id entry he hs => exact (Records.Turn.requeued id entry he hs).turned
  | resumed id entry he hh => exact (Records.Turn.resumed id entry he hh).turned
  | held id h =>
    obtain ⟨entry, he, hr, -⟩ := h hi
    exact (Records.Turn.held id entry he hr).turned
  | linked id mam hash entry hm he hq hf => exact (Records.Turn.linked id mam hash entry hm he hq).turned

theorem Records.Changed.turned (h : r.Changed P out r') (hi : r.Indexed) : r.Turned r' := by
  induction h with
  | refl => exact .refl _
  | tail h hs ih => exact ih.trans (hs.turned (Records.Changed.indexed h hi))

theorem Registry.Changed.turned {g g' : Registry} (h : g.Changed P out g') (hi : g.Indexed) :
    g.Turned g' := by
  cases h with
  | same => exact .same g
  | loaded h => exact .loaded (h.turned (hi _ rfl))

theorem Registry.Commanded.turned {g g' : Registry} (h : g.Commanded g') : g.Turned g' := by
  obtain rfl | ⟨r, last, rfl, rfl⟩ := h
  · exact .same _
  · exact .loaded (Records.Turn.commanded last).turned

theorem answered_turned (r : Records) (event : Event) : r.Turned (r.answered event) := by
  unfold Records.answered
  split
  · exact (Records.Turn.written _ _).turned
  · exact (Records.Turn.written _ _).turned
  · exact .refl r

theorem snatched_turned (r : Records) (now : Instant) (mam : MamTorrentId) :
    r.Turned (r.snatched now mam).1 := by
  unfold Records.snatched
  refine Records.Turned.trans ?_ (Records.Turn.saved now).turned
  split
  · next id hid =>
    obtain ⟨-, hany⟩ := Option.filter_eq_some_iff.mp hid
    obtain ⟨entry, he, hrow⟩ := (Option.any_eq_true _ _).mp hany
    rw [Bool.and_eq_true, beq_iff_eq, beq_iff_eq] at hrow
    exact (Records.Turn.snatched id entry he hrow.1 hrow.2).turned
  · exact .refl r

end

/-! ## Rows along a run -/

theorem sound_invariant (P : Records → MamTorrentId → TorrentHash → Prop) :
    Records.Invariant P Records.Sound :=
  ⟨fun r event h => (answered_turned r event).sound h,
    fun _ last h => (Records.Turn.commanded last).turned.sound h,
    fun _ _ _ h hc => (hc.turned h.indexed).sound h⟩

theorem received_sound {c : Core} {i : TimedEvent} (h : c.registry.Sound)
    (hi : ∀ rows, i.event = .registry (.read rows) → StoredRows rows) :
    (c.received i.occurredAt i.event).registry.Sound :=
  received_kept (sound_invariant fun _ _ _ => True) h
    (fun rows hev => ⟨new_indexed (hi rows hev).hashes, new_live (hi rows hev)⟩) fun _ _ _ _ _ => trivial

theorem registry_sound {is : List TimedEvent} (h : ReadsStored is) : (core.last is).registry.Sound :=
  registry_kept (sound_invariant fun _ _ _ => True)
    (fun i hi rows hev => ⟨new_indexed (h i hi rows hev).hashes, new_live (h i hi rows hev)⟩)
    fun _ _ _ _ _ _ _ => trivial

/-! ## The registry is read once -/

section
variable {c : Core} (now : ClockReading) (event : Event)

theorem received_late (h : c.state.isEarly = false) : (c.received now event).state.isEarly = false := by
  rw [received_state]
  have hn : (c.note event).state = c.state := rfl
  cases event with
  | startup e =>
    have hst := handleStartup_state (c.note (.startup e)) e
    have hs : ((c.note (.startup e)).state.handleStartup e).1 = c.state := handleStartup_isEarly h
    exact (congrArg State.isEarly (hst.trans hs)).trans h
  | mamPause e =>
    simp only [Core.dispatch, Core.handleMamPause, handleMamPause_isEarly]
    exact h
  | timerExpired name id => cases name <;> exact h
  | _ => exact h

theorem answered_loaded {g : Registry} {r : Records} (hr : g = .loaded r) :
    g.answered event = .loaded (r.answered event) := by
  have hl : g.loadedBy event = .loaded r := by
    rw [hr]
    unfold Registry.loadedBy
    split
    · next hg => cases hg
    · rfl
  unfold Registry.answered
  rw [hl]

theorem dispatch_indexed {r : Records} (hr : c.registry = .loaded r) (hi : r.Indexed) :
    (c.dispatch now event).1.registry.Indexed := by
  obtain hc | ⟨hn, -⟩ := dispatch_changed (P := fun _ _ _ => True) c now event fun _ _ _ _ _ => trivial
  · rw [answered_loaded event hr] at hc
    refine hc.indexed fun r' hr' => ?_
    cases hr'
    exact answered_indexed hi event
  · intro r' hr'
    rw [hr'] at hn
    cases hn

theorem received_rows {P : Records → MamTorrentId → TorrentHash → Prop}
    (h : c.state.isEarly = false) {r : Records}
    (hr : c.registry = .loaded r) (hf : ∀ mam hash, c.delivered event = some (mam, hash) → P r mam hash) :
    ∃ r', (c.received now event).registry = .loaded r' ∧
      (r.answered event).Changed P (batches (c.handle now event).2) r' := by
  obtain hc | ⟨-, -, hn⟩ := received_changed (P := P) c now event (by
    intro mam hash r' hd hr'
    rw [hr] at hr'
    cases hr'
    exact hf mam hash hd)
  · rw [answered_loaded event hr] at hc
    generalize batches (c.handle now event).2 = out at hc ⊢
    generalize (c.received now event).registry = g at hc ⊢
    cases hc with
    | same => exact ⟨_, rfl, .refl _⟩
    | loaded hc => exact ⟨_, rfl, hc⟩
  · rw [hr] at hn
    obtain hn | ho := hn
    · cases hn
    · cases hst : c.state with
      | openingStorage requested => rw [hst] at h; cases h
      | _ => rw [hst] at ho; cases ho

/-- Once read, the registry stays: storage's answer is taken in, and the rows change. -/
theorem handle_rows {r : Records} (hlate : c.state.isEarly = false) (hr : c.registry = .loaded r) :
    ∃ r' last, (c.handle now event).1.registry = .loaded { r' with lastCommand := last } ∧
      (r.answered event).Changed (fun _ _ _ => True) (batches (c.handle now event).2) r' := by
  obtain ⟨r', hr', hc⟩ := received_rows (P := fun _ _ _ => True) now event hlate hr fun _ _ _ => trivial
  obtain ⟨last, hk⟩ := handle_loaded c now event hr'
  exact ⟨r', last, hk, hc⟩

theorem received_turned (h : c.state.isEarly = false) {r : Records} (hr : c.registry = .loaded r)
    (hi : r.Indexed) :
    ∃ r', (c.received now event).registry = .loaded r' ∧ r.Turned r' := by
  obtain ⟨r', hr', hc⟩ := received_rows (P := fun _ _ _ => True) now event h hr fun _ _ _ => trivial
  exact ⟨r', hr', (answered_turned r event).trans (hc.turned (answered_indexed hi event))⟩

theorem handle_turned (h : c.state.isEarly = false) {r : Records} (hr : c.registry = .loaded r)
    (hi : r.Indexed) :
    ∃ r', (c.handle now event).1.registry = .loaded r' ∧ r.Turned r' := by
  obtain ⟨r', hr', ht⟩ := received_turned now event h hr hi
  have hc := (handle_commanded c now event).turned
  rw [hr'] at hc
  generalize (c.handle now event).1.registry = g at hc ⊢
  cases hc with
  | same => exact ⟨r', rfl, ht⟩
  | loaded hc => exact ⟨_, rfl, ht.trans hc⟩

theorem Registry.Changed.unread {P : Records → MamTorrentId → TorrentHash → Prop} {g g' : Registry}
    {out : List (List TorrentRecord)} (h : g.Changed P out g') (hu : g = .unread) : g' = .unread := by
  cases h with
  | same => exact hu
  | loaded => cases hu

theorem received_unread (h : c.registry = .unread) :
    (c.received now event).registry = .unread ∨ (c.received now event).state.isEarly = false := by
  have ho : ((c.note event).dispatch now event).1.registry.Changed (fun _ _ _ => True) _
      (c.received now event).registry :=
    observe_registry_changed now (((c.note event).dispatch now event).1.expireLease now)
  have hn : (c.note event).registry = .unread := h
  rw [received_state]
  cases event with
  | startup e =>
    obtain ⟨-, -, hk⟩ | ⟨-, hr, -⟩ := handleStartup_eq (c.note (.startup e)) e
    · exact .inl (ho.unread (hk.trans hn))
    · right
      simp only [Core.dispatch]
      cases hs : ((c.note (.startup e)).handleStartup e).1.state with
      | readingMamPreference requested => rfl
      | _ => rw [hs] at hr; cases hr
  | registry e =>
    refine .inl (ho.unread ?_)
    simp only [Core.dispatch, Core.handleRegistry]
    rw [hn]
    cases e <;> rfl
  | mam e =>
    have hm := mam_handle_changed (P := fun _ _ _ =>
      True) c.mam now (g := c.registry) e fun _ _ _ _ _ => trivial
    exact .inl (ho.unread (hm.unread hn))
  | timerExpired name id => cases name <;> exact .inl (ho.unread hn)
  | _ => exact .inl (ho.unread hn)

end

theorem registry_late (is : List TimedEvent) :
    (core.last is).registry ≠ .unread → (core.last is).state.isEarly = false := by
  refine Reactive.last_invariant core
    (I := fun c => c.registry ≠ .unread → c.state.isEarly = false) ?_ ?_ is
  · intro h
    exact absurd rfl h
  · intro c i hc h
    rw [core_step, (handle_frame c i.occurredAt i.event).1]
    by_cases hu : c.registry = .unread
    · obtain hr | hr := received_unread i.occurredAt i.event hu
      · obtain hk | ⟨r, last, hl, -⟩ := handle_commanded c i.occurredAt i.event
        · exact absurd (hk.trans hr) h
        · rw [hr] at hl
          cases hl
      · exact hr
    · exact received_late i.occurredAt i.event (hc hu)

theorem loaded_late {is : List TimedEvent} {r : Records} (hr : (core.last is).registry = .loaded r) :
    (core.last is).state.isEarly = false := by
  refine registry_late is ?_
  rw [hr]
  exact Registry.noConfusion

end Windlass
