import Windlass.GateSound

/-!
# Rows found under their hashes

The index leads from the hash of a row to that row. Every operation of the
registry keeps it so, and rows read from storage start so.
-/

namespace Windlass

theorem mem_records {r : Records} {row : TorrentRecord} :
    row ∈ r.records ↔ ∃ (id : RecordId) (entry : Entry),
    r.entries[id]? = some entry ∧ entry.record = row := by
  unfold Records.records
  simp only [List.mem_map, Prod.exists, Std.ExtTreeMap.mem_toList_iff_getElem?_eq_some]

def hashIn (entries : Std.ExtTreeMap RecordId Entry) (id : RecordId) : Option TorrentHash :=
  entries[id]?.bind fun entry => entry.record.identity.hash

/-- The index leads from the hash of a row to that row, so no two rows share a
hash. -/
def Records.Indexed (r : Records) : Prop :=
  ∀ id hash, hashIn r.entries id = some hash → r.byHash[hash]? = some id

section
variable {entries : Std.ExtTreeMap RecordId Entry}

theorem hashIn_insert (id : RecordId) (entry : Entry) (id' : RecordId) :
    hashIn (entries.insert id entry) id' = if id =
    id' then entry.record.identity.hash else hashIn entries id' := by
  unfold hashIn
  rw [Std.ExtTreeMap.getElem?_insert]
  by_cases h : id = id'
  · simp [h]
  · simp [h]

theorem hashIn_modify (id : RecordId) (f : Entry → Entry) (id' : RecordId) :
    hashIn (entries.modify id f) id' =
      if id = id' then entries[id]?.bind fun entry => (f entry).record.identity.hash
      else hashIn entries id' := by
  unfold hashIn
  rw [Std.ExtTreeMap.getElem?_modify]
  by_cases h : id = id'
  · subst h
    simp [Option.bind_map]
  · simp [h]

/-- Updates that leave identities alone leave the hashes alone. -/
theorem hashIn_modify_same (id : RecordId) {f : Entry → Entry}
    (hf : ∀ entry, (f entry).record.identity = entry.record.identity) (id' : RecordId) :
    hashIn (entries.modify id f) id' = hashIn entries id' := by
  rw [hashIn_modify]
  split
  · next h =>
    subst h
    simp only [hf, hashIn]
  · rfl

theorem hashIn_insert_same {id : RecordId} {entry entry' : Entry} (he : entries[id]? = some entry)
    (hf : entry'.record.identity = entry.record.identity) (id' : RecordId) :
    hashIn (entries.insert id entry') id' = hashIn entries id' := by
  rw [hashIn_insert]
  split
  · next h =>
    subst h
    simp only [hf, hashIn, he, Option.bind_some]
  · rfl

end

section
variable {r r' : Records}

theorem Records.Indexed.of_hashes (h : r.Indexed) (hh : ∀ id, hashIn r'.entries id = hashIn r.entries id)
    (hb : r'.byHash = r.byHash) : r'.Indexed := by
  intro id hash hid
  rw [hb]
  exact h id hash (hh id ▸ hid)

/-- Giving one row a hash no other row has, and indexing it, keeps the index. -/
theorem Records.Indexed.put (h : r.Indexed) (id : RecordId) (hash : TorrentHash)
    (hfree : ∀ id', hashIn r.entries id' = some hash → id' = id)
    (hnew : ∀ hash', hashIn r'.entries id = some hash' → hash' = hash)
    (hh : ∀ id', id' ≠ id → hashIn r'.entries id' = hashIn r.entries id')
    (hb : r'.byHash = r.byHash.insert hash id) : r'.Indexed := by
  intro id' hash' hid
  rw [hb, Std.ExtTreeMap.getElem?_insert]
  by_cases hi : id' = id
  · subst hi
    simp [hnew hash' hid]
  · rw [hh id' hi] at hid
    have hne : hash ≠ hash' := by
      rintro rfl
      exact hi (hfree id' hid)
    simpa [hne] using h id' hash' hid

theorem setDesired_hashIn (id : RecordId) (desired : Desired) (id' : RecordId) :
    hashIn (r.setDesired id desired).entries id' = hashIn r.entries id' := by
  unfold Records.setDesired
  exact hashIn_modify_same id (by intro; rfl) id'

theorem indexed_iff (hh : ∀ id, hashIn r'.entries id = hashIn r.entries id) (hb : r'.byHash = r.byHash) :
    r'.Indexed ↔ r.Indexed :=
  ⟨fun h => h.of_hashes (fun id => (hh id).symm) hb.symm, fun h => h.of_hashes hh hb⟩

theorem setDesired_indexed_iff {id : RecordId} {desired : Desired} :
    (r.setDesired id desired).Indexed ↔ r.Indexed :=
  indexed_iff (setDesired_hashIn id desired) rfl

theorem setDesired_indexed (h : r.Indexed) (id : RecordId) (desired : Desired) :
    (r.setDesired id desired).Indexed :=
  setDesired_indexed_iff.mpr h

theorem save_indexed_iff {now : Instant} : (r.save now).1.Indexed ↔ r.Indexed := by
  unfold Records.save
  split
  · exact Iff.rfl
  · refine indexed_iff (fun id => ?_) rfl
    unfold hashIn
    rw [Std.ExtTreeMap.getElem?_map, Option.bind_map]
    congr 1
    funext entry
    simp only [Function.comp_apply]
    split <;> rfl

theorem save_indexed (h : r.Indexed) (now : Instant) : (r.save now).1.Indexed := save_indexed_iff.mpr h

theorem bookmark_indexed (h : r.Indexed) (new : MamTorrentId × Desired) : (r.bookmark new).Indexed := by
  obtain ⟨mam, desired⟩ := new
  unfold Records.bookmark
  dsimp only
  split
  · exact h
  · intro id' hash hid
    simp only [Records.allocate] at hid ⊢
    rw [hashIn_insert] at hid
    split at hid
    · cases hid
    · exact h id' hash hid

theorem adopt_indexed (h : r.Indexed) {hash : TorrentHash} (torrent : Torrent)
    (hn : r.byHash[hash]? = none) :
    (r.adopt hash torrent).1.Indexed := by
  refine h.put r.nextId hash (fun id' hid => ?_) (fun hash' hid => ?_) (fun id' hid => ?_) rfl
  · rw [h id' hash hid] at hn
    cases hn
  · simp only [Records.adopt, Records.allocate, hashIn_insert, if_true] at hid
    exact (Option.some.inj hid).symm
  · simp only [Records.adopt, Records.allocate, hashIn_insert, if_neg (Ne.symm hid)]

theorem entry_observe_identity (entry : Entry) (now : Instant) (observation : Observation) :
    (entry.observe now observation).1.record.identity = entry.record.identity := by
  unfold Entry.observe
  dsimp only
  split
  · split <;> rfl
  · rfl

theorem recordSeen_indexed (h : r.Indexed) (now : ClockReading) (id : RecordId) (torrent : Torrent) :
    (r.recordSeen now id torrent).Indexed := by
  unfold Records.recordSeen
  split
  · next entry he => exact h.of_hashes (hashIn_insert_same he (entry_observe_identity entry _ _)) rfl
  · exact h

theorem link_indexed (h : r.Indexed) (id : RecordId) (mam : MamTorrentId) (hash : TorrentHash) :
    (r.link id mam hash).Indexed := by
  have hput (r' : Records) (target : RecordId) (h' : r'.Indexed) (origin : Option Origin)
      (hfree : ∀ id', hashIn r'.entries id' = some hash → id' = target) :
      Records.Indexed (let r : Records :=
          { r' with
            entries := r'.entries.modify target fun e =>
              { e with
                record :=
                  { e.record with identity := .linked mam hash,
                                  origin := origin.getD e.record.origin } } }
        let r := r.setDesired target .active
        { r with byHash := r.byHash.insert hash target }) := by
    refine h'.put target hash hfree (fun hash' hid => ?_) (fun id' hid => ?_) rfl
    · rw [setDesired_hashIn, hashIn_modify, if_pos rfl] at hid
      obtain ⟨entry, -, he⟩ := Option.bind_eq_some_iff.mp hid
      exact (Option.some.inj he).symm
    · rw [setDesired_hashIn, hashIn_modify, if_neg (Ne.symm hid)]
  unfold Records.link
  dsimp only
  cases hb : r.byHash[hash]? with
  | none =>
    refine hput r id h _ fun id' hid => ?_
    rw [h id' hash hid] at hb
    cases hb
  | some existing =>
    have hfree : ∀ id', hashIn r.entries id' = some hash → id' = existing := by
      intro id' hid
      rw [h id' hash hid] at hb
      exact Option.some.inj hb
    dsimp only
    split
    · refine hput { r.setDesired id .removed with byMam := _ } existing
        ((setDesired_indexed h id .removed).of_hashes (fun _ => rfl) rfl) _ fun id' hid => hfree id' ?_
      rw [← hid, setDesired_hashIn]
    · next he =>
      rw [not_not] at he
      exact hput r id h _ fun id' hid => (hfree id' hid).trans he

end

/-! ## Rows read from storage -/

/-- Storage keeps hashes unique: no two rows it returns share one. -/
def DistinctHashes (rows : List TorrentRecord) : Prop :=
  rows.Pairwise fun row row' => ∀ hash, row.identity.hash = some hash → row'.identity.hash ≠ some hash

/-- Every list of rows read during the run has distinct hashes. -/
def ReadsDistinct (is : List TimedEvent) : Prop :=
  ∀ i ∈ is, ∀ rows, i.event = .registry (.read rows) → DistinctHashes rows

def Event.rowsRead : Event → List TorrentRecord
  | .registry (.read rows) => rows
  | _ => []

theorem readsDistinct_of_short {is : List TimedEvent} (h : ∀ i ∈ is, i.event.rowsRead.length ≤ 1) :
    ReadsDistinct is := by
  intro i hi rows hev
  have hl := h i hi
  rw [hev] at hl
  rcases rows with _ | ⟨row, _ | ⟨row', rows⟩⟩
  · exact List.Pairwise.nil
  · exact List.pairwise_singleton _ _
  · simp [Event.rowsRead] at hl

theorem new_indexed {rows : List TorrentRecord} (h : DistinctHashes rows) :
    (Records.new rows).Indexed := by
  have hfold {f : Std.ExtTreeMap TorrentHash RecordId → TorrentRecord →
    Std.ExtTreeMap TorrentHash RecordId}
      (hsome : ∀ m row hash, row.identity.hash = some hash → f m row = m.insert hash row.id)
      (hnone : ∀ m row, row.identity.hash = none → f m row = m) (rows : List TorrentRecord) :
      ∀ (entries : Std.ExtTreeMap RecordId Entry)
      (byHash : Std.ExtTreeMap TorrentHash RecordId),
      (∀ id hash, hashIn entries id = some hash → byHash[hash]? = some id ∧
        ∀ row ∈ rows, row.identity.hash ≠ some hash) → DistinctHashes rows →
      ∀ id hash, hashIn (rows.foldl (fun m record =>
        m.insert record.id (Entry.new record)) entries) id = some hash →
        (rows.foldl f byHash)[hash]? = some id := by
    -- on the rows read; their hashes are distinct, so none takes another's over
    induction rows with
    | nil => exact fun entries byHash h _ id hash hid => (h id hash hid).1
    | cons row rows ih =>
      intro entries byHash h hd
      obtain ⟨hrow, hrows⟩ := List.pairwise_cons.mp hd
      refine ih _ _ (fun id hash hid => ?_) hrows
      rw [hashIn_insert] at hid
      split at hid
      · next hi =>
        subst hi
        have hrh : row.identity.hash = some hash := hid
        refine ⟨?_, fun row' hr' => hrow row' hr' hash hrh⟩
        rw [hsome _ _ _ hrh]
        simp
      · obtain ⟨hb, hn⟩ := h id hash hid
        refine ⟨?_, fun row' hr' => hn row' (List.mem_cons_of_mem _ hr')⟩
        have hne := hn row List.mem_cons_self
        cases hr : row.identity.hash with
        | none =>
          rw [hnone _ _ hr]
          exact hb
        | some hash' =>
          have hhh : hash' ≠ hash := by
            rintro rfl
            exact hne hr
          rw [hsome _ _ _ hr, Std.ExtTreeMap.getElem?_insert]
          simpa [hhh] using hb
  refine hfold (fun m row hash hr => ?_) (fun m row hr => ?_) rows ∅ ∅ (fun id hash hid => ?_) h
  · rw [hr]
  · rw [hr]
  simp [hashIn] at hid

/-- The rows an event loads, or none when the registry is not read by it. -/
def Registry.loadedBy (g : Registry) (event : Event) : Registry :=
  match event, g with
  | .registry (.read rows), .reading => .loaded (Records.new rows)
  | _, g => g

end Windlass
