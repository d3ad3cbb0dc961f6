import Windlass.Turns

/-!
# The row under an id

What each change of the registry leaves under an id, in the two indexes, and in
the books of unsaved rows.
-/

namespace Windlass

def Records.row (r : Records) (id : RecordId) : Option TorrentRecord := r.entries[id]?.map (·.record)

theorem mem_records_row {r : Records} {row : TorrentRecord} :
    row ∈ r.records ↔ ∃ id, r.row id = some row := by
  rw [mem_records]
  unfold Records.row
  simp only [Option.map_eq_some_iff]

theorem hashIn_row (r : Records) (id : RecordId) :
    hashIn r.entries id = (r.row id).bind fun row => row.identity.hash := by
  unfold hashIn Records.row
  rw [Option.bind_map]
  rfl

section
variable (r : Records)

theorem answered_row (event : Event) (id : RecordId) : (r.answered event).row id = r.row id := by
  unfold Records.answered
  split <;> rfl

theorem answered_nextId (event : Event) : (r.answered event).nextId = r.nextId := by
  unfold Records.answered
  split <;> rfl

@[simp] theorem save_row (now : Instant) (id : RecordId) : (r.save now).1.row id = r.row id := by
  unfold Records.save Records.row
  split
  · rfl
  · rw [Std.ExtTreeMap.getElem?_map, Option.map_map]
    congr 1
    funext entry
    simp only [Function.comp_apply]
    split <;> rfl

theorem setDesired_row (id : RecordId) (desired : Desired) (id' : RecordId) :
    (r.setDesired id desired).row id' =
    if id = id' then (r.row id').map fun row => { row with desired := desired } else r.row id' := by
  unfold Records.row
  rw [setDesired_getElem]
  split
  · rw [Option.map_map, Option.map_map]
    rfl
  · rfl

theorem insert_row (id : RecordId) (entry : Entry) (unsaved : Std.ExtTreeSet RecordId) (id' : RecordId) :
    { r with entries := r.entries.insert id entry, unsaved := unsaved : Records }.row id' =
      if id = id' then some entry.record else r.row id' := by
  unfold Records.row
  dsimp only
  rw [Std.ExtTreeMap.getElem?_insert]
  by_cases h : id = id'
  · simp [h]
  · simp [h]

theorem requeued_row {id : RecordId} {entry : Entry} (he : r.entries[id]? = some entry)
    (unsaved : Std.ExtTreeSet RecordId) (id' : RecordId) :
    { r with
      entries := r.entries.insert id
        { entry with record := { entry.record with desired := .queued, origin := .redownload } }
      unsaved := unsaved : Records }.row id' =
      if id = id' then (r.row id').map fun row => { row with desired := .queued, origin := .redownload }
      else r.row id' := by
  rw [insert_row]
  split
  · next hid =>
    rw [← hid, Records.row, he]
    rfl
  · rfl

theorem recordSeen_row (now : ClockReading) (id : RecordId) (torrent : Torrent) (id' : RecordId) :
    (r.recordSeen now id torrent).row id' =
      if id = id' then (r.row id').map fun row =>
        { row with observation := some { torrent := torrent, lastSeen := now.wall } }
      else r.row id' := by
  unfold Records.recordSeen
  split
  · next entry he =>
    rw [insert_row]
    split
    · next hid =>
      subst hid
      rw [entry_observe_record, Records.row, he]
      rfl
    · rfl
  · next he =>
    split
    · next hid =>
      subst hid
      rw [Records.row, he]
      rfl
    · rfl

theorem bookmark_row (new : MamTorrentId × Desired) (id : RecordId) : (r.bookmark new).row id =
    if r.byMam.contains new.1 = false ∧ r.nextId = id then
      some
        { id := id
          identity := .mam new.1
          origin := .bookmark
          desired := new.2
          savePath := none
          deletion := .notAllowed
          observation := none }
    else r.row id := by
  unfold Records.bookmark Records.row
  dsimp only
  cases hk : r.byMam.contains new.1 with
  | true => simp
  | false =>
    simp only [Bool.false_eq_true, if_false, Records.allocate, Std.ExtTreeMap.getElem?_insert]
    by_cases hid : r.nextId = id
    · subst hid
      simp [Entry.new]
    · simp [hid]

theorem bookmark_fields {new : MamTorrentId × Desired} (hk : r.byMam.contains new.1 = false) :
    (r.bookmark new).nextId = r.nextId.after ∧ (r.bookmark new).byHash = r.byHash ∧
      (r.bookmark new).byMam = r.byMam.insert new.1 r.nextId ∧ (r.bookmark new).saving = r.saving ∧
      (r.bookmark new).unsaved = r.unsaved.insert r.nextId := by
  unfold Records.bookmark
  dsimp only
  rw [hk]
  exact ⟨rfl, rfl, rfl, rfl, rfl⟩

theorem adopt_row (hash : TorrentHash) (torrent : Torrent) (id : RecordId) :
    (r.adopt hash torrent).1.row id =
    if r.nextId = id then
      some
        { id := id
          identity := .client hash
          origin := .adopted
          desired := .active
          savePath := torrent.savePath
          deletion := .notAllowed
          observation := none }
    else r.row id := by
  unfold Records.adopt Records.row
  simp only [Records.allocate, Std.ExtTreeMap.getElem?_insert]
  by_cases hid : r.nextId = id
  · subst hid
    simp [Entry.new]
  · simp [hid]

/-- Give a row its identity and origin, and make it active. -/
def Records.relink (target : RecordId) (mam : MamTorrentId) (hash : TorrentHash)
    (origin : Option Origin) : Records :=
  let r : Records :=
    { r with
      entries := r.entries.modify target fun e =>
        { e with
          record := { e.record with identity := .linked mam hash,
                                    origin := origin.getD e.record.origin } } }
  let r := r.setDesired target .active
  { r with byHash := r.byHash.insert hash target }

theorem relink_row (target : RecordId) (mam : MamTorrentId) (hash : TorrentHash) (origin : Option Origin)
    (id : RecordId) : (r.relink target mam hash origin).row id =
      if target = id then (r.row id).map fun row =>
        { row with identity := .linked mam hash, origin := origin.getD row.origin, desired := .active }
      else r.row id := by
  unfold Records.relink
  dsimp only
  have h := setDesired_row
    { r with
      entries := r.entries.modify target fun e =>
        { e with
          record := { e.record with identity := .linked mam hash,
                                    origin := origin.getD e.record.origin } } }
    target .active id
  refine h.trans ?_
  unfold Records.row
  dsimp only
  rw [Std.ExtTreeMap.getElem?_modify]
  by_cases hid : target = id
  · subst hid
    simp [Function.comp_def]
  · simp [hid]

theorem link_eq (id : RecordId) (mam : MamTorrentId) (hash : TorrentHash) : r.link id mam hash =
    (if r.target id hash = id then r
      else { r.setDesired id .removed with byMam := r.byMam.insert mam (r.target id hash) }).relink
      (r.target id hash) mam hash ((r.row id).map (·.origin)) := by
  have horigin : (r.row id).map (·.origin) = r.entries[id]?.map (·.record.origin) := by
    rw [Records.row, Option.map_map]
    rfl
  rw [horigin]
  unfold Records.link Records.target Records.relink
  cases hb : r.byHash[hash]? with
  | none => simp
  | some existing =>
    by_cases he : existing = id
    · subst he
      simp
    · simp [he, Records.setDesired]

theorem link_row (id : RecordId) (mam : MamTorrentId) (hash : TorrentHash) (id' : RecordId) :
    (r.link id mam hash).row id' =
      if r.target id hash = id' then (r.row id').map fun row =>
        { row with
          identity := .linked mam hash
          origin := ((r.row id).map (·.origin)).getD row.origin
          desired := .active }
      else if id = id' then (r.row id').map fun row => { row with desired := .removed }
      else r.row id' := by
  rw [link_eq, relink_row]
  by_cases ht : r.target id hash = id
  · rw [if_pos ht]
    by_cases hid : r.target id hash = id'
    · rw [if_pos hid, if_pos hid]
    · rw [if_neg hid, if_neg hid, if_neg (ht ▸ hid)]
  · rw [if_neg ht]
    have hrow := setDesired_row r id .removed id'
    by_cases hid : r.target id hash = id'
    · have hne : id ≠ id' := fun h => ht (hid.trans h.symm)
      rw [if_neg hne] at hrow
      rw [if_pos hid, if_pos hid]
      exact congrArg _ hrow
    · rw [if_neg hid, if_neg hid]
      exact hrow

end

end Windlass
