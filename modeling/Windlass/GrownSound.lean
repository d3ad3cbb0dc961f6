import Windlass.RowAt

/-!
# What a change leaves

A change of the rows drops none and gives no id back, hashes lead where they led,
and a row it leaves out of the books of unsaved rows is what it was. Only a save
hands rows to storage, and it hands over every row that waits.
-/

namespace Windlass

/-! ## Rows under their ids -/

theorem after_lt {id : RecordId} (h : id.after.val < u64Max) :
    id.val < u64Max ∧ id.after.val = id.val + 1 := by
  have hval : id.after.val = min (id.val + 1) u64Max := rfl
  rw [hval] at h ⊢
  omega

theorem lt_after {id : RecordId} (h : id.after.val < u64Max) : id < id.after := by
  have hval : id.val < id.after.val := by
    rw [(after_lt h).2]
    exact Nat.lt_succ_self _
  exact hval

theorem nextId_before {n n' : RecordId} (h : n'.val < u64Max → n ≤ n') (hn : n'.val < u64Max) :
    n.val < u64Max :=
  (PNat.coe_le_coe _ _ |>.mpr (h hn)).trans_lt hn

def TorrentRecord.unseen (record : TorrentRecord) : TorrentRecord := { record with observation := none }

def Records.Numbered (r : Records) : Prop :=
  ∀ id row, r.row id = some row → row.id = id ∧ (r.nextId.val < u64Max → id < r.nextId)

/-- No row is dropped, hashes lead where they led, and a row that need not be saved is what it was. -/
structure Records.Grown (r r' : Records) : Prop where
  numbered : r.Numbered → r'.Numbered
  nextId : r'.nextId.val < u64Max → r.nextId ≤ r'.nextId
  saving : r'.saving = r.saving
  rows : ∀ id row, r.row id = some row → ∃ row', r'.row id = some row'
  hashes : ∀ (hash : TorrentHash) (id : RecordId), r.byHash[hash]? = some id → r'.byHash[hash]? = some id
  unsaved : ∀ id ∈ r.unsaved, id ∈ r'.unsaved
  same : ∀ id row', r'.row id = some row' → id ∉ r'.unsaved →
    ∃ row, r.row id = some row ∧ row'.unseen = row.unseen

section
variable {r r' r'' : Records}

@[simp] theorem save_nextId (now : Instant) : (r.save now).1.nextId = r.nextId := by
  unfold Records.save
  split <;> rfl

@[simp] theorem recordSeen_nextId (now : ClockReading) (id : RecordId) (torrent : Torrent) :
    (r.recordSeen now id torrent).nextId = r.nextId := by
  unfold Records.recordSeen
  split <;> rfl

theorem Records.Grown.refl (r : Records) : r.Grown r :=
  ⟨id, fun _ => le_rfl, rfl, fun _ row hr => ⟨row, hr⟩, fun _ _ h => h, fun _ h => h,
    fun _ row hr _ => ⟨row, hr, rfl⟩⟩

theorem Records.Grown.trans (h : r.Grown r') (h' : r'.Grown r'') : r.Grown r'' where
  numbered hn := h'.numbered (h.numbered hn)
  nextId hn := (h.nextId (nextId_before h'.nextId hn)).trans (h'.nextId hn)
  saving := h'.saving.trans h.saving
  rows id row hr := by
    obtain ⟨row', hr'⟩ := h.rows id row hr
    exact h'.rows id row' hr'
  hashes hash id hb := h'.hashes hash id (h.hashes hash id hb)
  unsaved id hu := h'.unsaved id (h.unsaved id hu)
  same id row'' hr'' hu := by
    obtain ⟨row', hr', heq'⟩ := h'.same id row'' hr'' hu
    obtain ⟨row, hr, heq⟩ := h.same id row' hr' fun hu' => hu (h'.unsaved id hu')
    exact ⟨row, hr, heq'.trans heq⟩

theorem mem_insert_unsaved (r : Records) (id : RecordId) : id ∈ r.unsaved.insert id := by simp

theorem mem_unsaved_insert {id id' : RecordId} (h : id' ∈ r.unsaved) : id' ∈ r.unsaved.insert id :=
  by simp [h]

/-- A change of one row: it must then be saved, unless it is a change of what was seen. -/
theorem Records.Grown.update (id : RecordId) (f : TorrentRecord → TorrentRecord)
    (hrow : ∀ id', r'.row id' = if id = id' then (r.row id').map f else r.row id')
    (hf : ∀ row, (f row).id = row.id) (hn : r'.nextId = r.nextId) (hs : r'.saving = r.saving)
    (hb : ∀ (hash : TorrentHash) (id : RecordId), r.byHash[hash]? = some id → r'.byHash[hash]? = some id)
    (hu : ∀ id' ∈ r.unsaved, id' ∈ r'.unsaved)
    (hid : id ∈ r'.unsaved ∨ ∀ row, (f row).unseen = row.unseen) :
    r.Grown r' where
  saving := hs
  hashes := hb
  unsaved := hu
  nextId _ := by rw [hn]
  numbered h id' row' hr' := by
    rw [hn]
    rw [hrow] at hr'
    split at hr'
    · obtain ⟨row, hr, rfl⟩ := Option.map_eq_some_iff.mp hr'
      rw [hf]
      exact h id' row hr
    · exact h id' row' hr'
  rows id' row hr := by
    rw [hrow, hr]
    split
    · exact ⟨f row, rfl⟩
    · exact ⟨row, rfl⟩
  same id' row' hr' hu' := by
    rw [hrow] at hr'
    split at hr'
    · next heq =>
      obtain ⟨row, hr, rfl⟩ := Option.map_eq_some_iff.mp hr'
      obtain hmem | hsame := hid
      · exact absurd (heq ▸ hmem) hu'
      · exact ⟨row, hr, hsame row⟩
    · exact ⟨row', hr', rfl⟩

theorem Records.Grown.add (row : TorrentRecord)
    (hrow : ∀ id, r'.row id = if r.nextId = id then some row else r.row id)
    (hid : row.id = r.nextId) (hn : r'.nextId = r.nextId.after) (hs : r'.saving = r.saving)
    (hb : ∀ (hash : TorrentHash) (id : RecordId), r.byHash[hash]? = some id → r'.byHash[hash]? = some id)
    (hu : r'.unsaved = r.unsaved.insert r.nextId) : r.Grown r' where
  saving := hs
  hashes := hb
  unsaved id h := by
    rw [hu]
    exact mem_unsaved_insert h
  nextId hlt := by
    rw [hn] at hlt ⊢
    exact (lt_after hlt).le
  numbered h id row' hr' := by
    rw [hrow] at hr'
    split at hr'
    · next heq =>
      cases hr'
      refine ⟨hid.trans heq, fun hlt => ?_⟩
      rw [hn] at hlt ⊢
      exact heq ▸ lt_after hlt
    · obtain ⟨heq, hfresh⟩ := h id row' hr'
      refine ⟨heq, fun hlt => ?_⟩
      rw [hn] at hlt ⊢
      exact (hfresh (after_lt hlt).1).trans (lt_after hlt)
  rows id old hr := by
    rw [hrow, hr]
    split
    · exact ⟨row, rfl⟩
    · exact ⟨old, rfl⟩
  same id row' hr' hu' := by
    rw [hrow] at hr'
    split at hr'
    · next heq =>
      rw [hu] at hu'
      exact absurd (heq ▸ mem_insert_unsaved r r.nextId) hu'
    · exact ⟨row', hr', rfl⟩

theorem setDesired_grown (id : RecordId) (desired : Desired) : r.Grown (r.setDesired id desired) :=
  .update id _ (setDesired_row r id desired) (fun _ => rfl) rfl rfl (fun _ _ h => h)
    (fun _ => mem_unsaved_insert) (.inl (mem_insert_unsaved r id))

theorem recordSeen_grown (now : ClockReading) (id : RecordId) (torrent : Torrent) :
    r.Grown (r.recordSeen now id torrent) := by
  have hkept : (r.recordSeen now id torrent).saving = r.saving ∧
    (r.recordSeen now id torrent).byHash = r.byHash ∧
      ∀ id' ∈ r.unsaved, id' ∈ (r.recordSeen now id torrent).unsaved := by
    unfold Records.recordSeen
    split
    · refine ⟨rfl, rfl, fun id' hu => ?_⟩
      dsimp only
      split
      · exact mem_unsaved_insert hu
      · exact hu
    · exact ⟨rfl, rfl, fun _ hu => hu⟩
  obtain ⟨hs, hb, hu⟩ := hkept
  exact .update id _ (recordSeen_row r now id torrent) (fun _ => rfl)
    (recordSeen_nextId now id torrent) hs
    (fun hash id h => by rw [hb, h]) hu (.inr fun _ => rfl)

theorem bookmark_grown (new : MamTorrentId × Desired) : r.Grown (r.bookmark new) := by
  cases hk : r.byMam.contains new.1 with
  | true =>
    have heq : r.bookmark new = r := if_pos hk
    rw [heq]
    exact .refl r
  | false =>
    obtain ⟨hn, hb, -, hs, hu⟩ := bookmark_fields r hk
    refine .add
      { id := r.nextId
        identity := .mam new.1
        origin := .bookmark
        desired := new.2
        savePath := none
        deletion := .notAllowed
        observation := none } (fun id => ?_) rfl hn hs (fun hash id h => by rw [hb, h]) hu
    rw [bookmark_row, hk]
    by_cases hid : r.nextId = id
    · simp [hid]
    · simp [hid]

theorem recordSeen_first {id : RecordId} {entry : Entry} (he : r.entries[id]? = some entry)
    (ho : entry.record.observation = none) (now : ClockReading) (torrent : Torrent) :
    (r.recordSeen now id torrent).saving = r.saving ∧ (r.recordSeen now id torrent).byHash = r.byHash ∧
      (r.recordSeen now id torrent).unsaved = r.unsaved.insert id := by
  have hseen (observation : Observation) : (entry.observe now.monotonic observation).2 = true := by
    unfold Entry.observe
    rw [ho]
  unfold Records.recordSeen
  rw [he]
  exact ⟨rfl, rfl, if_pos (hseen _)⟩

theorem found_grown (now : ClockReading) {hash : TorrentHash} (torrent : Torrent)
    (hn : r.byHash[hash]? = none) :
    r.Grown ((r.adopt hash torrent).1.recordSeen now (r.adopt hash torrent).2 torrent) := by
  have hentry : ∃ entry, (r.adopt hash torrent).1.entries[r.nextId]? = some entry ∧
      entry.record.observation = none := by
    unfold Records.adopt Records.allocate
    dsimp only
    exact ⟨_, Std.ExtTreeMap.getElem?_insert_self, rfl⟩
  obtain ⟨entry, he, ho⟩ := hentry
  obtain ⟨hs, hb, hu⟩ := recordSeen_first he ho now torrent
  have hid : (r.adopt hash torrent).2 = r.nextId := rfl
  rw [hid]
  refine .add
    { id := r.nextId
      identity := .client hash
      origin := .adopted
      desired := .active
      savePath := torrent.savePath
      deletion := .notAllowed
      observation := some { torrent := torrent, lastSeen := now.wall } } (fun id => ?_) rfl
    (recordSeen_nextId now r.nextId torrent) hs (fun hash' id h => ?_) hu
  · rw [recordSeen_row, adopt_row]
    by_cases hid : r.nextId = id
    · simp [hid]
    · simp [hid]
  · have hne : hash ≠ hash' := by
      rintro rfl
      rw [hn] at h
      cases h
    rw [hb]
    unfold Records.adopt Records.allocate
    dsimp only
    rw [Std.ExtTreeMap.getElem?_insert, if_neg (by simpa using hne), h]

theorem requeued_grown {id : RecordId} {entry : Entry} (he : r.entries[id]? = some entry) : r.Grown
    { r with
      entries := r.entries.insert id
        { entry with record := { entry.record with desired := .queued, origin := .redownload } }
      unsaved := r.unsaved.insert id } :=
  .update id _ (requeued_row r he _) (fun _ => rfl) rfl rfl (fun _ _ h => h) (fun _ => mem_unsaved_insert)
    (.inl (mem_insert_unsaved r id))

theorem relink_grown {target : RecordId} {hash : TorrentHash} (mam : MamTorrentId)
    (origin : Option Origin)
    (hb : ∀ id, r.byHash[hash]? = some id → id = target) : r.Grown (r.relink target mam hash origin) := by
  refine .update target _ (relink_row r target mam hash origin) (fun _ => rfl) rfl rfl
    (fun hash' id h => ?_)
    (fun _ => mem_unsaved_insert) (.inl (mem_insert_unsaved r target))
  have hindex : (r.relink target mam hash origin).byHash = r.byHash.insert hash target := rfl
  rw [hindex, Std.ExtTreeMap.getElem?_insert]
  split
  · next heq =>
    rw [Std.LawfulEqOrd.compare_eq_iff_eq] at heq
    subst heq
    rw [hb id h]
  · exact h

theorem link_grown (id : RecordId) (mam : MamTorrentId) (hash : TorrentHash) :
    r.Grown (r.link id mam hash) := by
  have htarget (id' : RecordId) (hb : r.byHash[hash]? = some id') : id' = r.target id hash := by
    rw [Records.target, hb, Option.getD_some]
  rw [link_eq]
  by_cases ht : r.target id hash = id
  · rw [if_pos ht]
    exact relink_grown mam _ htarget
  · rw [if_neg ht]
    have hremoved : r.Grown
        { r.setDesired id .removed with byMam := r.byMam.insert mam (r.target id hash) } :=
      .update id _ (setDesired_row r id .removed) (fun _ => rfl) rfl rfl (fun _ _ h => h)
        (fun _ => mem_unsaved_insert) (.inl (mem_insert_unsaved r id))
    exact hremoved.trans (relink_grown mam _ htarget)

def Records.batch (r : Records) : List TorrentRecord :=
  (r.entries.toList.filter fun p => r.unsaved.contains p.1).map fun p => p.2.record

theorem mem_batch {b : TorrentRecord} : b ∈ r.batch ↔ ∃ id ∈ r.unsaved, r.row id = some b := by
  unfold Records.batch Records.row
  simp only [List.mem_map, List.mem_filter, Prod.exists, Std.ExtTreeMap.mem_toList_iff_getElem?_eq_some,
    Option.map_eq_some_iff, Std.ExtTreeSet.contains_iff_mem]
  constructor
  · rintro ⟨id, entry, ⟨he, hu⟩, rfl⟩
    exact ⟨id, hu, entry, he, rfl⟩
  · rintro ⟨id, hu, entry, he, rfl⟩
    exact ⟨id, entry, ⟨he, hu⟩, rfl⟩

theorem batch_pairwise (h : r.Numbered) : r.batch.Pairwise fun b b' => b.id ≠ b'.id := by
  unfold Records.batch
  refine List.pairwise_map.mpr (List.Pairwise.filter _ ?_)
  refine Std.ExtTreeMap.distinct_keys_toList.imp_of_mem fun {p p'} hp hp' hne => ?_
  have hid {p : RecordId × Entry} (hp : p ∈ r.entries.toList) : p.2.record.id = p.1 := by
    refine (h p.1 p.2.record ?_).1
    rw [Records.row, Std.ExtTreeMap.mem_toList_iff_getElem?_eq_some.mp hp]
    rfl
  rw [hid hp, hid hp']
  exact fun heq => hne (Std.LawfulEqOrd.compare_eq_iff_eq.mpr heq)

/-- A save hands over every row that waits for it, or changes nothing. -/
theorem save_cases (r : Records) (now : Instant) : (r.save now).1 = r ∧ batches (r.save now).2 = [] ∨
    r.saving = none ∧ batches (r.save now).2 = [r.batch] ∧ (r.save now).1.saving = some r.unsaved := by
  unfold Records.save
  split
  · exact .inl ⟨rfl, rfl⟩
  · next h =>
    rw [Bool.or_eq_true, not_or, Bool.not_eq_true, Option.isSome_eq_false_iff,
      Option.isNone_iff_eq_none] at h
    exact .inr ⟨h.1, rfl, rfl⟩

/-- Every change but a save only changes rows that must then be saved. -/
theorem Records.Change.grown_or {P : Records → MamTorrentId → TorrentHash → Prop}
    {out : List (List TorrentRecord)}
    (h : r.Change P out r') :
    (∃ now, out = batches (r.save now).2 ∧ r' = (r.save now).1) ∨ out = [] ∧ r.Grown r' := by
  cases h with
  | saved now => exact .inl ⟨now, rfl, rfl⟩
  | bookmarked new => exact .inr ⟨rfl, bookmark_grown new⟩
  | found now hash torrent hn => exact .inr ⟨rfl, found_grown now torrent hn⟩
  | seen now id torrent => exact .inr ⟨rfl, recordSeen_grown now id torrent⟩
  | snatched id => exact .inr ⟨rfl, setDesired_grown id .snatched⟩
  | requeued id entry he => exact .inr ⟨rfl, requeued_grown he⟩
  | resumed id => exact .inr ⟨rfl, setDesired_grown id .active⟩
  | held id => exact .inr ⟨rfl, setDesired_grown id .held⟩
  | linked id mam hash => exact .inr ⟨rfl, link_grown id mam hash⟩

theorem Records.Change.ids_left {P : Records → MamTorrentId → TorrentHash → Prop}
    {out : List (List TorrentRecord)}
    (h : r.Change P out r') (hn : r'.nextId.val < u64Max) : r.nextId.val < u64Max := by
  obtain ⟨now, -, rfl⟩ | ⟨-, hg⟩ := h.grown_or
  · simpa using hn
  · exact nextId_before hg.nextId hn

theorem Records.Changed.onward {P : Records → MamTorrentId → TorrentHash → Prop} {r r' : Records}
    {out : List (List TorrentRecord)} (h : r.Changed P out r') :
    (∀ id row, r.row id = some row → ∃ row', r'.row id = some row') ∧
      (r'.nextId.val < u64Max → r.nextId ≤ r'.nextId) := by
  induction h with
  | refl => exact ⟨fun _ row hr => ⟨row, hr⟩, fun _ => le_rfl⟩
  | tail _ hc ih =>
    obtain ⟨hrows, hids⟩ := ih
    obtain ⟨now, rfl, rfl⟩ | ⟨-, hg⟩ := hc.grown_or
    · exact ⟨fun id row hr => by simpa using hrows id row hr,
        fun hlt => by simpa using hids (by simpa using hlt)⟩
    · refine ⟨fun id row hr => ?_, fun hlt => ?_⟩
      · obtain ⟨row', hr'⟩ := hrows id row hr
        exact hg.rows id row' hr'
      · exact (hids (nextId_before hg.nextId hlt)).trans (hg.nextId hlt)

theorem save_numbered (h : r.Numbered) (now : Instant) : (r.save now).1.Numbered := by
  intro id row hr
  rw [save_row] at hr
  rw [save_nextId]
  exact h id row hr

end

end Windlass
