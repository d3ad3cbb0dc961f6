import Windlass.DownloadSound
import Windlass.GrownSound

/-!
# The two indexes

Every row is found under its hash, and every MAM ID leads to the row that
stands for it: the one that is not removed, or the newest. Rows read from
storage start so, and every operation keeps them so as long as no fetched torrent
has the hash of a row that stands for another MAM ID. Then the indexes of a
registry read back from its own rows are those it has.
-/

namespace Windlass

/-! ## Maps collected from a list -/

section
variable {α κ ν : Type} [Ord κ] [Std.TransOrd κ] [Std.LawfulEqOrd κ] [DecidableEq κ]

theorem collect_getElem (key : α → Option κ) {value : α → ν}
    {add : Std.ExtTreeMap κ ν → α → Std.ExtTreeMap κ ν}
    (hsome : ∀ m x k, key x = some k → add m x = m.insert k (value x))
    (hnone : ∀ m x, key x = none → add m x = m)
    (xs : List α) (k : κ) :
    (xs.foldl add ∅)[k]? = ((xs.filter fun x => key x = some k).getLast?).map value := by
  induction xs using List.reverseRecOn with
  | nil => simp
  | append_singleton xs x ih =>
    rw [List.foldl_append, List.filter_append, List.foldl_cons, List.foldl_nil]
    cases hk : key x with
    | none =>
      rw [hnone _ x hk]
      simpa [hk] using ih
    | some k' =>
      rw [hsome _ x k' hk, Std.ExtTreeMap.getElem?_insert]
      by_cases h : k' = k
      · subst h
        simp [hk]
      · simpa [hk, h] using ih

end

/-! ## Filed rows -/

/-- The row that stands for a MAM torrent. Every other row with its MAM ID is
removed, and older if this one is removed too. -/
def Records.Chosen (r : Records) (mam : MamTorrentId) (id : RecordId) : Prop :=
  ∃ row, r.row id = some row ∧ row.identity.mamId = some mam ∧
    ∀ id' row', id' ≠ id → r.row id' = some row' → row'.identity.mamId = some mam →
      row'.desired = .removed ∧ (row.desired = .removed → id' < id)

structure Records.Filed (r : Records) : Prop where
  ids : ∀ id row, r.row id = some row → row.id = id
  fresh : ∀ id row, r.row id = some row → id < r.nextId
  hashes : ∀ hash id, r.byHash[hash]? = some id ↔
    ∃ row, r.row id = some row ∧ row.identity.hash = some hash
  chosen : ∀ mam id, r.byMam[mam]? = some id → r.Chosen mam id
  known : ∀ id row mam, r.row id = some row → row.identity.mamId = some mam →
    ∃ id', r.byMam[mam]? = some id'

section
variable {r r' : Records}

theorem Records.Chosen.unique {mam : MamTorrentId} {id id' : RecordId} (h : r.Chosen mam id)
    (h' : r.Chosen mam id') :
    id = id' := by
  obtain ⟨row, hr, hm, ho⟩ := h
  obtain ⟨row', hr', hm', ho'⟩ := h'
  by_contra hne
  obtain ⟨hd', hlt⟩ := ho id' row' (Ne.symm hne) hr' hm'
  obtain ⟨hd, hlt'⟩ := ho' id row hne hr hm
  exact absurd (hlt hd) (hlt' hd').asymm

theorem Records.Chosen.of_rows {mam : MamTorrentId} {id : RecordId} (h : r.Chosen mam id)
    (hrow : ∀ id, r'.row id = r.row id) :
    r'.Chosen mam id := by
  unfold Records.Chosen at h ⊢
  simpa only [hrow] using h

theorem Records.Filed.one_live (h : r.Filed) {id id' : RecordId} {row row' : TorrentRecord}
    {mam : MamTorrentId}
    (hr : r.row id = some row) (hr' : r.row id' = some row') (hm : row.identity.mamId = some mam)
    (hm' : row'.identity.mamId = some mam) (hd : row.desired ≠ .removed)
    (hd' : row'.desired ≠ .removed) : id = id' := by
  obtain ⟨chosen, hc⟩ := h.known id row mam hr hm
  obtain ⟨_, _, _, ho⟩ := h.chosen mam chosen hc
  have hid : id = chosen := by
    by_contra hne
    exact hd (ho id row hne hr hm).1
  have hid' : id' = chosen := by
    by_contra hne
    exact hd' (ho id' row' hne hr' hm').1
  rw [hid, hid']

theorem Records.Filed.indexed (h : r.Filed) : r.Indexed := by
  intro id hash hh
  rw [hashIn_row, Option.bind_eq_some_iff] at hh
  exact (h.hashes hash id).mpr hh

theorem Records.Filed.same_indexes (h : r.Filed) (h' : r'.Filed) (hrow : ∀ id, r'.row id = r.row id) :
    r'.byHash = r.byHash ∧ r'.byMam = r.byMam := by
  constructor
  · refine Std.ExtTreeMap.ext_getElem? fun hash => ?_
    refine Option.ext fun id => ?_
    rw [h.hashes, h'.hashes, hrow]
  · refine Std.ExtTreeMap.ext_getElem? fun mam => ?_
    have hsub (r r' : Records) (h : r.Filed) (h' : r'.Filed)
      (hrow : ∀ id, r'.row id = r.row id) (id : RecordId)
        (hm : r.byMam[mam]? = some id) : r'.byMam[mam]? = some id := by
      have hc := h.chosen mam id hm
      obtain ⟨row, hr, hrm, -⟩ := h.chosen mam id hm
      obtain ⟨id', hm'⟩ := h'.known id row mam ((hrow id).trans hr) hrm
      rw [hm', (hc.of_rows hrow).unique (h'.chosen mam id' hm')]
    refine Option.ext fun id => ⟨?_, ?_⟩
    · exact hsub r' r h' h (fun id => (hrow id).symm) id
    · exact hsub r r' h h' hrow id

end

/-! ## Rows read from storage -/

/-- Rows as storage returns them: in the order of their ids, no hash twice, and
at most one row for a MAM ID that is not removed. -/
structure OrderedRows (rows : List TorrentRecord) : Prop where
  ids : rows.Pairwise fun row row' => row.id < row'.id
  stored : StoredRows rows

section
variable {rows : List TorrentRecord}

theorem same_of_ids (h : rows.Pairwise fun row row' => row.id < row'.id) {row row' : TorrentRecord}
    (hr : row ∈ rows)
    (hr' : row' ∈ rows) (hid : row.id = row'.id) : row = row' := by
  by_contra hne
  have hp : rows.Pairwise fun row row' => row.id ≠ row'.id := h.imp fun hlt => hlt.ne
  have : Std.Symm fun row row' : TorrentRecord => row.id ≠ row'.id := ⟨fun _ _ => Ne.symm⟩
  exact hp.forall hr hr' hne hid

theorem mem_of_new {id : RecordId} {row : TorrentRecord} (hrow : (Records.new rows).row id = some row) :
    row ∈ rows ∧ row.id = id := by
  obtain ⟨entry, he, rfl⟩ := Option.map_eq_some_iff.mp hrow
  obtain ⟨row, hr, hid, rfl⟩ := new_entries he
  exact ⟨hr, hid⟩

theorem new_row (h : rows.Pairwise fun row row' => row.id < row'.id) {id : RecordId}
    {row : TorrentRecord} :
    (Records.new rows).row id = some row ↔ row ∈ rows ∧ row.id = id := by
  refine ⟨mem_of_new, ?_⟩
  rintro ⟨hr, rfl⟩
  have hentries : (Records.new rows).entries[row.id]? =
      ((rows.filter fun row' => some row'.id = some row.id).getLast?).map Entry.new :=
    collect_getElem (fun row : TorrentRecord =>
      some row.id) (by rintro m row _ ⟨⟩; rfl) (by intro m row h; cases h)
      rows row.id
  have hmem : row ∈ rows.filter fun row' => some row'.id = some row.id := by simp [hr]
  obtain ⟨last, hlast⟩ := Option.isSome_iff_exists.mp (List.getLast?_isSome.mpr (List.ne_nil_of_mem hmem))
  have hl := List.mem_of_getLast? hlast
  rw [List.mem_filter, decide_eq_true_eq, Option.some.injEq] at hl
  unfold Records.row
  rw [hentries, Option.map_map, hlast, same_of_ids h hr hl.1 hl.2.symm]
  rfl

theorem new_hashes (h : OrderedRows rows) (hash : TorrentHash) (id : RecordId) :
    (Records.new rows).byHash[hash]? = some id ↔
      ∃ row, (Records.new rows).row id = some row ∧ row.identity.hash = some hash := by
  have hindex : (Records.new rows).byHash[hash]? =
      ((rows.filter fun row => row.identity.hash = some hash).getLast?).map (·.id) :=
    collect_getElem (fun row : TorrentRecord =>
      row.identity.hash) (by intro m row hash h; rw [h]) (by intro m row h; rw [h]) rows hash
  constructor
  · intro hb
    rw [hindex] at hb
    obtain ⟨row, hlast, hid⟩ := Option.map_eq_some_iff.mp hb
    have hmem := List.mem_of_getLast? hlast
    rw [List.mem_filter, decide_eq_true_eq] at hmem
    exact ⟨row, (new_row h.ids).mpr ⟨hmem.1, hid⟩, hmem.2⟩
  · rintro ⟨row, hrow, hh⟩
    refine new_indexed h.stored.hashes id hash ?_
    rw [hashIn_row, hrow]
    exact hh

theorem new_byMam (mam : MamTorrentId) : (Records.new rows).byMam[mam]? =
    (((rows.filter fun row => row.desired == .removed).filter fun row => row.identity.mamId = some mam) ++
      (rows.filter fun row => row.desired != .removed).filter fun row =>
      row.identity.mamId = some mam).getLast?.map
      (·.id) := by
  rw [← List.filter_append]
  exact collect_getElem (fun row : TorrentRecord => row.identity.mamId)
    (by intro m row mam h; rw [h]) (by intro m row h; rw [h]) _ mam

theorem new_known (h : OrderedRows rows) {id : RecordId} {row : TorrentRecord} {mam : MamTorrentId}
    (hr : (Records.new rows).row id = some row) (hm : row.identity.mamId = some mam) :
    ∃ id', (Records.new rows).byMam[mam]? = some id' := by
  obtain ⟨hr, -⟩ := (new_row h.ids).mp hr
  rw [← Option.isSome_iff_exists, new_byMam, Option.isSome_map, List.getLast?_isSome]
  refine List.ne_nil_of_mem (a := row) ?_
  simp only [List.mem_append, List.mem_filter, decide_eq_true_eq, bne_iff_ne, beq_iff_eq]
  by_cases hd : row.desired = .removed
  · exact .inl ⟨⟨hr, hd⟩, hm⟩
  · exact .inr ⟨⟨hr, hd⟩, hm⟩

theorem new_chosen (h : OrderedRows rows) {mam : MamTorrentId} {id : RecordId}
    (hm : (Records.new rows).byMam[mam]? = some id) : (Records.new rows).Chosen mam id := by
  rw [new_byMam] at hm
  obtain ⟨row, hlast, rfl⟩ := Option.map_eq_some_iff.mp hm
  have hmem := List.mem_of_getLast? hlast
  simp only [List.mem_append, List.mem_filter, decide_eq_true_eq, bne_iff_ne, beq_iff_eq] at hmem
  have hrow : row ∈ rows ∧ row.identity.mamId = some mam := by
    obtain ⟨⟨hr, -⟩, hm⟩ | ⟨⟨hr, -⟩, hm⟩ := hmem <;> exact ⟨hr, hm⟩
  refine ⟨row, (new_row h.ids).mpr ⟨hrow.1, rfl⟩, hrow.2, fun id' row' hne hrow' hm' => ?_⟩
  obtain ⟨hr', rfl⟩ := (new_row h.ids).mp hrow'
  have hd' : row'.desired = .removed := by
    by_contra hd'
    have hlive : row' ∈ (rows.filter fun row => row.desired != .removed).filter fun row =>
        row.identity.mamId = some mam := by
      simp [hr', hd', hm']
    rw [List.getLast?_append_of_ne_nil _ (List.ne_nil_of_mem hlive)] at hlast
    have hl := List.mem_of_getLast? hlast
    simp only [List.mem_filter, decide_eq_true_eq, bne_iff_ne] at hl
    have : Std.Symm fun row row' : TorrentRecord => row.desired ≠ .removed → row'.desired ≠ .removed →
        ∀ mam, row.identity.mamId = some mam → row'.identity.mamId ≠ some mam :=
      ⟨fun _ _ h hd hd' mam hm hm' => h hd' hd mam hm' hm⟩
    have hrows : row' ≠ row := by
      rintro rfl
      exact hne rfl
    exact h.stored.live.forall hr' hrow.1 hrows hd' hl.1.2 mam hm' hrow.2
  refine ⟨hd', fun hd => ?_⟩
  have hnone : (rows.filter fun row => row.desired != .removed).filter (fun row =>
      row.identity.mamId = some mam) = [] := by
    by_contra hsome
    rw [List.getLast?_append_of_ne_nil _ hsome] at hlast
    have hl := List.mem_of_getLast? hlast
    simp only [List.mem_filter, bne_iff_ne] at hl
    exact hl.1.2 hd
  rw [hnone, List.append_nil] at hlast
  obtain ⟨before, hbefore⟩ := List.getLast?_eq_some_iff.mp hlast
  have hsorted :=
    (h.ids.filter fun row => row.desired == .removed).filter fun row => row.identity.mamId = some mam
  have hr'' : row' ∈ (rows.filter fun row => row.desired == .removed).filter fun row =>
      row.identity.mamId = some mam := by
    simp [hr', hd', hm']
  rw [hbefore] at hsorted hr''
  obtain hb | hb := List.mem_append.mp hr''
  · exact (List.pairwise_append.mp hsorted).2.2 row' hb row (List.mem_singleton_self row)
  · rw [List.mem_singleton.mp hb] at hne
    exact absurd rfl hne

theorem new_fresh (hn : (Records.new rows).nextId.val < u64Max) {row : TorrentRecord} (hr : row ∈ rows) :
    row.id < (Records.new rows).nextId := by
  unfold Records.new at hn ⊢
  dsimp only at hn ⊢
  cases hmax : (rows.map (·.id)).max? with
  | none =>
    rw [List.max?_eq_none_iff, List.map_eq_nil_iff] at hmax
    rw [hmax] at hr
    cases hr
  | some id =>
    rw [hmax] at hn
    have hle : row.id ≤ id := (List.max?_eq_some_iff.mp hmax).2 row.id (List.mem_map_of_mem hr)
    exact lt_of_le_of_lt hle (lt_after hn)

theorem new_filed (h : OrderedRows rows) (hn : (Records.new rows).nextId.val < u64Max) :
    (Records.new rows).Filed where
  ids id row hr := ((new_row h.ids).mp hr).2
  fresh id row hrow := by
    obtain ⟨hr, rfl⟩ := (new_row h.ids).mp hrow
    exact new_fresh hn hr
  hashes := new_hashes h
  chosen _ _ := new_chosen h
  known _ _ _ := new_known h

end

/-! ## The operations keep rows filed -/

section
variable {r r' : Records}

/-- Changes that leave alone what a row is filed under, and whether it is removed. -/
theorem Records.Filed.of_same (h : r.Filed)
    (hrow : ∀ id, ∃ f : TorrentRecord → TorrentRecord, r'.row id = (r.row id).map f ∧
      ∀ row, r.row id = some row → (f row).id = row.id ∧ (f row).identity = row.identity ∧
        ((f row).desired = .removed ↔ row.desired = .removed))
    (hb : r'.byHash = r.byHash) (hm : r'.byMam = r.byMam) (hn : r'.nextId = r.nextId) : r'.Filed := by
  have hback {id : RecordId} {row' : TorrentRecord} (hr : r'.row id = some row') :
    ∃ row, r.row id = some row ∧
      row'.id = row.id ∧ row'.identity = row.identity ∧ (row'.desired = .removed ↔
        row.desired = .removed) := by
    obtain ⟨f, hf, hsame⟩ := hrow id
    rw [hf] at hr
    obtain ⟨row, hrow, rfl⟩ := Option.map_eq_some_iff.mp hr
    exact ⟨row, hrow, hsame row hrow⟩
  have hforth {id : RecordId} {row : TorrentRecord} (hr : r.row id = some row) :
    ∃ row', r'.row id = some row' ∧
      row'.identity = row.identity ∧ (row'.desired = .removed ↔ row.desired = .removed) := by
    obtain ⟨f, hf, hsame⟩ := hrow id
    rw [hr] at hf
    exact ⟨f row, hf, (hsame row hr).2⟩
  refine ⟨fun id row' hr => ?_, fun id row' hr => ?_, fun hash id => ?_, fun mam id hc => ?_,
    fun id row' mam hr hi => ?_⟩
  · obtain ⟨row, hr, hid, -⟩ := hback hr
    rw [hid]
    exact h.ids id row hr
  · obtain ⟨row, hr, -⟩ := hback hr
    rw [hn]
    exact h.fresh id row hr
  · rw [hb, h.hashes]
    constructor
    · rintro ⟨row, hr, hh⟩
      obtain ⟨row', hr', hi, -⟩ := hforth hr
      exact ⟨row', hr', by rw [hi, hh]⟩
    · rintro ⟨row', hr', hh⟩
      obtain ⟨row, hr, -, hi, -⟩ := hback hr'
      exact ⟨row, hr, by rw [← hi, hh]⟩
  · rw [hm] at hc
    obtain ⟨row, hr, hrm, ho⟩ := h.chosen mam id hc
    obtain ⟨row', hr', hi, hd⟩ := hforth hr
    refine ⟨row', hr', by rw [hi, hrm], fun id₁ row₁' hne hr₁' hm₁ => ?_⟩
    obtain ⟨row₁, hr₁, -, hi₁, hd₁⟩ := hback hr₁'
    obtain ⟨hremoved, hlt⟩ := ho id₁ row₁ hne hr₁ (by rw [← hi₁, hm₁])
    exact ⟨hd₁.mpr hremoved, fun hd' => hlt (hd.mp hd')⟩
  · rw [hm]
    obtain ⟨row, hr, -, hi', -⟩ := hback hr
    exact h.known id row mam hr (by rw [← hi', hi])

theorem Records.Filed.update (h : r.Filed) (id : RecordId) (f : TorrentRecord → TorrentRecord)
    (hrow : ∀ id', r'.row id' = if id = id' then (r.row id').map f else r.row id')
    (hf : ∀ row, r.row id = some row →
      (f row).id = row.id ∧ (f row).identity = row.identity ∧ ((f row).desired = .removed ↔
        row.desired = .removed))
    (hb : r'.byHash = r.byHash) (hm : r'.byMam = r.byMam) (hn : r'.nextId = r.nextId) : r'.Filed := by
  refine h.of_same (fun id' => ?_) hb hm hn
  by_cases hid : id = id'
  · subst hid
    exact ⟨f, (hrow id).trans (if_pos rfl), hf⟩
  · refine ⟨fun row => row, ?_, fun row _ => ⟨rfl, rfl, Iff.rfl⟩⟩
    rw [hrow, if_neg hid, Option.map_id']

theorem Records.Filed.add (h : r.Filed) (row : TorrentRecord) (hid : row.id = r.nextId)
    (hrow : ∀ id, r'.row id = if r.nextId = id then some row else r.row id) (hn : r.nextId < r'.nextId)
    (hb : ∀ hash id, r'.byHash[hash]? = some id ↔
      row.identity.hash = some hash ∧ r.nextId = id ∨
      row.identity.hash ≠ some hash ∧ r.byHash[hash]? = some id)
    (hm : ∀ mam id, r'.byMam[mam]? = some id ↔
      row.identity.mamId = some mam ∧ r.nextId = id ∨
      row.identity.mamId ≠ some mam ∧ r.byMam[mam]? = some id)
    (hhash : ∀ hash, row.identity.hash = some hash → r.byHash[hash]? = none)
    (hmam : ∀ mam, row.identity.mamId = some mam → r.byMam[mam]? = none) : r'.Filed := by
  have hold {id : RecordId} {row' : TorrentRecord} (hr : r.row id = some row') :
      r'.row id = some row' := by
    rw [hrow, if_neg (h.fresh id row' hr).ne', hr]
  have hnew : r'.row r.nextId = some row := (hrow _).trans (if_pos rfl)
  have hcases {id : RecordId} {row' : TorrentRecord} (hr : r'.row id = some row') :
      r.nextId = id ∧ row' = row ∨ r.row id = some row' := by
    rw [hrow] at hr
    split at hr
    · next hid => exact .inl ⟨hid, (Option.some.inj hr).symm⟩
    · exact .inr hr
  refine ⟨fun id row' hr => ?_, fun id row' hr => ?_, fun hash id => ?_, fun mam id hc => ?_,
    fun id row' mam hr hi => ?_⟩
  · obtain ⟨rfl, rfl⟩ | hr := hcases hr
    · exact hid
    · exact h.ids id row' hr
  · obtain ⟨rfl, -⟩ | hr := hcases hr
    · exact hn
    · exact (h.fresh id row' hr).trans hn
  · rw [hb]
    constructor
    · rintro (⟨hh, rfl⟩ | ⟨-, hh⟩)
      · exact ⟨row, hnew, hh⟩
      · obtain ⟨row', hr, hh⟩ := (h.hashes hash id).mp hh
        exact ⟨row', hold hr, hh⟩
    · rintro ⟨row', hr, hh⟩
      obtain ⟨rfl, rfl⟩ | hr := hcases hr
      · exact .inl ⟨hh, rfl⟩
      · have hindex := (h.hashes hash id).mpr ⟨row', hr, hh⟩
        refine .inr ⟨fun hh' => ?_, hindex⟩
        rw [hhash hash hh'] at hindex
        cases hindex
  -- the new row is the first with its MAM ID
  · obtain ⟨hrm, rfl⟩ | ⟨hne, hc⟩ := (hm mam id).mp hc
    · refine ⟨row, hnew, hrm, fun id' row' hne hr hm' => ?_⟩
      obtain ⟨rfl, -⟩ | hr := hcases hr
      · exact absurd rfl hne
      · obtain ⟨id'', hk⟩ := h.known id' row' mam hr hm'
        rw [hmam mam hrm] at hk
        cases hk
    · obtain ⟨row', hr, hrm, ho⟩ := h.chosen mam id hc
      refine ⟨row', hold hr, hrm, fun id₁ row₁ hne₁ hr₁ hm₁ => ?_⟩
      obtain ⟨-, rfl⟩ | hr₁ := hcases hr₁
      · exact absurd hm₁ hne
      · exact ho id₁ row₁ hne₁ hr₁ hm₁
  · obtain ⟨-, rfl⟩ | hr := hcases hr
    · exact ⟨r.nextId, (hm mam _).mpr (.inl ⟨hi, rfl⟩)⟩
    · obtain ⟨id', hk⟩ := h.known id row' mam hr hi
      by_cases hrm : row.identity.mamId = some mam
      · exact ⟨r.nextId, (hm mam _).mpr (.inl ⟨hrm, rfl⟩)⟩
      · exact ⟨id', (hm mam _).mpr (.inr ⟨hrm, hk⟩)⟩

theorem setDesired_filed (h : r.Filed) {id : RecordId} {entry : Entry} (he : r.entries[id]? = some entry)
    (hd : entry.record.desired ≠ .removed) {desired : Desired} (hd' : desired ≠ .removed) :
    (r.setDesired id desired).Filed := by
  refine h.update id _ (setDesired_row r id desired) (fun row hr => ⟨rfl, rfl, ?_⟩) rfl rfl rfl
  unfold Records.row at hr
  rw [he] at hr
  cases hr
  exact iff_of_false hd' hd

theorem recordSeen_filed (h : r.Filed) (now : ClockReading) (id : RecordId) (torrent : Torrent) :
    (r.recordSeen now id torrent).Filed := by
  refine h.update id _ (recordSeen_row r now id torrent) (fun row _ => ⟨rfl, rfl, Iff.rfl⟩) ?_ ?_ ?_ <;>
  · unfold Records.recordSeen
    split <;> rfl

theorem requeued_filed (h : r.Filed) {id : RecordId} {entry : Entry} (he : r.entries[id]? = some entry)
    (hd : entry.record.desired ≠ .removed) (unsaved : Std.ExtTreeSet RecordId) :
    { r with
      entries := r.entries.insert id
        { entry with record := { entry.record with desired := .queued, origin := .redownload } }
      unsaved := unsaved : Records }.Filed := by
  refine h.update id _ (requeued_row r he unsaved) (fun row hr => ⟨rfl, rfl, ?_⟩) rfl rfl rfl
  rw [Records.row, he] at hr
  cases hr
  exact iff_of_false Desired.noConfusion hd

theorem bookmark_filed (h : r.Filed) (new : MamTorrentId × Desired)
    (hn : (r.bookmark new).nextId.val < u64Max) :
    (r.bookmark new).Filed := by
  cases hk : r.byMam.contains new.1 with
  | true =>
    have heq : r.bookmark new = r := if_pos hk
    rw [heq]
    exact h
  | false =>
    obtain ⟨hnext, hb, hm, -⟩ := bookmark_fields r hk
    rw [hnext] at hn
    refine h.add
      { id := r.nextId
        identity := .mam new.1
        origin := .bookmark
        desired := new.2
        savePath := none
        deletion := .notAllowed
        observation :=
          none } rfl (fun id => ?_) ?_ (fun hash id => ?_) (fun mam id => ?_) nofun fun mam hi => ?_
    · rw [bookmark_row]
      simp only [hk, true_and]
      split
      · next hid => rw [hid]
      · rfl
    · rw [hnext]
      exact lt_after hn
    · simp [hb, Identity.hash]
    · rw [hm, Std.ExtTreeMap.getElem?_insert]
      by_cases hi : new.1 = mam
      · simp [hi, Identity.mamId]
      · simp [hi, Identity.mamId]
    · cases hi
      rw [Std.ExtTreeMap.contains_eq_isSome_getElem?] at hk
      exact Option.isSome_eq_false_iff.mp hk |> Option.isNone_iff_eq_none.mp

theorem adopt_filed (h : r.Filed) {hash : TorrentHash} (hn : r.byHash[hash]? = none) (torrent : Torrent)
    (hnext : (r.adopt hash torrent).1.nextId.val < u64Max) : (r.adopt hash torrent).1.Filed := by
  refine h.add
    { id := r.nextId
      identity := .client hash
      origin := .adopted
      desired := .active
      savePath := torrent.savePath
      deletion := .notAllowed
      observation :=
        none } rfl (fun id => ?_) ?_ (fun hash' id => ?_) (fun mam id => ?_) (fun hash' hh => ?_) nofun
  · rw [adopt_row]
    split
    · next hid => rw [hid]
    · rfl
  · exact lt_after hnext
  · unfold Records.adopt Records.allocate
    dsimp only
    rw [Std.ExtTreeMap.getElem?_insert]
    by_cases hi : hash = hash'
    · simp [hi, Identity.hash]
    · simp [hi, Identity.hash]
  · simp [Records.adopt, Records.allocate, Identity.mamId]
  · cases hh
    exact hn

/-- The row with the fetched hash stands for no other MAM ID; with no such row,
the fetched row has no other hash. -/
def Records.Fits (r : Records) (mam : MamTorrentId) (hash : TorrentHash) : Prop :=
  match r.byHash[hash]? with
  | some existing => ∀ mam', r.byMam[mam']? = some existing → mam' = mam
  | none => ∀ row, r.findMam mam = some row → row.identity.hash = none

/-- The row a fetched hash goes to has no other hash, and stands for no other MAM ID. -/
theorem Records.Fits.target {mam : MamTorrentId} {hash : TorrentHash} (hf : r.Fits mam hash)
    (h : r.Filed) {id : RecordId}
    (hm : r.byMam[mam]? = some id) :
    (∃ row, r.row (r.target id hash) = some row) ∧
      (∀ row hash', r.row (r.target id hash) = some row → row.identity.hash = some hash' → hash' = hash) ∧
      ∀ mam', r.byMam[mam']? = some (r.target id hash) → mam' = mam := by
  unfold Records.Fits at hf
  unfold Records.target
  obtain ⟨queued, hq, hqm, -⟩ := h.chosen mam id hm
  cases hb : r.byHash[hash]? with
  | some existing =>
    rw [hb] at hf
    obtain ⟨row, hr, hh⟩ := (h.hashes hash existing).mp hb
    refine ⟨⟨row, hr⟩, fun row' hash' hr' hh' => ?_, hf⟩
    rw [Option.getD_some, hr] at hr'
    cases hr'
    rw [hh] at hh'
    exact (Option.some.inj hh').symm
  | none =>
    rw [hb] at hf
    refine ⟨⟨queued, hq⟩, fun row hash' hr hh => ?_, fun mam' hm' => ?_⟩
    · have hnone := hf row (by rw [Records.findMam, hm, Option.bind_some]; exact hr)
      rw [hh] at hnone
      cases hnone
    · obtain ⟨queued', hq', hqm', -⟩ := h.chosen mam' id hm'
      rw [hq] at hq'
      cases hq'
      rw [hqm] at hqm'
      exact (Option.some.inj hqm').symm

theorem link_nextId (id : RecordId) (mam : MamTorrentId) (hash : TorrentHash) :
    (r.link id mam hash).nextId = r.nextId := by
  rw [link_eq]
  unfold Records.relink Records.setDesired
  split <;> rfl

theorem link_byHash (id : RecordId) (mam : MamTorrentId) (hash hash' : TorrentHash) :
    (r.link id mam hash).byHash[hash']? =
    if hash = hash' then some (r.target id hash) else r.byHash[hash']? := by
  have hb : (r.link id mam hash).byHash = r.byHash.insert hash (r.target id hash) := by
    rw [link_eq]
    unfold Records.relink Records.setDesired
    split <;> rfl
  rw [hb, Std.ExtTreeMap.getElem?_insert]
  simp

/-- What linking leaves under an id: the linked row, the fetched row as history,
or what was there. -/
theorem link_row_cases {id : RecordId} {mam : MamTorrentId} {hash : TorrentHash} {id' : RecordId}
    {row' : TorrentRecord}
    (hr : (r.link id mam hash).row id' = some row') :
    (∃ row, r.target id hash = id' ∧ r.row id' = some row ∧ row'.identity = .linked mam hash ∧
      row'.desired = .active ∧
        row'.id = row.id) ∨
      (r.target id hash ≠ id' ∧
        ∃ row, r.row id' = some row ∧ row'.identity = row.identity ∧ row'.id = row.id ∧
          (id = id' ∧ row'.desired = .removed ∨ id ≠ id' ∧ row'.desired = row.desired)) := by
  rw [link_row] at hr
  by_cases ht : r.target id hash = id'
  · rw [if_pos ht] at hr
    obtain ⟨row, hrow, rfl⟩ := Option.map_eq_some_iff.mp hr
    exact .inl ⟨row, ht, hrow, rfl, rfl, rfl⟩
  · rw [if_neg ht] at hr
    refine .inr ⟨ht, ?_⟩
    by_cases hid : id = id'
    · rw [if_pos hid] at hr
      obtain ⟨row, hrow, rfl⟩ := Option.map_eq_some_iff.mp hr
      exact ⟨row, hrow, rfl, rfl, .inl ⟨hid, rfl⟩⟩
    · rw [if_neg hid] at hr
      exact ⟨row', hr, rfl, rfl, .inr ⟨hid, rfl⟩⟩

theorem link_row_kept {id : RecordId} {mam : MamTorrentId} {hash : TorrentHash} {id' : RecordId}
    {row : TorrentRecord}
    (ht : r.target id hash ≠ id') (hr : r.row id' = some row) :
    ∃ row', (r.link id mam hash).row id' = some row' ∧ row'.identity = row.identity ∧
    (id ≠ id' → row' = row) := by
  have hr' := link_row r id mam hash id'
  rw [if_neg ht, hr] at hr'
  by_cases hid : id = id'
  · rw [if_pos hid] at hr'
    exact ⟨_, hr', rfl, fun hne => absurd hid hne⟩
  · rw [if_neg hid] at hr'
    exact ⟨row, hr', rfl, fun _ => rfl⟩

theorem link_row_target {id : RecordId} {mam : MamTorrentId} {hash : TorrentHash} {row : TorrentRecord}
    (hr : r.row (r.target id hash) = some row) :
    ∃ row', (r.link id mam hash).row (r.target id hash) = some row' ∧
      row'.identity = .linked mam hash ∧ row'.desired = .active := by
  have hr' := link_row r id mam hash (r.target id hash)
  rw [if_pos rfl, hr] at hr'
  exact ⟨_, hr', rfl, rfl⟩

/-- The linked hash leads to the target, every other one where it led. -/
theorem link_hashes (h : r.Filed) {id : RecordId} {mam : MamTorrentId} {hash : TorrentHash}
    (hm : r.byMam[mam]? = some id) (hf : r.Fits mam hash) (hash' : TorrentHash) (id' : RecordId) :
    (r.link id mam hash).byHash[hash']? = some id' ↔
      ∃ row, (r.link id mam hash).row id' = some row ∧ row.identity.hash = some hash' := by
  obtain ⟨⟨row₀, hr₀⟩, hother, -⟩ := hf.target h hm
  rw [link_byHash]
  by_cases hh : hash = hash'
  · subst hh
    rw [if_pos rfl]
    constructor
    · rintro ⟨⟩
      obtain ⟨row, hr, hi, -⟩ := link_row_target hr₀
      exact ⟨row, hr, by rw [hi]; rfl⟩
    · rintro ⟨row', hr, hi⟩
      obtain ⟨-, ht, -⟩ | ⟨-, row, hr, hi', -⟩ := link_row_cases hr
      · rw [ht]
      · have hb : r.byHash[hash]? = some id' := (h.hashes hash id').mpr ⟨row, hr, by rw [← hi', hi]⟩
        rw [Records.target, hb, Option.getD_some]
  · rw [if_neg hh, h.hashes]
    constructor
    · rintro ⟨row, hr, hi⟩
      have ht : r.target id hash ≠ id' := by
        rintro rfl
        exact hh (hother row hash' hr hi).symm
      obtain ⟨row', hr', hi', -⟩ := link_row_kept ht hr
      exact ⟨row', hr', by rw [hi', hi]⟩
    · rintro ⟨row', hr, hi⟩
      obtain ⟨-, -, -, hi', -⟩ | ⟨-, row, hr, hi', -⟩ := link_row_cases hr
      · rw [hi'] at hi
        exact absurd (Option.some.inj hi) hh
      · exact ⟨row, hr, by rw [← hi', hi]⟩

/-- The linked MAM ID leads to the target; any other row with it is removed by then. -/
theorem link_chosen (h : r.Filed) {id : RecordId} {mam : MamTorrentId} {hash : TorrentHash}
    (hm : r.byMam[mam]? = some id) (hf : r.Fits mam hash) (mam' : MamTorrentId) (id' : RecordId)
    (hc : (r.link id mam hash).byMam[mam']? = some id') : (r.link id mam hash).Chosen mam' id' := by
  obtain ⟨⟨row₀, hr₀⟩, -, hmam⟩ := hf.target h hm
  obtain ⟨queued, hq, hqm, ho⟩ := h.chosen mam id hm
  rw [link_byMam hm] at hc
  by_cases hmm : mam = mam'
  · subst hmm
    rw [if_pos rfl] at hc
    cases hc
    obtain ⟨row, hr, hi, hd'⟩ := link_row_target hr₀
    refine ⟨row, hr, by rw [hi]; rfl, fun id₁ row₁ hne hr₁ hm₁ => ⟨?_, fun hd'' => ?_⟩⟩
    · obtain ⟨-, ht, -⟩ | ⟨-, row', hr', hi', -, ⟨-, hd₁⟩ | ⟨hid, hd₁⟩⟩ := link_row_cases hr₁
      · exact absurd ht.symm hne
      · exact hd₁
      · rw [hd₁]
        exact (ho id₁ row' (Ne.symm hid) hr' (by rw [← hi', hm₁])).1
    · rw [hd'] at hd''
      cases hd''
  · rw [if_neg hmm] at hc
    obtain ⟨row, hr, hrm, ho'⟩ := h.chosen mam' id' hc
    have ht : r.target id hash ≠ id' := by
      rintro rfl
      exact hmm (hmam mam' hc).symm
    have hid : id ≠ id' := by
      rintro rfl
      rw [hq] at hr
      cases hr
      rw [hqm] at hrm
      exact hmm (Option.some.inj hrm)
    obtain ⟨row', hr', -, hsame⟩ := link_row_kept ht hr
    rw [hsame hid] at hr'
    refine ⟨row, hr', hrm, fun id₁ row₁ hne hr₁ hm₁ => ?_⟩
    obtain ⟨-, -, -, hi, -⟩ | ⟨-, row₁', hr₁', hi₁, -, ⟨rfl, -⟩ | ⟨-, hd₁⟩⟩ := link_row_cases hr₁
    · rw [hi] at hm₁
      exact absurd (Option.some.inj hm₁) hmm
    · rw [hq] at hr₁'
      cases hr₁'
      rw [hi₁, hqm] at hm₁
      exact absurd (Option.some.inj hm₁) hmm
    · rw [hd₁]
      exact ho' id₁ row₁' hne hr₁' (by rw [← hi₁, hm₁])

theorem link_filed (h : r.Filed) {id : RecordId} {mam : MamTorrentId} {hash : TorrentHash}
    (hm : r.byMam[mam]? = some id) (hf : r.Fits mam hash) : (r.link id mam hash).Filed := by
  refine ⟨fun id' row' hr => ?_, fun id' row' hr => ?_, link_hashes h hm hf, link_chosen h hm hf,
    fun id' row' mam' hr hi => ?_⟩
  · obtain ⟨row, -, hr, -, -, hid⟩ | ⟨-, row, hr, -, hid, -⟩ := link_row_cases hr
    · rw [hid, h.ids id' row hr]
    · rw [hid, h.ids id' row hr]
  · rw [link_nextId]
    obtain ⟨row, -, hr, -⟩ | ⟨-, row, hr, -⟩ := link_row_cases hr
    · exact h.fresh id' row hr
    · exact h.fresh id' row hr
  · rw [link_byMam hm]
    by_cases hmm : mam = mam'
    · exact ⟨r.target id hash, if_pos hmm⟩
    · rw [if_neg hmm]
      obtain ⟨-, -, -, hi', -⟩ | ⟨-, row, hr, hi', -⟩ := link_row_cases hr
      · rw [hi'] at hi
        exact absurd (Option.some.inj hi) hmm
      · exact h.known id' row mam' hr (by rw [← hi', hi])

theorem Records.Filed.held (h : r.Filed) {id : RecordId} {entry : Entry}
    (he : r.entries[id]? = some entry)
    (hr : entry.record.desired = .active ∨ entry.record.desired = .held) {desired : Desired}
    (hd : desired ≠ .removed) :
    (r.setDesired id desired).Filed := by
  refine setDesired_filed h he ?_ hd
  obtain hr | hr := hr <;>
  · rw [hr]
    exact Desired.noConfusion

theorem Records.Change.filed {out : List (List TorrentRecord)} (hc : r.Change Records.Fits out r')
    (h : r.nextId.val < u64Max → r.Filed) (hn : r'.nextId.val < u64Max) : r'.Filed := by
  have h := h (hc.ids_left hn)
  cases hc with
  | saved now =>
    refine h.of_same (fun id => ⟨fun row => row, ?_, fun _ _ => ⟨rfl, rfl, Iff.rfl⟩⟩) ?_ ?_ ?_
    · rw [save_row, Option.map_id']
    all_goals
      unfold Records.save
      split <;> rfl
  | bookmarked new => exact bookmark_filed h new hn
  | found now hash torrent hb =>
    rw [recordSeen_nextId] at hn
    exact recordSeen_filed (adopt_filed h hb torrent hn) now _ torrent
  | seen now id torrent => exact recordSeen_filed h now id torrent
  | snatched id entry he hq =>
    refine setDesired_filed h he ?_ Desired.noConfusion
    rw [hq]
    exact Desired.noConfusion
  | requeued id entry he hs =>
    refine requeued_filed h he ?_ _
    rw [hs]
    exact Desired.noConfusion
  | resumed id entry he hh => exact h.held he (.inr hh) Desired.noConfusion
  | held id hrun =>
    obtain ⟨entry, he, hrun, -⟩ := hrun h.indexed
    exact h.held he hrun Desired.noConfusion
  | linked id mam hash entry hm he hq hf => exact link_filed h hm hf

end

/-! ## The indexes along a run -/

/-- What the indexes promise: they lead to the rows, and the rows lead back to them. -/
structure Records.Consistent (r : Records) : Prop where
  hashes : ∀ hash id, r.byHash[hash]? = some id ↔
    ∃ row, r.row id = some row ∧ row.identity.hash = some hash
  mamIds : ∀ mam, (∃ id, r.byMam[mam]? = some id) ↔
    ∃ id row, r.row id = some row ∧ row.identity.mamId = some mam
  standing : ∀ mam id, r.byMam[mam]? = some id →
    ∃ row, r.row id = some row ∧ row.identity.mamId = some mam ∧
      (row.desired = .removed → ∀ id' row', r.row id' = some row' →
        row'.identity.mamId = some mam → row'.desired = .removed)
  oneLive : ∀ mam id id' row row', r.row id = some row → r.row id' = some row' →
    row.identity.mamId = some mam → row'.identity.mamId = some mam →
    row.desired ≠ .removed → row'.desired ≠ .removed → id = id'
  fresh : ∀ id row, r.row id = some row → row.id = id ∧ id < r.nextId
  rebuilt : (Records.new r.records).byHash = r.byHash ∧ (Records.new r.records).byMam = r.byMam

section
variable {r : Records}

theorem Records.Filed.ordered (h : r.Filed) : OrderedRows r.records := by
  have hmem {p : RecordId × Entry} (hp : p ∈ r.entries.toList) : r.row p.1 = some p.2.record := by
    rw [Records.row, Std.ExtTreeMap.mem_toList_iff_getElem?_eq_some.mp hp]
    rfl
  have hids : r.entries.toList.Pairwise fun p p' => p.2.record.id < p'.2.record.id := by
    refine Std.ExtTreeMap.ordered_keys_toList.imp_of_mem fun hp hp' hlt => ?_
    rw [h.ids _ _ (hmem hp), h.ids _ _ (hmem hp')]
    exact compare_lt_iff_lt.mp hlt
  unfold Records.records
  refine ⟨?_, ?_, ?_⟩
  · rw [List.pairwise_map]
    exact hids
  · unfold DistinctHashes
    rw [List.pairwise_map]
    refine hids.imp_of_mem fun {p p'} hp hp' hlt hash hh hh' => ?_
    have hb := (h.hashes hash p.1).mpr ⟨_, hmem hp, hh⟩
    rw [(h.hashes hash p'.1).mpr ⟨_, hmem hp', hh'⟩] at hb
    rw [h.ids _ _ (hmem hp), h.ids _ _ (hmem hp'), Option.some.inj hb] at hlt
    exact lt_irrefl _ hlt
  · rw [List.pairwise_map]
    refine hids.imp_of_mem fun {p p'} hp hp' hlt hd hd' mam hm hm' => ?_
    rw [h.ids _ _ (hmem hp), h.ids _ _ (hmem hp'), h.one_live (hmem hp) (hmem hp') hm hm' hd hd'] at hlt
    exact lt_irrefl _ hlt

theorem Records.Filed.rebuilt_row (h : r.Filed) (id : RecordId) :
    (Records.new r.records).row id = r.row id := by
  refine Option.ext fun row => ?_
  rw [new_row h.ordered.ids, mem_records_row]
  constructor
  · rintro ⟨⟨id', hr⟩, rfl⟩
    rw [h.ids id' row hr]
    exact hr
  · exact fun hr => ⟨⟨id, hr⟩, h.ids id row hr⟩

theorem Records.Filed.rebuilt_nextId (h : r.Filed) (hn : r.nextId.val < u64Max) :
    (Records.new r.records).nextId.val < u64Max := by
  unfold Records.new
  dsimp only
  split
  · next id hmax =>
    obtain ⟨row, hrow, rfl⟩ := List.mem_map.mp (List.max?_mem hmax)
    obtain ⟨id, hr⟩ := mem_records_row.mp hrow
    have hlt := PNat.coe_lt_coe _ _ |>.mpr (h.fresh id row hr)
    rw [h.ids id row hr]
    change min (id.val + 1) u64Max < u64Max
    change id.val < r.nextId.val at hlt
    omega
  · decide

theorem Records.Filed.consistent (h : r.Filed) (hn : r.nextId.val < u64Max) : r.Consistent where
  hashes := h.hashes
  mamIds mam := by
    constructor
    · rintro ⟨id, hm⟩
      obtain ⟨row, hr, hrm, -⟩ := h.chosen mam id hm
      exact ⟨id, row, hr, hrm⟩
    · rintro ⟨id, row, hr, hrm⟩
      exact h.known id row mam hr hrm
  standing mam id hm := by
    obtain ⟨row, hr, hrm, ho⟩ := h.chosen mam id hm
    refine ⟨row, hr, hrm, fun hd id' row' hr' hm' => ?_⟩
    by_cases hid : id' = id
    · rw [hid, hr] at hr'
      cases hr'
      exact hd
    · exact (ho id' row' hid hr' hm').1
  oneLive mam id id' row row' hr hr' hm hm' hd hd' := h.one_live hr hr' hm hm' hd hd'
  fresh id row hr := ⟨h.ids id row hr, h.fresh id row hr⟩
  rebuilt := h.same_indexes (new_filed h.ordered (h.rebuilt_nextId hn)) h.rebuilt_row

theorem Records.Filed.of_entries {r' : Records} (h : r.Filed) (he : r'.entries = r.entries)
    (hb : r'.byHash = r.byHash)
    (hm : r'.byMam = r.byMam) (hn : r'.nextId = r.nextId) : r'.Filed := by
  refine h.of_same (fun id => ⟨fun row => row, ?_, fun _ _ => ⟨rfl, rfl, Iff.rfl⟩⟩) hb hm hn
  rw [Records.row, he, Option.map_id', Records.row]

theorem filed_invariant : Records.Invariant Records.Fits fun r => r.nextId.val < u64Max → r.Filed where
  answered r event h := by
    unfold Records.answered
    split
    all_goals exact fun hn => (h hn).of_entries rfl rfl rfl rfl
  commanded r last h hn := (h hn).of_entries rfl rfl rfl rfl
  changed _ _ _ h hc hn := hc.filed h hn

end

/-- While ids are left, the indexes are right in every run whose fetched torrents
all fit the rows they are fetched for. -/
theorem indexes_consistent {is : List TimedEvent}
    (hread : ∀ i ∈ is, ∀ rows, i.event = .registry (.read rows) → OrderedRows rows)
    (hf : ∀ e ∈ core.run is, ∀ mam hash r, e.before.delivered e.input.event = some (mam, hash) →
      e.before.registry = .loaded r → r.Fits mam hash)
    {r : Records} (hr : (core.last is).registry = .loaded r) (hn : r.nextId.val < u64Max) :
    r.Consistent :=
  (registry_kept filed_invariant (fun i hi rows hev =>
    new_filed (hread i hi rows hev)) hf r hr hn).consistent hn

theorem one_orderedRows (row : TorrentRecord) : OrderedRows [row] :=
  ⟨List.pairwise_singleton _ _, storedRows_of_short (by simp)⟩

theorem fetched_torrent_indexed :
    ∃ r, (core.last unreachableEvents).registry = .loaded r ∧ r.Consistent := by
  have hrows : (core.last unreachableEvents).registry.records?.any fun r =>
      decide (r.nextId.val < u64Max) := by
    decide +kernel
  obtain ⟨r, hr, hn⟩ := (Option.any_eq_true _ _).mp hrows
  have hreg : (core.last unreachableEvents).registry = .loaded r := by
    generalize (core.last unreachableEvents).registry = g at hr ⊢
    cases g with
    | loaded r => rw [Option.some.inj hr]
    | _ => cases hr
  refine ⟨r, hreg, indexes_consistent ?_ ?_ hreg (of_decide_eq_true hn)⟩
  · intro i hi rows hev
    have hnil : ∀ i ∈ unreachableEvents, i.event.rowsRead = [] := by decide +kernel
    have hrows := hnil i hi
    rw [hev] at hrows
    obtain rfl : rows = [] := hrows
    exact ⟨.nil, storedRows_of_short (by simp)⟩
  · intro e he mam hash r hd hr
    have hfits : ∀ e ∈ core.run unreachableEvents, (e.before.delivered e.input.event).all fun p =>
        e.before.registry.records?.all fun r =>
          r.byHash[p.2]?.isNone && (r.findMam p.1).all fun row => row.identity.hash.isNone := by
            decide +kernel
    have hfit := hfits e he
    rw [hd, hr] at hfit
    simp only [Option.all_some, Registry.records?, Bool.and_eq_true, Option.isNone_iff_eq_none] at hfit
    unfold Records.Fits
    rw [hfit.1]
    intro row hrow
    rw [hrow, Option.all_some] at hfit
    exact Option.isNone_iff_eq_none.mp hfit.2

def sharedEvents : List TimedEvent :=
  -- the torrent of bookmark 5 is the one fetched before for torrent 7
  admittingEvents [someRow] ++
    [replyAt 65 freePage, replyAt 66 (.torrent (some (listing 7 .forEveryone))),
      replyAt 67 (.fetched { hash := someHash, size := 10 })]

/-- Torrent 7 is still known, but no row carries it, and a restart forgets it. -/
theorem torrent_known_without_row :
    (∀ i ∈ sharedEvents, ∀ rows, i.event = .registry (.read rows) → OrderedRows rows) ∧
    ∃ r, (core.last sharedEvents).registry = .loaded r ∧ r.nextId.val < u64Max ∧ r.knows 7 ∧
      (Records.new r.records).knows 7 = false ∧ ¬ r.Consistent := by
  have hrows : (core.last sharedEvents).registry.records?.any fun r =>
      decide (r.nextId.val < u64Max) && (r.knows 7 && !(Records.new r.records).knows 7) := by
        decide +kernel
  obtain ⟨r, hr, hstate⟩ := (Option.any_eq_true _ _).mp hrows
  simp only [Bool.and_eq_true, Bool.not_eq_true', decide_eq_true_eq] at hstate
  obtain ⟨hn, hk, hnew⟩ := hstate
  refine ⟨fun i hi rows hev => ?_, r, ?_, hn, hk, hnew, fun h => ?_⟩
  · have hone : ∀ i ∈ sharedEvents, i.event.rowsRead = [] ∨ i.event.rowsRead = [someRow] := by
      decide +kernel
    have hrows := hone i hi
    rw [hev] at hrows
    obtain h | h : rows = [] ∨ rows = [someRow] := hrows
    · rw [h]
      exact ⟨.nil, storedRows_of_short (by simp)⟩
    · rw [h]
      exact one_orderedRows someRow
  · generalize (core.last sharedEvents).registry = g at hr ⊢
    cases g with
    | loaded r => rw [Option.some.inj hr]
    | _ => cases hr
  · unfold Records.knows at hk hnew
    rw [h.rebuilt.2, hk] at hnew
    cases hnew

end Windlass
