import Windlass.CodecSound
import Windlass.EvidenceSound
import Windlass.GuardSound
import Windlass.IndexSound

/-!
# What is saved stays

The registry beside the table of storage, along a run: storage applies a batch as
it answers that it is saved. A row that waits for nothing is in storage as it is in
memory, no row is lost on either side, and a batch that could not be saved waits
for the next one.
-/

namespace Windlass

open Sqlite

/-! ## Storage beside the core -/

structure Saves where
  table : List Row
  pending : List (List TorrentRecord)

/-- Storage applies a batch as it answers that it is saved, and not when it answers that it
could not. -/
def Saves.answer (s : Saves) (event : Event) : Saves :=
  match event, s.pending with
  | .registry .saved, batch :: rest => ⟨(saveTorrents s.table batch).toOption.getD s.table, rest⟩
  | .registry .saveFailed, _ :: rest => ⟨s.table, rest⟩
  | _, _ => s

def Saves.hand (s : Saves) (sent : List (List TorrentRecord)) : Saves :=
  { s with pending := s.pending ++ sent }

def Saves.next (s : Saves) (e : Reactive.Entry Core TimedEvent Action) : Saves :=
  (s.answer e.input.event).hand (batches e.out)

def saves (table : List Row) (tr : List (Reactive.Entry Core TimedEvent Action)) : Saves :=
  tr.foldl Saves.next ⟨table, []⟩

/-! ## A batch in the table -/

def Records.Names (r : Records) (record : TorrentRecord) : Prop :=
  ∀ hash, record.identity.hash = some hash → r.byHash[hash]? = some record.id

section
variable {r : Records} {table : List Row} {batch : List TorrentRecord}

/-- Where hashes lead to the rows, a row clashes with the ones of its id alone. -/
theorem sameKey_saved {row : Row} {old record : TorrentRecord} (ho : torrentRecord row = .ok old)
    (hn : r.Names old)
    (hid : (record.id : Nat) ≤ i64Max) (hn' : r.Names record) :
    sameKey row record.parameters = (rowId row == (record.id : Nat)) := by
  obtain ⟨hold, hhash⟩ := torrentRecord_keys ho
  have hsaved : record.parameters[0]? = some (.integer (record.id : Nat)) :=
    congrArg (fun n => some (Value.integer n)) (min_eq_left (Int.ofNat_le.mpr hid))
  have hcolumn : record.parameters[2]? =
    some (.ofOption (fun hash => .text hash.asStr) record.identity.hash) := rfl
  rw [rowId_read ho, Bool.eq_iff_iff]
  unfold sameKey
  rw [hold, hsaved, hcolumn, Bool.or_eq_true, Bool.and_eq_true, beq_iff_eq, beq_iff_eq, bne_iff_ne,
    beq_iff_eq,
    Option.some_inj, Value.integer.injEq, or_iff_left_iff_imp]
  rintro ⟨hnone, hsame⟩
  cases hr : record.identity.hash with
  | none =>
    rw [hr] at hnone
    exact absurd rfl hnone
  | some hash =>
    rw [hr] at hsame
    have hboth := hn hash (hhash hash hsame)
    rw [hn' hash hr] at hboth
    rw [Option.some.inj hboth]

theorem saved_table (ht : ∀ row ∈ table, ∃ old, torrentRecord row = .ok old ∧ r.Names old)
    (hb : ∀ b ∈ batch, (b.id : Nat) ≤ i64Max ∧ r.Names b) (hp : batch.Pairwise fun b b' => b.id ≠ b'.id) :
    saveTorrents table batch =
    .ok ((table.filter fun row => !batch.any fun b => rowId row == (b.id : Nat)) ++
      batch.map TorrentRecord.parameters) := by
  have hsaved (b : TorrentRecord) (hmem : b ∈ batch) :
      torrentRecord b.parameters = .ok b.clamped.unforced ∧ r.Names b.clamped.unforced := by
    obtain ⟨hid, hn⟩ := hb b hmem
    exact ⟨torrentRecord_saved hid, fun hash hh => hn hash ((clamped_hash b.identity).symm.trans hh)⟩
  rw [saveTorrents_eq, insertAll_eq, survivors_eq_self]
  · congr 2
    refine List.filter_congr fun row hrow => ?_
    obtain ⟨old, ho, hn⟩ := ht row hrow
    rw [List.any_map]
    congr 1
    rw [Bool.eq_iff_iff, List.any_eq_true, List.any_eq_true]
    refine exists_congr fun b => and_congr_right fun hmem => ?_
    rw [Function.comp_apply, sameKey_saved ho hn (hb b hmem).1 (hb b hmem).2]
  · refine List.pairwise_map.mpr (hp.imp_of_mem fun {b b'} hmem hmem' hne => ?_)
    obtain ⟨hread, hn⟩ := hsaved b hmem
    rw [sameKey_saved hread hn (hb b' hmem').1 (hb b' hmem').2, rowId_read hread]
    refine beq_false_of_ne fun heq => hne (PNat.coe_injective ?_)
    exact Int.ofNat_inj.mp heq

end

/-! ## The rows and the table -/

/-- A batch on its way to storage holds every row it was taken of, and of those that have not
changed since it holds what they are. -/
structure Records.Sent (r : Records) (ids : Std.ExtTreeSet RecordId) (batch : List TorrentRecord) :
    Prop where
  distinct : batch.Pairwise fun b b' => b.id ≠ b'.id
  covered : ∀ id ∈ ids, id ∉ r.unsaved → ∀ row, r.row id = some row → ∃ b ∈ batch, b.id = id
  rows : ∀ b ∈ batch, b.id ∈ ids ∧ r.Names b ∧ ∃ row,
    r.row b.id = some row ∧ (b.id ∉ r.unsaved → b.unseen = row.unseen)

/-- What storage holds of a row: all but what was last seen of it, with the MAM ID as it is saved. -/
def TorrentRecord.StoredAs (row stored : TorrentRecord) : Prop :=
  stored.unseen = row.unseen ∨ stored.unseen = row.unseen.clamped

/-- The rows in memory are those of storage, but for what waits to be saved. -/
structure Saves.Keeps (s : Saves) (r : Records) : Prop where
  numbered : r.Numbered
  indexed : r.Indexed
  unique : (s.table.map rowId).Nodup
  stored : ∀ row ∈ s.table, ∃ record, torrentRecord row = .ok record ∧ r.Names record ∧
    ∃ row', r.row record.id = some row'
  settled : r.saving = none → s.pending = []
  sent : ∀ ids, r.saving = some ids → ∃ batch, s.pending = [batch] ∧ r.Sent ids batch
  synced : ∀ id row, r.row id = some row → id ∉ r.unsaved → (∀ ids, r.saving = some ids → id ∉ ids) →
    ∃ stored ∈ s.table, ∃ record, torrentRecord stored = .ok record ∧ row.StoredAs record

section
variable {s : Saves} {r r' : Records}

theorem Records.Names.grown {record : TorrentRecord} (h : r.Names record) (hg : r.Grown r') :
    r'.Names record :=
  fun hash hh => hg.hashes hash record.id (h hash hh)

theorem indexed_names (hi : r.Indexed) {id : RecordId} {row : TorrentRecord} (hr : r.row id = some row)
    (hid : row.id = id) : r.Names row := by
  intro hash hh
  rw [hid]
  refine hi id hash ?_
  rw [hashIn_row, hr]
  exact hh

theorem Saves.Keeps.grown (h : s.Keeps r) (hg : r.Grown r') (hi : r'.Indexed) : s.Keeps r' where
  numbered := hg.numbered h.numbered
  indexed := hi
  unique := h.unique
  stored row hrow := by
    obtain ⟨record, hread, hn, row', hr⟩ := h.stored row hrow
    exact ⟨record, hread, hn.grown hg, hg.rows record.id row' hr⟩
  settled hs := h.settled (hg.saving.symm.trans hs)
  sent ids hs := by
    obtain ⟨batch, hp, hids, hcovered, hrows⟩ := h.sent ids (hg.saving.symm.trans hs)
    refine ⟨batch, hp, hids, fun id hid hu row' hr' => ?_, fun b hb => ?_⟩
    · obtain ⟨row, hr, -⟩ := hg.same id row' hr' hu
      exact hcovered id hid (fun hu' => hu (hg.unsaved id hu')) row hr
    · obtain ⟨hmem, hn, row, hr, hsame⟩ := hrows b hb
      obtain ⟨row', hr'⟩ := hg.rows b.id row hr
      refine ⟨hmem, hn.grown hg, row', hr', fun hu => ?_⟩
      obtain ⟨row₀, hr₀, heq⟩ := hg.same b.id row' hr' hu
      rw [hr] at hr₀
      cases hr₀
      rw [hsame fun hu' => hu (hg.unsaved b.id hu'), heq]
  synced id row' hr' hu hs := by
    obtain ⟨row, hr, heq⟩ := hg.same id row' hr' hu
    have hs' : ∀ ids, r.saving = some ids → id ∉ ids := fun ids hids => hs ids (hg.saving.trans hids)
    obtain ⟨stored, hmem, record, hread, hstored⟩ :=
      h.synced id row hr (fun hu' => hu (hg.unsaved id hu')) hs'
    refine ⟨stored, hmem, record, hread, ?_⟩
    unfold TorrentRecord.StoredAs
    rw [heq]
    exact hstored

theorem Saves.Keeps.save (h : s.Keeps r) (now : Instant) :
    (s.hand (batches (r.save now).2)).Keeps (r.save now).1 := by
  obtain ⟨hr, hb⟩ | ⟨hs, hb, hs'⟩ := save_cases r now
  · rw [hr, hb]
    unfold Saves.hand
    rw [List.append_nil]
    exact h
  · have hn : (r.save now).1.Numbered := by
      intro id row hr
      rw [save_row] at hr
      rw [save_nextId]
      exact h.numbered id row hr
    have hnames (record : TorrentRecord) (hn : r.Names record) : (r.save now).1.Names record := by
      intro hash hh
      rw [save_byHash now]
      exact hn hash hh
    rw [hb]
    refine ⟨save_numbered h.numbered now, save_indexed h.indexed now, h.unique, fun row hrow => ?_,
      fun hnone => ?_,
      fun ids hids => ?_, fun id row hr _ hids => ?_⟩
    · obtain ⟨record, hread, hn, row', hr⟩ := h.stored row hrow
      exact ⟨record, hread, hnames record hn, row', (save_row r now record.id).trans hr⟩
    · rw [hs'] at hnone
      cases hnone
    · rw [hs'] at hids
      cases hids
      unfold Saves.hand
      rw [h.settled hs, List.nil_append]
      refine ⟨r.batch, rfl, batch_pairwise h.numbered, fun id hid _ row hr => ?_, fun b hb => ?_⟩
      · rw [save_row] at hr
        exact ⟨row, mem_batch.mpr ⟨id, hid, hr⟩, (h.numbered id row hr).1⟩
      · obtain ⟨id, hu, hr⟩ := mem_batch.mp hb
        obtain rfl := (h.numbered id b hr).1
        exact ⟨hu, hnames b (indexed_names h.indexed hr rfl), b, (save_row r now b.id).trans hr,
          fun _ => rfl⟩
    · rw [save_row] at hr
      refine h.synced id row hr (hids r.unsaved hs') fun ids hsome => ?_
      rw [hs] at hsome
      cases hsome

theorem Saves.Keeps.change {P : Records → MamTorrentId → TorrentHash → Prop}
    {out : List (List TorrentRecord)}
    (h : s.Keeps r) (hc : r.Change P out r') : (s.hand out).Keeps r' := by
  obtain ⟨now, rfl, rfl⟩ | ⟨rfl, hg⟩ := hc.grown_or
  · exact h.save now
  · unfold Saves.hand
    rw [List.append_nil]
    exact h.grown hg (hc.indexed h.indexed)

theorem Saves.Keeps.changed {P : Records → MamTorrentId → TorrentHash → Prop}
    {out : List (List TorrentRecord)}
    (h : s.Keeps r) (hc : r.Changed P out r') : (s.hand out).Keeps r' := by
  have hhand (sent out : List (List TorrentRecord)) : s.hand (sent ++ out) = (s.hand sent).hand out := by
    unfold Saves.hand
    rw [List.append_assoc]
  have hnil : (s.hand []).Keeps r := by
    unfold Saves.hand
    rw [List.append_nil]
    exact h
  refine Reactive.Chain.sent (I := fun sent r => (s.hand sent).Keeps r)
    (fun sent r out r' h hc => ?_) hc hnil
  rw [hhand]
  exact h.change hc

theorem mem_kept {table : List Row} {batch : List TorrentRecord} {row : Row} :
    (row ∈ table.filter fun row => !batch.any fun b => rowId row == (b.id : Nat)) ↔
      row ∈ table ∧ ∀ b ∈ batch, rowId row ≠ (b.id : Nat) := by
  simp

theorem storedAs_saved {row b : TorrentRecord} (h : b.unseen = row.unseen) :
    row.StoredAs b.clamped.unforced := by
  unfold TorrentRecord.StoredAs
  rw [← h]
  exact .inr rfl

theorem TorrentRecord.StoredAs.id {row stored : TorrentRecord} (h : row.StoredAs stored) :
    stored.id = row.id := by
  obtain h | h := h
  · have hid : stored.unseen.id = row.unseen.id := by rw [h]
    exact hid
  · have hid : stored.unseen.id = row.unseen.clamped.id := by rw [h]
    exact hid

section
variable {ids : Std.ExtTreeSet RecordId} {batch : List TorrentRecord} (h : s.Keeps r)
  (hsent : r.Sent ids batch)
  (hmax : r.nextId.val ≤ i64Max + 1)
include h hsent hmax

theorem Saves.Keeps.sent_id {b : TorrentRecord} (hb : b ∈ batch) : (b.id : Nat) ≤ i64Max := by
  obtain ⟨-, -, row, hr, -⟩ := hsent.rows b hb
  have hlt : b.id.val < r.nextId.val := (h.numbered b.id row hr).2 (hmax.trans_lt (by decide))
  exact Nat.lt_succ_iff.mp (hlt.trans_le hmax)

theorem Saves.Keeps.sent_read {b : TorrentRecord} (hb : b ∈ batch) :
    torrentRecord b.parameters = .ok b.clamped.unforced ∧ rowId b.parameters = (b.id : Nat) := by
  have hread := torrentRecord_saved (h.sent_id hsent hmax hb)
  exact ⟨hread, (rowId_read hread).trans rfl⟩

theorem Saves.Keeps.sent_table : (saveTorrents s.table batch).toOption.getD s.table =
    (s.table.filter fun row => !batch.any fun b => rowId row == (b.id : Nat)) ++
    batch.map TorrentRecord.parameters := by
  have ht : ∀ row ∈ s.table, ∃ old, torrentRecord row = .ok old ∧ r.Names old := by
    intro row hrow
    obtain ⟨old, hread, hn, -⟩ := h.stored row hrow
    exact ⟨old, hread, hn⟩
  rw [saved_table ht (fun b hb => ⟨h.sent_id hsent hmax hb, (hsent.rows b hb).2.1⟩) hsent.distinct]
  rfl

theorem Saves.Keeps.saved (hs : r.saving = some ids) (last : LastSave) :
    Saves.Keeps ⟨(saveTorrents s.table batch).toOption.getD s.table, []⟩
      { r with saving := none, lastSave := last } := by
  have hread (b : TorrentRecord) (hb : b ∈ batch) := h.sent_read hsent hmax hb
  rw [h.sent_table hsent hmax]
  refine ⟨h.numbered, h.indexed, ?_, fun row hrow => ?_, fun _ => rfl,
    fun _ hnone => (by cases hnone), fun id row hr hu _ => ?_⟩
  · refine List.pairwise_map.mpr (List.pairwise_append.mpr ⟨?_, ?_, fun row hrow row' hrow' => ?_⟩)
    · exact (List.pairwise_map.mp h.unique).filter _
    · refine List.pairwise_map.mpr (hsent.distinct.imp_of_mem fun {b b'} hmem hmem' hne heq => hne ?_)
      rw [(hread b hmem).2, (hread b' hmem').2] at heq
      exact PNat.coe_injective (Int.ofNat_inj.mp heq)
    · obtain ⟨b, hmem, rfl⟩ := List.mem_map.mp hrow'
      rw [(hread b hmem).2]
      exact (mem_kept.mp hrow).2 b hmem
  · obtain hrow | hrow := List.mem_append.mp hrow
    · exact h.stored row (mem_kept.mp hrow).1
    · obtain ⟨b, hmem, rfl⟩ := List.mem_map.mp hrow
      obtain ⟨-, hnames, row, hr, -⟩ := hsent.rows b hmem
      exact ⟨_, (hread b hmem).1,
        fun hash hh => hnames hash ((clamped_hash b.identity).symm.trans hh), row, hr⟩
  · by_cases hid : id ∈ ids
    · obtain ⟨b, hmem, rfl⟩ := hsent.covered id hid hu row hr
      obtain ⟨-, -, row', hr', hsame⟩ := hsent.rows b hmem
      have heq : row' = row := Option.some.inj (hr'.symm.trans hr)
      refine ⟨b.parameters, List.mem_append_right _ (List.mem_map_of_mem hmem), _, (hread b hmem).1, ?_⟩
      exact storedAs_saved (heq ▸ hsame hu)
    · have hold : ∀ ids', r.saving = some ids' → id ∉ ids' := by
        intro ids' hids
        rw [hs] at hids
        cases hids
        exact hid
      obtain ⟨stored, hmem, record, hrecord, hstored⟩ := h.synced id row hr hu hold
      refine ⟨stored, List.mem_append_left _ (mem_kept.mpr ⟨hmem, fun b hb heq => hid ?_⟩), record,
        hrecord, hstored⟩
      rw [rowId_read hrecord, hstored.id, (h.numbered id row hr).1] at heq
      rw [PNat.coe_injective (Int.ofNat_inj.mp heq)]
      exact (hsent.rows b hb).1

/-- Each row of the table stays, or the batch puts its row of that id in its place. -/
theorem Saves.Keeps.saved_rows {row : Row} (hrow : row ∈ s.table) :
    ∃ row' ∈ (saveTorrents s.table batch).toOption.getD s.table, rowId row' = rowId row ∧
      (row' = row ∨ ∃ b ∈ batch, row' = b.parameters) := by
  rw [h.sent_table hsent hmax]
  by_cases hreplaced : ∃ b ∈ batch, rowId row = (b.id : Nat)
  · obtain ⟨b, hb, heq⟩ := hreplaced
    refine ⟨b.parameters, List.mem_append_right _ (List.mem_map_of_mem hb), ?_, .inr ⟨b, hb, rfl⟩⟩
    rw [heq, (h.sent_read hsent hmax hb).2]
  · exact ⟨row, List.mem_append_left _ (mem_kept.mpr ⟨hrow,
      fun b hb heq => hreplaced ⟨b, hb, heq⟩⟩), rfl, .inl rfl⟩

end

theorem Saves.Keeps.failed {ids : Std.ExtTreeSet RecordId} (h : s.Keeps r)
    (hs : r.saving = some ids) (last : LastSave) :
    Saves.Keeps ⟨s.table, []⟩
      { r with unsaved := r.unsaved ∪ ids, saving := none, lastSave := last } := by
  refine ⟨h.numbered, h.indexed, h.unique, h.stored, fun _ => rfl,
    fun _ hnone => (by cases hnone), fun id row hr hu _ => ?_⟩
  have hu' : id ∉ r.unsaved ∧ id ∉ ids := by
    rw [Std.ExtTreeSet.mem_union_iff, not_or] at hu
    exact hu
  refine h.synced id row hr hu'.1 fun ids' hids => ?_
  rw [hs] at hids
  cases hids
  exact hu'.2

theorem answer_other {event : Event} (hs : event ≠ .registry .saved)
    (hf : event ≠ .registry .saveFailed) :
    s.answer event = s ∧ r.answered event = r := by
  unfold Saves.answer Records.answered
  constructor
  · split
    · exact absurd rfl hs
    · exact absurd rfl hf
    · rfl
  · split
    · exact absurd rfl hs
    · exact absurd rfl hf
    · rfl

theorem Saves.Keeps.answer (h : s.Keeps r) (hmax : r.nextId.val ≤ i64Max + 1) (event : Event) :
    (s.answer event).Keeps (r.answered event) := by
  by_cases hsaved : event = .registry .saved
  · subst hsaved
    unfold Saves.answer Records.answered
    cases hs : r.saving with
    | none =>
      rw [h.settled hs]
      exact h
    | some ids =>
      obtain ⟨batch, hp, hsent⟩ := h.sent ids hs
      rw [hp]
      exact h.saved hsent hmax hs _
  · by_cases hfailed : event = .registry .saveFailed
    · subst hfailed
      unfold Saves.answer Records.answered
      cases hs : r.saving with
      | none =>
        rw [h.settled hs]
        exact h
      | some ids =>
        obtain ⟨batch, hp, -⟩ := h.sent ids hs
        rw [hp]
        exact h.failed hs _
    · obtain ⟨hanswer, hanswered⟩ := answer_other (s := s) (r := r) hsaved hfailed
      rw [hanswer, hanswered]
      exact h

/-- An answer of storage leaves each of its rows, or puts the row of the answered batch with
its id in its place. -/
theorem Saves.Keeps.answer_rows (h : s.Keeps r)
    (hmax : r.nextId.val ≤ i64Max + 1) (event : Event) {row : Row} (hrow : row ∈ s.table) :
    ∃ row' ∈ (s.answer event).table, rowId row' = rowId row ∧
      (row' = row ∨ ∃ batch ∈ s.pending, ∃ b ∈ batch, row' = b.parameters) := by
  by_cases hsaved : event = .registry .saved
  · subst hsaved
    unfold Saves.answer
    cases hs : r.saving with
    | none =>
      rw [h.settled hs]
      exact ⟨row, hrow, rfl, .inl rfl⟩
    | some ids =>
      obtain ⟨batch, hp, hsent⟩ := h.sent ids hs
      rw [hp]
      obtain ⟨row', hrow', hid, hkept⟩ := h.saved_rows hsent hmax hrow
      exact ⟨row', hrow', hid, hkept.imp_right fun hb => ⟨batch, List.mem_singleton_self batch, hb⟩⟩
  · refine ⟨row, ?_, rfl, .inl rfl⟩
    unfold Saves.answer
    split
    · exact absurd rfl hsaved
    · exact hrow
    · exact hrow

end

theorem read_keeps {table : List Row} {rows : List TorrentRecord} (hids : (table.map rowId).Nodup)
    (h : readRegistry table = .ok rows) (hd : DistinctHashes rows) :
    Saves.Keeps ⟨table, []⟩ (Records.new rows) := by
  obtain ⟨hsorted, hread, hback⟩ := readRegistry_rows hids h
  have hn : (Records.new rows).Numbered := by
    intro id row hr
    obtain ⟨hmem, rfl⟩ := mem_of_new hr
    exact ⟨rfl, fun hlt => new_fresh hlt hmem⟩
  refine ⟨hn, new_indexed hd, hids, fun row hrow => ?_, fun _ => rfl,
    fun _ hnone => (by cases hnone), fun id row hr _ _ => ?_⟩
  · obtain ⟨record, hmem, hrecord⟩ := hread row hrow
    have hr := (new_row hsorted).mpr ⟨hmem, rfl⟩
    exact ⟨record, hrecord, indexed_names (new_indexed hd) hr rfl, record, hr⟩
  · obtain ⟨hmem, rfl⟩ := mem_of_new hr
    obtain ⟨stored, hstored, hrecord⟩ := hback row hmem
    exact ⟨stored, hstored, row, hrecord, .inl rfl⟩

/-! ## Storage along a run -/

section
variable {table : List Row}

theorem answer_nothing (event : Event) : Saves.answer ⟨table, []⟩ event = ⟨table, []⟩ := by
  unfold Saves.answer
  split
  · next hp => cases hp
  · next hp => cases hp
  · rfl

theorem saves_snoc (tr : List (Reactive.Entry Core TimedEvent Action))
    (e : Reactive.Entry Core TimedEvent Action) :
    saves table (tr ++ [e]) = (saves table tr).next e := by
  unfold saves
  rw [List.foldl_append]
  rfl

/-- The registry is read from the table, where no two rows have one id or one hash. -/
structure ReadFrom (table : List Row) (tr : List (Reactive.Entry Core TimedEvent Action)) : Prop where
  ids : (table.map rowId).Nodup
  rows : ∀ e ∈ tr, e.before.registry = .reading → ∀ rows, e.input.event = .registry (.read rows) →
    readRegistry table = .ok rows ∧ DistinctHashes rows

theorem ReadFrom.left {tr tr' : List (Reactive.Entry Core TimedEvent Action)}
    (h : ReadFrom table (tr ++ tr')) :
    ReadFrom table tr :=
  ⟨h.ids, fun e he => h.rows e (List.mem_append_left _ he)⟩

end

theorem Saves.Keeps.commanded {s : Saves} {r : Records} (h : s.Keeps r)
    (last : Option (TorrentCommand × Instant)) :
    s.Keeps { r with lastCommand := last } :=
  ⟨h.numbered, h.indexed, h.unique, h.stored, h.settled, fun ids hs => by
    obtain ⟨batch, hp, hd, hc, hrows⟩ := h.sent ids hs
    exact ⟨batch, hp, hd, hc, hrows⟩, h.synced⟩

structure StoredBy (table : List Row) (s : Saves) (c : Core) : Prop where
  untouched : c.registry.records? = none → s = ⟨table, []⟩
  kept : ∀ r, c.registry = .loaded r → r.nextId.val ≤ i64Max + 1 → s.Keeps r

theorem records?_loaded {g : Registry} (h : g.records? ≠ none) : ∃ r, g = .loaded r := by
  cases g with
  | loaded r => exact ⟨r, rfl⟩
  | _ => exact absurd rfl h

theorem within_last {n : RecordId} (h : n.val ≤ i64Max + 1) : n.val < u64Max := h.trans_lt (by decide)

theorem within_before {n n' : RecordId} (h : n'.val < u64Max → n ≤ n') (hmax : n'.val ≤ i64Max + 1) :
    n.val ≤ i64Max + 1 :=
  (PNat.coe_le_coe _ _ |>.mpr (h (within_last hmax))).trans hmax

section
variable {table : List Row} {s : Saves} {c : Core} {i : TimedEvent}

/-- Before the registry is read nothing is handed to storage, and it is read as storage holds it. -/
theorem stored_loading (hloaded : c.registry.records? = none) (hids : (table.map rowId).Nodup)
    (hread : c.registry = .reading → ∀ rows, i.event = .registry (.read rows) →
      readRegistry table = .ok rows ∧ DistinctHashes rows) :
    StoredBy table (Saves.hand ⟨table, []⟩ (batches (c.handle i.occurredAt i.event).2))
      (c.handle i.occurredAt i.event).1 := by
  by_cases hreceived : (c.received i.occurredAt i.event).registry.records? = none
  · rw [received_unloaded c i.occurredAt i.event hreceived]
    refine ⟨fun _ => rfl, fun r hr => ?_⟩
    obtain hk | ⟨r₀, last, h₀, -⟩ := handle_commanded c i.occurredAt i.event
    · rw [← hk, hr] at hreceived
      cases hreceived
    · rw [h₀] at hreceived
      cases hreceived
  · obtain ⟨r', hr'⟩ := records?_loaded hreceived
    obtain ⟨r, hl, hc⟩ :=
      received_from (P := fun _ _ _ => True) c i.occurredAt i.event hr' fun _ _ _ _ _ => trivial
    have hkeeps : Saves.Keeps ⟨table, []⟩ (r.answered i.event) := by
      unfold Registry.loadedBy at hl
      split at hl
      · next rows hevent hreading =>
        cases hl
        obtain ⟨hrows, hd⟩ := hread hreading rows hevent
        rw [hevent]
        exact read_keeps hids hrows hd
      · rw [hl] at hloaded
        cases hloaded
    obtain ⟨last, hk⟩ := handle_loaded c i.occurredAt i.event hr'
    refine ⟨fun hn => ?_, fun r'' hr'' _ => ?_⟩
    · rw [hk] at hn
      cases hn
    · rw [hk] at hr''
      cases hr''
      exact (hkeeps.changed hc).commanded last

theorem StoredBy.step (h : StoredBy table s c) (hlate : c.registry ≠ .unread → c.state.isEarly = false)
    (hids : (table.map rowId).Nodup)
    (hread : c.registry = .reading → ∀ rows, i.event = .registry (.read rows) →
      readRegistry table = .ok rows ∧ DistinctHashes rows) :
    StoredBy table (s.next (core.entry c i)) (core.entry c i).after := by
  have hafter : (core.entry c i).after = (c.handle i.occurredAt i.event).1 :=
    congrArg Prod.fst (core_step c i)
  have hnext : s.next (core.entry c i) =
      (s.answer i.event).hand (batches (c.handle i.occurredAt i.event).2) := rfl
  rw [hafter, hnext]
  by_cases hloaded : c.registry.records? = none
  · rw [h.untouched hloaded, answer_nothing]
    exact stored_loading hloaded hids hread
  · obtain ⟨r, hr⟩ := records?_loaded hloaded
    have hunread : c.registry ≠ .unread := by
      rw [hr]
      exact Registry.noConfusion
    obtain ⟨r', last, hr', hc⟩ := handle_rows i.occurredAt i.event (hlate hunread) hr
    refine ⟨fun hn => ?_, fun r'' hr'' hmax => ?_⟩
    · rw [hr'] at hn
      cases hn
    · rw [hr'] at hr''
      cases hr''
      have hids := hc.onward.2
      rw [answered_nextId] at hids
      have hr₀ := within_before hids hmax
      exact (((h.kept r hr hr₀).answer hr₀ i.event).changed hc).commanded last

/-- In a step no stored row is lost: it stays, or the answered batch holds what replaces it. -/
theorem StoredBy.rows (h : StoredBy table s c)
    (hmax : ∀ r, c.registry = .loaded r → r.nextId.val ≤ i64Max + 1) (event : Event) {row : Row}
    (hrow : row ∈ s.table) :
    ∃ row' ∈ (s.answer event).table, rowId row' = rowId row ∧
      (row' = row ∨ ∃ batch ∈ s.pending, ∃ b ∈ batch, row' = b.parameters) := by
  by_cases hloaded : c.registry.records? = none
  · obtain rfl := h.untouched hloaded
    rw [answer_nothing]
    exact ⟨row, hrow, rfl, .inl rfl⟩
  · obtain ⟨r, hr⟩ := records?_loaded hloaded
    exact (h.kept r hr (hmax r hr)).answer_rows (hmax r hr) event hrow

end

theorem stored_run {table : List Row} {is : List TimedEvent} (hread : ReadFrom table (core.run is)) :
    StoredBy table (saves table (core.run is)) (core.last is) := by
  induction is using List.reverseRecOn with
  | nil => exact ⟨fun _ => rfl, fun r hr => by cases hr⟩
  | append_singleton is i ih =>
    rw [Reactive.run_snoc] at hread ⊢
    rw [Reactive.last_snoc, saves_snoc]
    refine (ih hread.left).step (registry_late is) hread.ids ?_
    exact hread.rows _ (List.mem_append_right _ (List.mem_singleton_self _))

theorem rows_stay {js : List TimedEvent} {r₀ : Records} (h₀ : (core.last js).registry = .loaded r₀)
    (ks : List TimedEvent) :
    ∃ r, (core.last (js ++ ks)).registry = .loaded r ∧
    (∀ id row, r₀.row id = some row → ∃ row', r.row id = some row') ∧
      (r.nextId.val < u64Max → r₀.nextId ≤ r.nextId) := by
  -- on the steps taken; none drops a row or takes an id back
  induction ks using List.reverseRecOn with
  | nil =>
    rw [List.append_nil]
    exact ⟨r₀, h₀, fun _ row hr => ⟨row, hr⟩, fun _ => le_rfl⟩
  | append_singleton ks i ih =>
    obtain ⟨r, hr, hrows, hids⟩ := ih
    obtain ⟨r', last, hr', hc⟩ := handle_rows i.occurredAt i.event (loaded_late hr) hr
    obtain ⟨hrows', hids'⟩ := hc.onward
    rw [answered_nextId] at hids'
    rw [← List.append_assoc, Reactive.last_snoc]
    refine ⟨_, hr', fun id row hrow => ?_, fun hlt => ?_⟩
    · obtain ⟨row', hrow'⟩ := hrows id row hrow
      exact hrows' id row' ((answered_row r i.event id).trans hrow')
    · exact (hids (nextId_before hids' hlt)).trans (hids' hlt)

section
variable {table : List Row} {is : List TimedEvent} {r : Records}

theorem cut_stored {js ks : List TimedEvent} (hread : ReadFrom table (core.run (js ++ ks)))
    (hr : (core.last (js ++ ks)).registry = .loaded r)
    (hmax : r.nextId.val ≤ i64Max + 1) :
    StoredBy table (saves table (core.run js)) (core.last js) ∧
      ∀ r₀, (core.last js).registry = .loaded r₀ → r₀.nextId.val ≤ i64Max + 1 := by
  have hcut : core.run (js ++ ks) = core.run js ++ core.trace (core.last js) ks :=
    Reactive.trace_append core core.init js ks
  rw [hcut] at hread
  refine ⟨stored_run hread.left, fun r₀ h₀ => ?_⟩
  obtain ⟨r', hr', -, hids⟩ := rows_stay h₀ ks
  rw [hr] at hr'
  cases hr'
  exact within_before hids hmax

theorem step_rows {js : List TimedEvent} {i : TimedEvent} {ks : List TimedEvent}
    (hread : ReadFrom table (core.run (js ++ i :: ks)))
    (hr : (core.last (js ++ i :: ks)).registry = .loaded r) (hmax : r.nextId.val ≤ i64Max + 1) {row : Row}
    (hrow : row ∈ (saves table (core.run js)).table) :
    ∃ row' ∈ (saves table (core.run (js ++ [i]))).table, rowId row' = rowId row ∧
      (row' = row ∨ ∃ batch ∈ (saves table (core.run js)).pending, ∃ b ∈ batch, row' = b.parameters) := by
  obtain ⟨hstored, hids⟩ := cut_stored hread hr hmax
  rw [Reactive.run_snoc, saves_snoc]
  exact hstored.rows hids i.event hrow

theorem table_stays {js ks : List TimedEvent} (hread : ReadFrom table (core.run (js ++ ks)))
    (hr : (core.last (js ++ ks)).registry = .loaded r)
    (hmax : r.nextId.val ≤ i64Max + 1) {row : Row} (hrow : row ∈ (saves table (core.run js)).table) :
    ∃ row' ∈ (saves table (core.run (js ++ ks))).table, rowId row' = rowId row := by
  induction ks generalizing js row with
  | nil =>
    rw [List.append_nil]
    exact ⟨row, hrow, rfl⟩
  | cons i ks ih =>
    obtain ⟨row', hrow', hid, -⟩ := step_rows hread hr hmax hrow
    rw [List.append_cons] at hread hr ⊢
    obtain ⟨row'', hrow'', hid'⟩ := ih hread hr hrow'
    exact ⟨row'', hrow'', hid'.trans hid⟩

end

/-! ## Batches that could not be saved -/

/-- The batches that the steps of a trace hand to storage. -/
def handed (tr : List (Reactive.Entry Core TimedEvent Action)) : List (List TorrentRecord) :=
  tr.flatMap fun e => batches e.out

structure Owed (id : RecordId) (sent : List (List TorrentRecord)) (r : Records) : Prop where
  numbered : r.Numbered
  waits : sent = [] → id ∈ r.unsaved ∧ ∃ row, r.row id = some row
  first : ∀ batch, sent.head? = some batch → ∃ b ∈ batch, b.id = id

section
variable {id : RecordId} {sent : List (List TorrentRecord)} {r r' : Records}

theorem Owed.keep (h : Owed id sent r) (hn : r'.Numbered) (hu : id ∈ r.unsaved → id ∈ r'.unsaved)
    (hrow : ∀ row, r.row id = some row → ∃ row', r'.row id = some row') : Owed id sent r' :=
  ⟨hn, fun hs => by
    obtain ⟨hid, row, hr⟩ := h.waits hs
    exact ⟨hu hid, hrow row hr⟩, h.first⟩

theorem Owed.change {P : Records → MamTorrentId → TorrentHash → Prop} {out : List (List TorrentRecord)}
    (h : Owed id sent r) (hc : r.Change P out r') : Owed id (sent ++ out) r' := by
  obtain ⟨now, rfl, rfl⟩ | ⟨rfl, hg⟩ := hc.grown_or
  · obtain ⟨hr, hb⟩ | ⟨-, hb, -⟩ := save_cases r now
    · rw [hr, hb, List.append_nil]
      exact h
    · rw [hb]
      refine ⟨save_numbered h.numbered now, fun hnil => ?_, fun batch hbatch => ?_⟩
      · simp at hnil
      · cases hs : sent with
        | nil =>
          obtain ⟨hid, row, hr⟩ := h.waits hs
          rw [hs] at hbatch
          cases hbatch
          exact ⟨row, mem_batch.mpr ⟨id, hid, hr⟩, (h.numbered id row hr).1⟩
        | cons first rest =>
          rw [hs] at hbatch
          exact h.first batch (by rw [hs]; exact hbatch)
  · rw [List.append_nil]
    exact h.keep (hg.numbered h.numbered) (hg.unsaved id) (hg.rows id)

theorem Owed.changed {P : Records → MamTorrentId → TorrentHash → Prop} {out : List (List TorrentRecord)}
    (h : Owed id sent r) (hc : r.Changed P out r') : Owed id (sent ++ out) r' :=
  Reactive.Chain.sent (I := Owed id) (fun _ _ _ _ h hc => h.change hc) hc h

theorem Owed.answered (h : Owed id sent r) (event : Event) : Owed id sent (r.answered event) := by
  refine h.keep (fun id row hr => ?_) (fun hu => ?_) fun row hr => ⟨row,
    (answered_row r event id).trans hr⟩
  · rw [answered_row] at hr
    rw [answered_nextId]
    exact h.numbered id row hr
  · unfold Records.answered
    split
    · exact hu
    · exact Std.ExtTreeSet.mem_union_of_left hu
    · exact hu

end

section
variable {c : Core} (now : ClockReading)

/-- Told that a batch could not be saved, the core hands over nothing in that step. -/
theorem failed_batches (hq : c.qbittorrent.deciding = none) :
    batches (c.handle now (.registry .saveFailed)).2 = [] := by
  rw [handle_batches]
  have hhandle (g : Registry) : batches (g.handle now.monotonic .saveFailed).2 = [] := by
    cases g with
    | loaded r =>
      unfold Registry.handle
      dsimp only
      split <;> rfl
    | _ => rfl
  have hdispatch : batches ((c.note (.registry .saveFailed)).dispatch now
      (.registry .saveFailed)).2 = [] :=
    hhandle c.registry
  have hdeciding : (((c.note (.registry .saveFailed)).dispatch now (.registry .saveFailed)).1.expireLease
      now).qbittorrent.deciding = none := hq
  rw [hdispatch, List.nil_append]
  unfold Core.observe
  rw [hdeciding]
  rfl

theorem owed_step {id : RecordId} {sent : List (List TorrentRecord)} {r : Records} {event : Event}
    (hlate : c.state.isEarly = false) (hr : c.registry = .loaded r)
    (h : Owed id sent (r.answered event)) :
    ∃ r', (c.handle now event).1.registry = .loaded r' ∧
    Owed id (sent ++ batches (c.handle now event).2) r' := by
  obtain ⟨r', last, hr', hc⟩ := handle_rows now event hlate hr
  exact ⟨_, hr', (h.changed hc).keep (h.changed hc).numbered (fun hu => hu) fun row hrow => ⟨row, hrow⟩⟩

end

theorem owed_run {js : List TimedEvent} {id : RecordId} {r₀ : Records}
    (h₀ : (core.last js).registry = .loaded r₀)
    (h : Owed id [] r₀) (ks : List TimedEvent) :
    ∃ r, (core.last (js ++ ks)).registry = .loaded r ∧
    Owed id (handed (core.trace (core.last js) ks)) r := by
  -- on the steps taken, kept up by `owed_step`
  induction ks using List.reverseRecOn with
  | nil =>
    rw [List.append_nil]
    exact ⟨r₀, h₀, h⟩
  | append_singleton ks i ih =>
    obtain ⟨r, hr, hr'⟩ := ih
    obtain ⟨r', hlast, howed⟩ := owed_step i.occurredAt (loaded_late hr) hr (hr'.answered i.event)
    rw [← List.append_assoc, Reactive.last_snoc]
    refine ⟨r', hlast, ?_⟩
    have hlast' : core.last (js ++ ks) = core.final (core.last js) ks :=
      Reactive.final_append core core.init js ks
    have htrace : core.trace (core.last js) (ks ++ [i]) =
        core.trace (core.last js) ks ++ [core.entry (core.last (js ++ ks)) i] := by
      rw [Reactive.trace_append, hlast']
      rfl
    rw [htrace]
    unfold handed at howed ⊢
    rw [List.flatMap_append, List.flatMap_singleton]
    exact howed

/-- Every row of a batch that could not be saved waits again, and is in the next batch. -/
theorem failed_owed {table : List Row} {js : List TimedEvent} {i : TimedEvent} {r₀ : Records}
    (hi : i.event = .registry .saveFailed) (h₀ : (core.last js).registry = .loaded r₀)
    (h : (saves table (core.run js)).Keeps r₀) {batch : List TorrentRecord}
    (hbatch : batch ∈ (saves table (core.run js)).pending) {b : TorrentRecord} (hb : b ∈ batch) :
    ∃ r, (core.last (js ++ [i])).registry = .loaded r ∧ Owed b.id [] r := by
  cases hs : r₀.saving with
  | none =>
    rw [h.settled hs] at hbatch
    cases hbatch
  | some ids =>
    obtain ⟨sent, hp, hsent⟩ := h.sent ids hs
    rw [hp, List.mem_singleton] at hbatch
    subst hbatch
    obtain ⟨hid, -, row, hr, -⟩ := hsent.rows b hb
    have howed : Owed b.id [] (r₀.answered i.event) := by
      rw [hi]
      unfold Records.answered
      rw [hs]
      exact ⟨h.numbered, fun _ => ⟨Std.ExtTreeSet.mem_union_of_right hid, row, hr⟩,
        fun _ hnil => (by cases hnil)⟩
    rw [Reactive.last_snoc]
    obtain ⟨r, hlast, hafter⟩ := owed_step i.occurredAt (loaded_late h₀) h₀ howed
    rw [hi, failed_batches _ (settled_last js), List.append_nil] at hafter
    exact ⟨r, hlast, hafter⟩

section
variable {table : List Row} {is : List TimedEvent} {r : Records}

theorem Saves.Keeps.pending_length {s : Saves} (h : s.Keeps r) : s.pending.length ≤ 1 := by
  cases hs : r.saving with
  | none =>
    rw [h.settled hs]
    exact Nat.zero_le 1
  | some ids =>
    obtain ⟨batch, hp, -⟩ := h.sent ids hs
    rw [hp]
    exact le_rfl

/-- A row that waits for no save and no answer is in storage as it is in memory. -/
theorem Saves.Keeps.in_storage {s : Saves} (h : s.Keeps r) {id : RecordId} {row : TorrentRecord}
    (hr : r.row id = some row) (hu : id ∉ r.unsaved) (hp : ∀ batch ∈ s.pending, ∀ b ∈ batch, b.id ≠ id) :
    ∃ stored ∈ s.table, ∃ record, torrentRecord stored = .ok record ∧ row.StoredAs record := by
  refine h.synced id row hr hu fun ids hs hid => ?_
  obtain ⟨batch, hpending, hsent⟩ := h.sent ids hs
  obtain ⟨b, hb, heq⟩ := hsent.covered id hid hu row hr
  rw [hpending] at hp
  exact hp batch (List.mem_singleton_self batch) b hb heq

/-- While storage can hold every id given out: at most one batch is outstanding; rows that wait
for none are in storage as in memory; neither side loses a row, and a batch replaces only the rows
with its ids; and what could not be saved waits again for the next batch. -/
theorem registry_durable (hread : ReadFrom table (core.run is))
    (hr : (core.last is).registry = .loaded r) (hmax : r.nextId.val ≤ i64Max + 1) :
    (saves table (core.run is)).pending.length ≤ 1 ∧
      (∀ id row, r.row id = some row → id ∉ r.unsaved →
        (∀ batch ∈ (saves table (core.run is)).pending, ∀ b ∈ batch, b.id ≠ id) →
        ∃ stored ∈ (saves table (core.run is)).table, ∃ record,
          torrentRecord stored = .ok record ∧ row.StoredAs record) ∧
      ((saves table (core.run is)).table.map rowId).Nodup ∧
      (∀ id row, r.row id = some row → row.id = id ∧ id < r.nextId) ∧
      (∀ js ks, is = js ++ ks →
        (∀ r₀, (core.last js).registry = .loaded r₀ → ∀ id row, r₀.row id = some row →
          ∃ row', r.row id = some row') ∧
        ∀ row ∈ (saves table (core.run js)).table,
          ∃ row' ∈ (saves table (core.run is)).table, rowId row' = rowId row) ∧
      ∀ js i ks, is = js ++ i :: ks →
        (∀ row ∈ (saves table (core.run js)).table,
          ∃ row' ∈ (saves table (core.run (js ++ [i]))).table, rowId row' = rowId row ∧
            (row' = row ∨
              ∃ batch ∈ (saves table (core.run js)).pending, ∃ b ∈ batch, row' = b.parameters)) ∧
        (i.event = .registry .saveFailed → ∀ batch ∈ (saves table (core.run js)).pending, ∀ b ∈ batch,
          (∃ r', (core.last (js ++ [i])).registry = .loaded r' ∧ b.id ∈ r'.unsaved) ∧
          ∀ next, (handed (core.trace (core.last (js ++ [i])) ks)).head? = some next →
          ∃ b' ∈ next, b'.id = b.id) := by
  have hkeeps := (stored_run hread).kept r hr hmax
  refine ⟨hkeeps.pending_length, fun id row hrow hu hp => hkeeps.in_storage hrow hu hp, hkeeps.unique,
    fun id row hrow => ?_, ?_, ?_⟩
  · obtain ⟨hid, hlt⟩ := hkeeps.numbered id row hrow
    exact ⟨hid, hlt (within_last hmax)⟩
  · rintro js ks rfl
    refine ⟨fun r₀ h₀ id row hrow => ?_, fun row hrow => table_stays hread hr hmax hrow⟩
    obtain ⟨r', hr', hrows, -⟩ := rows_stay h₀ ks
    rw [hr] at hr'
    cases hr'
    exact hrows id row hrow
  · rintro js i ks rfl
    refine ⟨fun row hrow => step_rows hread hr hmax hrow, fun hi batch hbatch b hb => ?_⟩
    obtain ⟨hstored, hids⟩ := cut_stored hread hr hmax
    obtain ⟨r₀, h₀⟩ := records?_loaded fun hn => by
      rw [hstored.untouched hn] at hbatch
      cases hbatch
    obtain ⟨r', hr', howed⟩ := failed_owed hi h₀ (hstored.kept r₀ h₀ (hids r₀ h₀)) hbatch hb
    obtain ⟨_, -, hlast⟩ := owed_run hr' howed ks
    exact ⟨⟨r', hr', (howed.waits rfl).1⟩, fun next hnext => hlast.first next hnext⟩

end

/-! ## Bookmarks saved -/

def Event.isRead : Event → Bool
  | .registry (.read _) => true
  | _ => false

theorem readFrom_single {row : TorrentRecord} (h : row.Storable) (ho : row.observation = none)
    {is : List TimedEvent}
    (hevents : ∀ i ∈ is, i.event.isRead → i.event.rowsRead = [row]) :
    ReadFrom [row.parameters] (core.run is) := by
  have hrow : row.unforced = row := by
    unfold TorrentRecord.unforced
    rw [ho, Option.map_none, ← ho]
  refine ⟨List.nodup_singleton _, fun e he _ rows hevent => ?_⟩
  have hrows := (Reactive.forall_mem_run core).mpr hevents e he (by rw [hevent]; rfl)
  rw [hevent] at hrows
  obtain rfl : rows = [row] := hrows
  refine ⟨?_, List.pairwise_singleton _ _⟩
  unfold readRegistry orderBy
  rw [List.mergeSort_singleton, List.mapM_cons, torrentRecord_parameters h, hrow]
  rfl

theorem readFrom_empty {is : List TimedEvent}
    (hevents : ∀ i ∈ is, i.event.isRead → i.event.rowsRead = []) :
    ReadFrom [] (core.run is) := by
  refine ⟨List.nodup_nil, fun e he _ rows hevent => ?_⟩
  have hrows := (Reactive.forall_mem_run core).mpr hevents e he (by rw [hevent]; rfl)
  rw [hevent] at hrows
  obtain rfl : rows = [] := hrows
  refine ⟨?_, .nil⟩
  unfold readRegistry orderBy
  rw [List.mergeSort_nil]
  rfl

theorem unseen_storable {row : TorrentRecord} (hid : (row.id : Nat) ≤ i64Max)
    (hm : ∀ mam, row.identity.mamId = some mam → (mam : Nat) ≤ i64Max)
    (ho : row.observation = none) : row.Storable where
  id := hid
  mam := hm
  torrent observation h := by
    rw [ho] at h
    cases h
  lastSeen observation h := by
    rw [ho] at h
    cases h

def bookmarkedEvents (rows : List TorrentRecord) (mam : MamTorrentId) : List TimedEvent :=
  -- Windlass starts with these rows, reads that this torrent is bookmarked, and saves it
  admittingEvents rows ++
    [replyAt 65 (.bookmarks { found := 1, bookmarks := [{ listing 1 .no with id := mam }] }),
      .after 66 (.registry .saved)]

theorem bookmark_saved : ∃ r row, (core.last (bookmarkedEvents [someRow] 5)).registry = .loaded r ∧
    r.row 2 = some row ∧ row.identity = .mam 5 ∧
    ∃ stored ∈ (saves [someRow.parameters] (core.run (bookmarkedEvents [someRow] 5))).table, ∃ record,
      torrentRecord stored = .ok record ∧ row.StoredAs record := by
  have hrows : (core.last (bookmarkedEvents [someRow] 5)).registry.records?.any fun r =>
      decide (r.nextId.val ≤ i64Max + 1) && (!r.unsaved.contains 2 &&
        (r.row 2).any fun row => row.identity == .mam 5) := by decide +kernel
  obtain ⟨r, hr, hstate⟩ := (Option.any_eq_true _ _).mp hrows
  simp only [Bool.and_eq_true, Bool.not_eq_true', decide_eq_true_eq] at hstate
  obtain ⟨hmax, hu, hrow⟩ := hstate
  obtain ⟨row, hrow, hid⟩ := (Option.any_eq_true _ _).mp hrow
  have hreg : (core.last (bookmarkedEvents [someRow] 5)).registry = .loaded r := by
    generalize (core.last (bookmarkedEvents [someRow] 5)).registry = g at hr ⊢
    cases g with
    | loaded r => rw [Option.some.inj hr]
    | _ => cases hr
  have hread : ReadFrom [someRow.parameters] (core.run (bookmarkedEvents [someRow] 5)) :=
    readFrom_single (unseen_storable (by decide) (fun mam hm => by cases hm; decide) rfl) rfl
      (by decide +kernel)
  have hpending : (saves [someRow.parameters] (core.run (bookmarkedEvents [someRow] 5))).pending =
    [] := by decide +kernel
  refine ⟨r, row, hreg, hrow, beq_iff_eq.mp hid, (registry_durable hread hreg hmax).2.1 2 row hrow ?_ ?_⟩
  · rw [← Std.ExtTreeSet.contains_iff_mem, hu]
    exact Bool.false_ne_true
  · rw [hpending]
    exact List.forall_mem_nil _

def LosesRow (table : List Row) (is : List TimedEvent) (id : RecordId) : Prop :=
  ReadFrom table (core.run is) ∧ ∃ r row, (core.last is).registry = .loaded r ∧ r.row id = some row ∧
    id ∉ r.unsaved ∧ (saves table (core.run is)).pending = [] ∧
    ∀ stored ∈ (saves table (core.run is)).table, ∀ record, torrentRecord stored = .ok record →
      record.identity ≠ row.identity

theorem losesRow_of {table : List Row} {is : List TimedEvent} {id : RecordId} (identity : Identity)
    (hread : ReadFrom table (core.run is))
    (hrow : (core.last is).registry.records?.any fun r =>
      !r.unsaved.contains id && (r.row id).any fun row => row.identity == identity)
    (hpending : (saves table (core.run is)).pending = [])
    (htable : (saves table (core.run is)).table.all fun stored =>
      (torrentRecord stored).toOption.all fun record =>
      record.identity != identity) : LosesRow table is id := by
  obtain ⟨r, hr, hstate⟩ := (Option.any_eq_true _ _).mp hrow
  rw [Bool.and_eq_true, Bool.not_eq_true'] at hstate
  obtain ⟨row, hrow, hid⟩ := (Option.any_eq_true _ _).mp hstate.2
  refine ⟨hread, r, row, ?_, hrow, ?_, hpending, fun stored hmem record hrecord => ?_⟩
  · generalize (core.last is).registry = g at hr ⊢
    cases g with
    | loaded r => rw [Option.some.inj hr]
    | _ => cases hr
  · rw [← Std.ExtTreeSet.contains_iff_mem, hstate.1]
    exact Bool.false_ne_true
  · have hne := List.all_eq_true.mp htable stored hmem
    rw [hrecord] at hne
    rw [beq_iff_eq.mp hid]
    exact bne_iff_ne.mp hne

def lastRow : TorrentRecord := { someRow with id := MamTorrentId.largest }

/-- Past the largest integer of storage a MAM ID is saved as another, and a row
replaces the last one. -/
theorem clamped_rows_lost : LosesRow [] (bookmarkedEvents [] (MamTorrentId.largest + 1)) 1 ∧
    LosesRow [lastRow.parameters] (bookmarkedEvents [lastRow] 5) MamTorrentId.largest := by
  constructor
  · exact losesRow_of (.mam (MamTorrentId.largest + 1)) (readFrom_empty (by decide +kernel))
      (by decide +kernel) (by decide +kernel) (by decide +kernel)
  · have hread : ReadFrom [lastRow.parameters] (core.run (bookmarkedEvents [lastRow] 5)) :=
      readFrom_single (unseen_storable (by decide) (fun mam hm => by cases hm; decide) rfl) rfl
        (by decide +kernel)
    exact losesRow_of (.linked 7 someHash) hread (by decide +kernel) (by decide +kernel)
      (by decide +kernel)

end Windlass
