import Windlass.Codec

/-!
# The registry reads back

What storage can hold of a row is read back as it was saved, and of a number past
that the largest it holds. A table filled by batches of rows is read back as the
last version of each row, ordered by id.
-/

namespace Windlass

open Sqlite

/-! ## Columns -/

theorem u64TryFrom_integer {n : Nat} (h : n ≤ i64Max) : u64TryFrom (integer n) = some n := by
  unfold u64TryFrom integer
  rw [min_eq_left (Int.ofNat_le.mpr h), if_pos (Int.natCast_nonneg n), Int.toNat_natCast]

theorem hexValue_digitChar : ∀ d : Fin 16, hexValue (Nat.digitChar d.val) = some d := by decide

theorem parse_asStr (hash : TorrentHash) : TorrentHash.parse hash.asStr = some hash := by
  have hdigits (digits : List (Fin 16)) :
      (digits.map fun d => Nat.digitChar d.val).mapM hexValue = some digits := by
    induction digits with
    | nil => rfl
    | cons d digits ih => rw [List.map_cons, List.mapM_cons, hexValue_digitChar, ih]; rfl
  unfold TorrentHash.parse TorrentHash.asStr
  rw [String.toList_ofList, hdigits, Option.bind_some, dif_pos hash.valid]

theorem torrentState_stateName (state : TorrentState) : torrentState (stateName state) = state := by
  cases state with
  | stopped completion => cases completion <;> rfl
  | _ => rfl

theorem originNamed_name (origin : Origin) : originNamed origin.name = some origin := by
  cases origin <;> rfl

theorem desiredNamed_name (desired : Desired) : desiredNamed desired.name = some desired := by
  cases desired <;> rfl

/-- A time that storage can hold: whole seconds from 1970 on, within its integers. -/
def SystemTime.Storable (t : SystemTime) : Prop := ∃ n ≤ i64Max, t = Duration.fromSecs n

theorem timeFromSeconds_storable {t : SystemTime} (h : t.Storable) :
    timeFromSeconds (seconds t) = some t := by
  obtain ⟨n, hn, rfl⟩ := h
  rw [timeFromSeconds_seconds]
  unfold SystemTime.stored
  rw [seconds_eq]
  congr 1
  unfold Duration.fromSecs
  push_cast
  rw [max_eq_left (by positivity), Int.mul_ediv_cancel _ (by decide), min_eq_left (Int.ofNat_le.mpr hn)]

section
variable {row : Row} {i : Nat}

theorem parsed_read {α β : Type} {read : Value → Option α} (write : β → Value)
    {parse : α → StorageResult β}
    {b : Option β} (hrow : row[i]? = some (.ofOption write b))
    (h : ∀ c, b = some c → ∃ a, read (write c) = some a ∧ write c ≠ .null ∧ parse a = .ok c) :
    parsed row i read parse = .ok b := by
  unfold parsed column Row.get
  rw [hrow, Option.bind_some]
  cases b with
  | none => rfl
  | some c =>
    obtain ⟨a, hread, hnull, hparse⟩ := h c rfl
    rw [optional_ofOption hnull, hread]
    dsimp only [Option.map_some, orFail, bind, Except.bind]
    rw [hparse]
    rfl

theorem text_read {s : Option NonEmpty}
    (hrow : row[i]? = some (.ofOption (fun s : NonEmpty => .text s.text) s)) :
    textColumn row i = .ok s := by
  refine parsed_read _ hrow fun c _ => ⟨c.text, rfl, nofun, ?_⟩
  unfold nonEmpty
  rw [dif_neg c.valid]
  rfl

theorem time_read {t : Option SystemTime}
    (hrow : row[i]? = some (.ofOption (fun t => .integer (seconds t)) t))
    (ht : ∀ u, t = some u → u.Storable) :
    (parsed row i Value.asInteger fun seconds =>
      invalidData "time out of range" (timeFromSeconds seconds)) = .ok t := by
  refine parsed_read _ hrow fun u hu => ⟨seconds u, rfl, nofun, ?_⟩
  rw [timeFromSeconds_storable (ht u hu)]
  rfl

theorem count_read {n : Nat} (hrow : row[i]? = some (.integer (integer n))) (hn : n ≤ i64Max) :
    (do orFail .outOfRange (u64TryFrom (← column row i Value.asInteger)) : StorageResult Nat) =
    .ok n := by
  unfold column Row.get
  rw [hrow]
  dsimp only [Option.bind_some, Value.asInteger, orFail, bind, Except.bind]
  rw [u64TryFrom_integer hn]

end

/-! ## Rows -/

structure Torrent.Storable (torrent : Torrent) : Prop where
  size : torrent.size ≤ i64Max
  totalSize : torrent.totalSize ≤ i64Max
  downloaded : torrent.downloaded ≤ i64Max
  uploaded : torrent.uploaded ≤ i64Max
  ratio : torrent.ratio ≤ i64Max
  seedingTime : ∃ n ≤ i64Max, torrent.seedingTime = Duration.fromSecs n
  addedAt : ∀ t, torrent.addedAt = some t → t.Storable
  completedAt : ∀ t, torrent.completedAt = some t → t.Storable

structure TorrentRecord.Storable (record : TorrentRecord) : Prop where
  id : (record.id : Nat) ≤ i64Max
  mam : ∀ mam, record.identity.mamId = some mam → (mam : Nat) ≤ i64Max
  torrent : ∀ observation, record.observation = some observation → observation.torrent.Storable
  lastSeen : ∀ observation, record.observation = some observation → observation.lastSeen.Storable

def Observation.unforced (observation : Observation) : Observation :=
  { observation with torrent := { observation.torrent with forceStart := .notForced } }

/-- A row as it is read back: whether its torrent is forced is not saved. -/
def TorrentRecord.unforced (record : TorrentRecord) : TorrentRecord :=
  { record with observation := record.observation.map Observation.unforced }

section
variable {record : TorrentRecord}

theorem ok_bind {α β : Type} (a : α) (f : α → StorageResult β) : (Except.ok a >>= f) = f a := rfl

theorem invalidData_some {α : Type} (detail : String) (a : α) : invalidData detail (some a) = .ok a := rfl

theorem observation_parameters {o : Observation} (h : record.Storable)
    (ho : record.observation = some o) :
    observation record.parameters (seconds o.lastSeen) = .ok o.unforced := by
  obtain ⟨id, identity, origin, desired, savePath, deletion, _⟩ := record
  cases ho
  have ht := h.torrent o rfl
  obtain ⟨n, hn, hseeding⟩ := ht.seedingTime
  have hsecs : o.torrent.seedingTime.asSecs = n := by
    rw [hseeding]
    exact Nat.mul_div_cancel _ (by decide)
  have hpermille : o.torrent.progress.1 ≤ i64Max := o.torrent.progress.2.trans (by decide)
  have hclamp : (o.torrent.progress.1 : Int) = integer o.torrent.progress.1 :=
    (min_eq_left (Int.ofNat_le.mpr hpermille)).symm
  have hstate : column (TorrentRecord.parameters ⟨id, identity, origin, desired, savePath, deletion,
    some o⟩) 8
      Value.asText = .ok (stateName o.torrent.state) := rfl
  have hprogress : Progress.fromPermille o.torrent.progress.1 = some o.torrent.progress :=
    dif_pos o.torrent.progress.2
  unfold observation
  dsimp only
  rw [hstate, ok_bind, count_read (i := 9) (congrArg (fun n =>
    some (Value.integer n)) hclamp) hpermille, ok_bind,
    if_pos (o.torrent.progress.2.trans (by decide)), hprogress, invalidData_some, ok_bind,
    text_read (i := 7) rfl, ok_bind,
    count_read (i := 10) rfl ht.size, ok_bind, count_read (i := 11) rfl ht.totalSize, ok_bind,
    count_read (i := 12) rfl ht.downloaded, ok_bind, count_read (i := 13) rfl ht.uploaded, ok_bind,
    count_read (i := 14) rfl ht.ratio, ok_bind,
    count_read (i := 15) (congrArg (fun n => some (Value.integer (integer n))) hsecs) hn, ok_bind,
    time_read (i := 16) rfl ht.addedAt, ok_bind, time_read (i := 17) rfl ht.completedAt, ok_bind,
    text_read (i := 18) rfl, ok_bind, text_read (i := 19) rfl, ok_bind,
    timeFromSeconds_storable (h.lastSeen o rfl), torrentState_stateName, ← hseeding]
  rfl

theorem new_identity (identity : Identity) :
    Identity.new identity.mamId identity.hash = some identity := by
  cases identity <;> rfl

theorem mam_read (h : record.Storable) :
    (parsed record.parameters 1 Value.asInteger fun mam =>
        invalidData "invalid MAM torrent ID" ((u64TryFrom mam).bind MamTorrentId.new)) =
      .ok record.identity.mamId := by
  refine parsed_read (fun mam : MamTorrentId => .integer (integer mam)) rfl fun mam hmam => ?_
  refine ⟨integer mam, rfl, nofun, ?_⟩
  rw [u64TryFrom_integer (h.mam mam hmam), Option.bind_some, MamTorrentId.new, dif_pos mam.pos]
  rfl

theorem hash_read :
    (parsed record.parameters 2 Value.asText fun hash =>
      invalidData "invalid info hash" (TorrentHash.parse hash)) =
      .ok record.identity.hash := by
  refine parsed_read (fun hash => .text hash.asStr) rfl fun hash _ => ⟨hash.asStr, rfl, nofun, ?_⟩
  rw [parse_asStr]
  rfl

theorem observation_read (h : record.Storable) :
    parsed record.parameters 20 Value.asInteger (observation record.parameters) =
      .ok (record.observation.map Observation.unforced) := by
  cases ho : record.observation with
  | none =>
    have hcolumn : record.parameters[20]? = some (.ofOption Value.integer none) := by
      unfold TorrentRecord.parameters
      rw [ho]
      rfl
    unfold parsed column Row.get
    rw [hcolumn]
    rfl
  | some o =>
    have hcolumn : record.parameters[20]? = some (.integer (seconds o.lastSeen)) := by
      unfold TorrentRecord.parameters
      rw [ho]
      rfl
    unfold parsed column Row.get
    rw [hcolumn]
    dsimp only [Option.bind_some, Value.optional, Value.asInteger, Option.map_some, orFail, bind,
      Except.bind]
    rw [observation_parameters h ho]
    rfl

theorem torrentRecord_parameters (h : record.Storable) :
    torrentRecord record.parameters = .ok record.unforced := by
  have hid : ((record.parameters.get 0 Value.asInteger).bind u64TryFrom).bind RecordId.new =
      some record.id := by
    have hget : record.parameters.get 0 Value.asInteger = some (integer record.id) := rfl
    rw [hget, Option.bind_some, u64TryFrom_integer h.id]
    exact dif_pos record.id.pos
  have horigin : column record.parameters 3 Value.asText = .ok record.origin.name := rfl
  have hdesired : column record.parameters 4 Value.asText = .ok record.desired.name := rfl
  have hdeletion : column record.parameters 6 Value.asBool =
      .ok (decide (record.deletion = .allowed)) := by
    have hcolumn : record.parameters[6]? =
      some (.integer (if record.deletion = .allowed then 1 else 0)) := rfl
    unfold column Row.get
    rw [hcolumn]
    cases record.deletion <;> rfl
  unfold torrentRecord
  rw [hid, invalidData_some, ok_bind, mam_read h, ok_bind, hash_read, ok_bind, new_identity,
    invalidData_some, ok_bind,
    horigin, ok_bind, originNamed_name, invalidData_some, ok_bind, hdesired, ok_bind, desiredNamed_name,
    invalidData_some, ok_bind, observation_read h, ok_bind, text_read (i := 5) rfl, ok_bind, hdeletion,
    ok_bind]
  obtain ⟨id, identity, origin, desired, savePath, deletion, observed⟩ := record
  cases deletion <;> rfl

end

/-! ## Rows beyond what storage holds -/

theorem i64Max_pos : 0 < i64Max := by decide

def MamTorrentId.largest : MamTorrentId := ⟨i64Max, i64Max_pos⟩

def MamTorrentId.clamped (id : MamTorrentId) : MamTorrentId :=
  if (id : Nat) ≤ i64Max then id else .largest

def Identity.clamped : Identity → Identity
  | .mam id => .mam id.clamped
  | .client hash => .client hash
  | .linked id hash => .linked id.clamped hash

def Torrent.clamped (torrent : Torrent) : Torrent :=
  { torrent with
    size := min torrent.size i64Max
    totalSize := min torrent.totalSize i64Max
    downloaded := min torrent.downloaded i64Max
    uploaded := min torrent.uploaded i64Max
    ratio := min torrent.ratio i64Max
    seedingTime := Duration.fromSecs (min torrent.seedingTime.asSecs i64Max)
    addedAt := torrent.addedAt.map SystemTime.stored
    completedAt := torrent.completedAt.map SystemTime.stored }

def Observation.clamped (observation : Observation) : Observation where
  torrent := observation.torrent.clamped
  lastSeen := observation.lastSeen.stored

/-- A row as it is saved: numbers that storage cannot hold become the largest it
can, and times whole seconds. -/
def TorrentRecord.clamped (record : TorrentRecord) : TorrentRecord :=
  { record with
    identity := record.identity.clamped
    observation := record.observation.map Observation.clamped }

theorem ofOption_some {α : Type} (write : α → Value) (a : α) :
    Value.ofOption write (some a) = write a := rfl

theorem integer_clamped (n : Nat) : integer (min n i64Max) = integer n := by
  unfold integer
  push_cast
  rw [min_assoc, min_self]

theorem mam_clamped (id : MamTorrentId) : (id.clamped : Nat) = min (id : Nat) i64Max := by
  unfold MamTorrentId.clamped
  split
  · next h => rw [min_eq_left h]
  · next h => exact (min_eq_right (not_le.mp h).le).symm

theorem seconds_bounds (t : SystemTime) : 0 ≤ seconds t ∧ seconds t ≤ i64Max := by
  rw [seconds_eq]
  exact ⟨le_min (Int.ediv_nonneg (le_max_right _ _) (by decide)) (by decide), min_le_right _ _⟩

theorem stored_storable (t : SystemTime) : t.stored.Storable := by
  obtain ⟨h0, hle⟩ := seconds_bounds t
  refine ⟨(seconds t).toNat, by omega, ?_⟩
  unfold SystemTime.stored Duration.fromSecs
  push_cast
  rw [Int.toNat_of_nonneg h0]

theorem seconds_stored (t : SystemTime) : seconds t.stored = seconds t := by
  have h := timeFromSeconds_storable (stored_storable t)
  rw [timeFromSeconds_seconds] at h
  have heq : seconds t.stored * 1000000000 = seconds t * 1000000000 := Option.some.inj h
  exact mul_right_cancel₀ (by decide) heq

@[simp] theorem clamped_hash (identity : Identity) : identity.clamped.hash = identity.hash := by
  cases identity <;> rfl

theorem clamped_mamId (identity : Identity) :
    identity.clamped.mamId = identity.mamId.map MamTorrentId.clamped := by
  cases identity <;> rfl

section
variable {record : TorrentRecord}

/-- Storage is handed the same of a row and of the row as it is saved. -/
theorem parameters_clamped (record : TorrentRecord) : record.clamped.parameters = record.parameters := by
  have hmam : Value.ofOption (fun mam : MamTorrentId =>
    .integer (integer mam)) record.identity.clamped.mamId =
      .ofOption (fun mam : MamTorrentId => .integer (integer mam)) record.identity.mamId := by
    rw [clamped_mamId]
    cases record.identity.mamId with
    | none => rfl
    | some mam =>
      exact congrArg Value.integer ((congrArg integer (mam_clamped mam)).trans (integer_clamped mam))
  have htime (t : Option SystemTime) :
    Value.ofOption (fun t => .integer (seconds t)) (t.map SystemTime.stored) =
      .ofOption (fun t => .integer (seconds t)) t := by
    cases t with
    | none => rfl
    | some t => exact congrArg Value.integer (seconds_stored t)
  unfold TorrentRecord.parameters TorrentRecord.clamped
  dsimp only
  rw [hmam, clamped_hash]
  cases record.observation with
  | none => rfl
  | some observation =>
    have hsecs : (Duration.fromSecs (min observation.torrent.seedingTime.asSecs i64Max)).asSecs =
        min observation.torrent.seedingTime.asSecs i64Max := Nat.mul_div_cancel _ (by decide)
    simp only [Option.map_some, Observation.clamped, Torrent.clamped, Option.bind_some, htime,
      ofOption_some,
      integer_clamped, hsecs, seconds_stored]

theorem clamped_storable (hid : (record.id : Nat) ≤ i64Max) : record.clamped.Storable where
  id := hid
  mam mam hm := by
    obtain ⟨mam', -, rfl⟩ := Option.map_eq_some_iff.mp ((clamped_mamId record.identity).symm.trans hm)
    rw [mam_clamped]
    exact min_le_right _ _
  torrent observation ho := by
    obtain ⟨o, -, rfl⟩ := Option.map_eq_some_iff.mp ho
    refine ⟨min_le_right _ _, min_le_right _ _, min_le_right _ _, min_le_right _ _, min_le_right _ _,
      ⟨_, min_le_right _ _, rfl⟩, fun t ht => ?_, fun t ht => ?_⟩ <;>
    · obtain ⟨t', -, rfl⟩ := Option.map_eq_some_iff.mp ht
      exact stored_storable t'
  lastSeen observation ho := by
    obtain ⟨o, -, rfl⟩ := Option.map_eq_some_iff.mp ho
    exact stored_storable o.lastSeen

theorem torrentRecord_saved (hid : (record.id : Nat) ≤ i64Max) :
    torrentRecord record.parameters = .ok record.clamped.unforced := by
  rw [← parameters_clamped]
  exact torrentRecord_parameters (clamped_storable hid)

end

/-! ## What a row that is read holds -/

theorem bind_ok {α β : Type} {x : StorageResult α} {f : α → StorageResult β} {b : β}
    (h : x >>= f = .ok b) :
    ∃ a, x = .ok a ∧ f a = .ok b := by
  cases x with
  | ok a => exact ⟨a, rfl, h⟩
  | error e => cases h

theorem orFail_ok {α : Type} {error : StorageError} {o : Option α} {a : α}
    (h : orFail error o = .ok a) : o = some a := by
  cases o with
  | some a' =>
    cases h
    rfl
  | none => cases h

section
variable {row : Row} {record : TorrentRecord}

theorem get_integer {i : Nat} {n : Int} (h : row.get i Value.asInteger = some n) :
    row[i]? = some (.integer n) := by
  obtain ⟨v, hv, hn⟩ := Option.bind_eq_some_iff.mp h
  cases v with
  | integer m =>
    cases hn
    exact hv
  | _ => cases hn

theorem u64TryFrom_some {n : Int} {v : Nat} (h : u64TryFrom n = some v) : (v : Int) = n := by
  unfold u64TryFrom at h
  split at h
  · next hn =>
    cases h
    exact Int.toNat_of_nonneg hn
  · cases h

theorem recordId_new {v : Nat} {id : RecordId} (h : RecordId.new v = some id) : (id : Nat) = v := by
  unfold RecordId.new at h
  split at h
  · cases h
    rfl
  · cases h

theorem identity_new_hash {mam : Option MamTorrentId} {hash : Option TorrentHash} {identity : Identity}
    (h : Identity.new mam hash = some identity) : identity.hash = hash := by
  cases mam <;> cases hash <;> cases h <;> rfl

/-- What a row that is read must hold: its id, and in the place of its hash a text that is
its hash, if any. -/
theorem torrentRecord_keys (h : torrentRecord row = .ok record) :
    row[0]? = some (.integer (record.id : Nat)) ∧
      ∀ hash : TorrentHash, row[2]? = some (.text hash.asStr) → record.identity.hash = some hash := by
  unfold torrentRecord at h
  obtain ⟨id, hid, h⟩ := bind_ok h
  obtain ⟨mam, -, h⟩ := bind_ok h
  obtain ⟨hash, hhash, h⟩ := bind_ok h
  obtain ⟨identity, hidentity, h⟩ := bind_ok h
  obtain ⟨_, -, h⟩ := bind_ok h
  obtain ⟨_, -, h⟩ := bind_ok h
  obtain ⟨_, -, h⟩ := bind_ok h
  obtain ⟨_, -, h⟩ := bind_ok h
  obtain ⟨_, -, h⟩ := bind_ok h
  obtain ⟨_, -, h⟩ := bind_ok h
  obtain ⟨_, -, h⟩ := bind_ok h
  cases h
  constructor
  · obtain ⟨v, hv, hnew⟩ := Option.bind_eq_some_iff.mp (orFail_ok hid)
    obtain ⟨n, hn, hnat⟩ := Option.bind_eq_some_iff.mp hv
    rw [get_integer hn, recordId_new hnew, u64TryFrom_some hnat]
  · intro found hfound
    unfold parsed column Row.get at hhash
    rw [hfound] at hhash
    have hparsed : (some <$> invalidData "invalid info hash"
      (TorrentHash.parse found.asStr) : StorageResult _) =
        .ok hash := hhash
    rw [parse_asStr] at hparsed
    cases hparsed
    exact identity_new_hash (orFail_ok hidentity)

theorem rowId_read (h : torrentRecord row = .ok record) : rowId row = (record.id : Nat) := by
  unfold rowId Row.get
  rw [(torrentRecord_keys h).1]
  rfl

end

theorem mapM_read {table : List Row} {rows : List TorrentRecord}
    (h : table.mapM torrentRecord = .ok rows) :
    rows.map (fun record => ((record.id : Nat) : Int)) = table.map rowId ∧
      (∀ row ∈ table, ∃ record ∈ rows, torrentRecord row = .ok record) ∧
      ∀ record ∈ rows, ∃ row ∈ table, torrentRecord row = .ok record := by
  -- every row has to be read for the table to be
  induction table generalizing rows with
  | nil =>
    rw [List.mapM_nil] at h
    cases h
    exact ⟨rfl, List.forall_mem_nil _, List.forall_mem_nil _⟩
  | cons row table ih =>
    rw [List.mapM_cons] at h
    obtain ⟨record, hrecord, h⟩ := bind_ok h
    obtain ⟨records, hrecords, h⟩ := bind_ok h
    cases h
    obtain ⟨hids, hread, hback⟩ := ih hrecords
    refine ⟨?_, List.forall_mem_cons.mpr ⟨⟨record, List.mem_cons_self, hrecord⟩, fun row' hrow' => ?_⟩,
      List.forall_mem_cons.mpr ⟨⟨row, List.mem_cons_self, hrecord⟩, fun record' hrecord' => ?_⟩⟩
    · rw [List.map_cons, List.map_cons, hids, rowId_read hrecord]
    · obtain ⟨record', hmem, heq⟩ := hread row' hrow'
      exact ⟨record', List.mem_cons_of_mem _ hmem, heq⟩
    · obtain ⟨row', hmem, heq⟩ := hback record' hrecord'
      exact ⟨row', List.mem_cons_of_mem _ hmem, heq⟩

/-- What storage returns of its table: the record of each row, in the order of ids. -/
theorem readRegistry_rows {table : List Row} {rows : List TorrentRecord} (hids : (table.map rowId).Nodup)
    (h : readRegistry table = .ok rows) : (rows.Pairwise fun row row' => row.id < row'.id) ∧
      (∀ row ∈ table, ∃ record ∈ rows, torrentRecord row = .ok record) ∧
      ∀ record ∈ rows, ∃ row ∈ table, torrentRecord row = .ok record := by
  have hmem (row : Row) : row ∈ orderBy rowId table ↔ row ∈ table := orderBy_perm.mem_iff
  obtain ⟨hsame, hread, hback⟩ := mapM_read h
  refine ⟨?_, fun row hrow => hread row ((hmem row).mpr hrow), fun record hrecord => ?_⟩
  · have hsorted := List.pairwise_map.mpr (orderBy_lt hids)
    rw [← hsame] at hsorted
    refine (List.pairwise_map.mp hsorted).imp fun hlt => ?_
    exact PNat.coe_lt_coe _ _ |>.mp (Int.ofNat_lt.mp hlt)
  · obtain ⟨row, hrow, heq⟩ := hback record hrecord
    exact ⟨row, (hmem row).mp hrow, heq⟩

/-! ## Tables -/

theorem rowAllowed_parameters (record : TorrentRecord) : rowAllowed record.parameters = true := by
  obtain ⟨id, identity, origin, desired, savePath, deletion, observed⟩ := record
  cases identity <;> cases origin <;> cases desired <;> rfl

theorem saveTorrents_eq (table : List Row) (records : List TorrentRecord) :
    saveTorrents table records =
    .ok (insertAll sameKey table (records.map TorrentRecord.parameters)) := by
  induction records generalizing table with
  | nil => rfl
  | cons record records ih =>
    have hinsert : insertTorrent table record.parameters =
        .ok (insertOrReplace sameKey table record.parameters) :=
      if_pos (rowAllowed_parameters record)
    unfold saveTorrents
    rw [List.foldlM_cons, hinsert, ok_bind]
    exact ih _

theorem saveBatches_eq (table : List Row) (batches : List (List TorrentRecord)) :
    batches.foldlM saveTorrents table =
    .ok (insertAll sameKey table (batches.flatten.map TorrentRecord.parameters)) := by
  induction batches generalizing table with
  | nil => rfl
  | cons batch batches ih =>
    rw [List.foldlM_cons, saveTorrents_eq, ok_bind, ih, List.flatten_cons, List.map_append,
      insertAll_append]

theorem asStr_injective : Function.Injective TorrentHash.asStr := by
  intro a b h
  have hparse := congrArg TorrentHash.parse h
  rw [parse_asStr, parse_asStr] at hparse
  exact Option.some.inj hparse

theorem hashColumn_injective :
    Function.Injective (Value.ofOption fun hash : TorrentHash => .text hash.asStr) := by
  intro a b h
  cases a with
  | none =>
    cases b with
    | none => rfl
    | some b => cases h
  | some a =>
    cases b with
    | none => cases h
    | some b => exact congrArg some (asStr_injective (Value.text.inj h))

section
variable {old record : TorrentRecord}

theorem rowId_parameters (h : record.Storable) : rowId record.parameters = (record.id : Nat) :=
  min_eq_left (Int.ofNat_le.mpr h.id)

/-- Of rows that storage can hold, one replaces those with its id or its info hash. -/
theorem sameKey_parameters (ho : old.Storable) (h : record.Storable) :
    sameKey old.parameters record.parameters = true ↔
      old.id = record.id ∨ record.identity.hash ≠ none ∧ old.identity.hash = record.identity.hash := by
  have hid (r : TorrentRecord) : r.parameters[0]? = some (.integer (rowId r.parameters)) := rfl
  have hhash (r : TorrentRecord) :
      r.parameters[2]? = some (.ofOption (fun hash => .text hash.asStr) r.identity.hash) := rfl
  have hnull : (Value.ofOption (fun hash : TorrentHash => .text hash.asStr) none) = .null := rfl
  unfold sameKey
  rw [hid, hid, hhash, hhash, Bool.or_eq_true, Bool.and_eq_true, beq_iff_eq, beq_iff_eq, bne_iff_ne,
    ← hnull, Ne,
    Option.some_inj, Option.some_inj, Option.some_inj, hashColumn_injective.eq_iff,
    hashColumn_injective.eq_iff,
    Value.integer.injEq, rowId_parameters ho, rowId_parameters h, Int.natCast_inj, PNat.coe_inj]

end

/-- No record saved after the last version of another row has its info hash. -/
def Undisplaced (written : List TorrentRecord) : Prop :=
  ∀ row later, row :: later <:+ written → (∀ r ∈ later, row.id ≠ r.id) →
    ∀ r ∈ later, r.identity.hash ≠ none → row.identity.hash ≠ r.identity.hash

theorem undisplaced_of_distinct {written : List TorrentRecord} (h : ∀ r ∈ written, ∀ s ∈ written,
    s.identity.hash ≠ none → r.identity.hash = s.identity.hash → r.id = s.id) : Undisplaced written := by
  intro row later hsuffix hids r hr hnone heq
  have hrow := hsuffix.subset List.mem_cons_self
  exact hids r hr (h row hrow r (hsuffix.subset (List.mem_cons_of_mem row hr)) hnone heq)

section
variable {written : List TorrentRecord}

theorem mapM_unforced (h : ∀ r ∈ written, r.Storable) :
    (written.map TorrentRecord.parameters).mapM torrentRecord =
    .ok (written.map TorrentRecord.unforced) := by
  induction written with
  | nil => rfl
  | cons record written ih =>
    obtain ⟨hrecord, hwritten⟩ := List.forall_mem_cons.mp h
    rw [List.map_cons, List.mapM_cons, torrentRecord_parameters hrecord, ok_bind, ih hwritten]
    rfl

/-- The rows that the table keeps are the last versions of all that was written. -/
theorem survivors_parameters (h : ∀ r ∈ written, r.Storable) (hd : Undisplaced written) :
    survivors sameKey (written.map TorrentRecord.parameters) =
      (survivors (fun old row => old.id == row.id) written).map TorrentRecord.parameters := by
  rw [survivors_map]
  congr 1
  refine survivors_congr fun row later hsuffix => ?_
  have hrow := h row (hsuffix.subset List.mem_cons_self)
  have hlater (r : TorrentRecord) (hr : r ∈ later) := h r (hsuffix.subset (List.mem_cons_of_mem row hr))
  rw [Bool.eq_iff_iff, List.any_eq_true, List.any_eq_true]
  by_cases hids : ∃ r ∈ later, row.id = r.id
  · obtain ⟨r, hr, heq⟩ := hids
    exact iff_of_true ⟨r, hr, (sameKey_parameters hrow (hlater r hr)).mpr (.inl heq)⟩ ⟨r, hr,
      beq_iff_eq.mpr heq⟩
  · refine iff_of_false (fun ⟨r, hr, hkey⟩ => ?_) fun ⟨r, hr, heq⟩ => hids ⟨r, hr, beq_iff_eq.mp heq⟩
    obtain heq | ⟨hnone, heq⟩ := (sameKey_parameters hrow (hlater r hr)).mp hkey
    · exact hids ⟨r, hr, heq⟩
    · exact hd row later hsuffix (fun r hr heq => hids ⟨r, hr, heq⟩) r hr hnone heq

/-- Written to an empty table, the last version of each row is read back, in the order of ids. -/
theorem read_written (h : ∀ r ∈ written, r.Storable) (hd : Undisplaced written) :
    ∃ records : List TorrentRecord,
      readRegistry (insertAll sameKey [] (written.map TorrentRecord.parameters)) =
          .ok (records.map TorrentRecord.unforced) ∧
        records.Perm (survivors (fun old row => old.id == row.id) written) ∧
        records.Pairwise fun a b => a.id < b.id := by
  generalize hkept : survivors (fun old row : TorrentRecord => old.id == row.id) written = kept
  have hstorable (r : TorrentRecord) (hr : r ∈ kept) : r.Storable :=
    h r (survivors_sublist.subset (hkept ▸ hr))
  have hperm : (orderBy (rowId ∘ TorrentRecord.parameters) kept).Perm kept := orderBy_perm
  have hids : (kept.map (rowId ∘ TorrentRecord.parameters)).Nodup := by
    refine List.pairwise_map.mpr ((hkept ▸ survivors_pairwise).imp_of_mem fun ha hb hne heq => ?_)
    rw [Function.comp_apply, Function.comp_apply, rowId_parameters (hstorable _ ha),
      rowId_parameters (hstorable _ hb),
      Int.natCast_inj, PNat.coe_inj] at heq
    exact ne_of_beq_false hne heq
  refine ⟨orderBy (rowId ∘ TorrentRecord.parameters) kept, ?_, hperm, ?_⟩
  · rw [insertAll_nil, survivors_parameters h hd, hkept]
    unfold readRegistry
    rw [orderBy_map]
    exact mapM_unforced fun r hr => hstorable r (hperm.subset hr)
  · refine (orderBy_lt hids).imp_of_mem fun ha hb hlt => ?_
    rw [Function.comp_apply, Function.comp_apply, rowId_parameters (hstorable _ (hperm.subset ha)),
      rowId_parameters (hstorable _ (hperm.subset hb)), Int.ofNat_lt, PNat.coe_lt_coe] at hlt
    exact hlt

end

/-- Rows with distinct ids and info hashes are read back as they were saved, in the order of
ids, and of rows saved in batches the last version of each. -/
theorem registry_read_back :
    (∀ records : List TorrentRecord, (∀ r ∈ records, r.Storable) →
      (records.map TorrentRecord.id).Nodup → (records.filterMap fun r => r.identity.hash).Nodup →
        ∃ table rows, saveTorrents [] records = .ok table ∧ readRegistry table = .ok rows ∧
          rows.Perm (records.map TorrentRecord.unforced) ∧ rows.Pairwise fun a b => a.id < b.id) ∧
      ∀ batches : List (List TorrentRecord), (∀ r ∈ batches.flatten, r.Storable) →
      Undisplaced batches.flatten →
        ∃ table rows, batches.foldlM saveTorrents [] = .ok table ∧ readRegistry table = .ok rows ∧
          (∀ row, row ∈ rows ↔ ∃ last later, last :: later <:+ batches.flatten ∧
            (∀ r ∈ later, last.id ≠ r.id) ∧ row = last.unforced) ∧
          rows.Pairwise fun a b => a.id < b.id := by
  refine ⟨fun records hs hids hhashes => ?_, fun batches hs hd => ?_⟩
  · have hd : Undisplaced records := by
      let Differ (a b : TorrentRecord) :=
        ∀ x, a.identity.hash = some x → ∀ y, b.identity.hash = some y → x ≠ y
      have hdiffer : records.Pairwise Differ := List.pairwise_filterMap.mp hhashes
      have : Std.Symm Differ := ⟨fun a b h x hx y hy => (h y hy x hx).symm⟩
      refine undisplaced_of_distinct fun r hr s hs hnone heq => ?_
      by_contra hne
      obtain ⟨hash, hhash⟩ := Option.ne_none_iff_exists'.mp hnone
      exact hdiffer.forall hr hs (fun h => hne (congrArg TorrentRecord.id h)) hash
        (heq.trans hhash) hash hhash rfl
    obtain ⟨rows, hread, hperm, hsorted⟩ := read_written hs hd
    refine ⟨_, _, saveTorrents_eq [] records, hread, ?_, List.pairwise_map.mpr hsorted⟩
    rw [survivors_eq_self] at hperm
    · exact hperm.map _
    · exact (List.pairwise_map.mp hids).imp fun h => beq_false_of_ne h
  · obtain ⟨rows, hread, hperm, hsorted⟩ := read_written hs hd
    refine ⟨_, _, saveBatches_eq [] batches, hread, fun row => ?_, List.pairwise_map.mpr hsorted⟩
    have hlast (last : TorrentRecord) : last ∈ rows ↔
        ∃ later, last :: later <:+ batches.flatten ∧ ∀ r ∈ later, last.id ≠ r.id := by
      simp only [hperm.mem_iff, mem_survivors, List.any_eq_false, beq_iff_eq]
    rw [List.mem_map]
    constructor
    · rintro ⟨last, hmem, rfl⟩
      obtain ⟨later, hsuffix, hids⟩ := (hlast last).mp hmem
      exact ⟨last, later, hsuffix, hids, rfl⟩
    · rintro ⟨last, later, hsuffix, hids, rfl⟩
      exact ⟨last, (hlast last).mpr ⟨later, hsuffix, hids⟩, rfl⟩

def uploadedRow (uploaded : ByteSize) : TorrentRecord where
  id := .first
  identity := .mam (Nat.toPNat' 7)
  origin := .bookmark
  desired := .active
  savePath := some ⟨"/books", by decide⟩
  deletion := .notAllowed
  observation := some { torrent := { state := .seeding, uploaded, forceStart := .forced }, lastSeen := 0 }

theorem uploadedRow_storable {uploaded : ByteSize} (h : uploaded ≤ i64Max) :
    (uploadedRow uploaded).Storable where
  id := (by decide : 1 ≤ i64Max)
  mam mam hmam := by cases hmam; decide
  torrent observation ho := by
    cases ho
    exact ⟨Nat.zero_le _, Nat.zero_le _, Nat.zero_le _, h, Nat.zero_le _, ⟨0, Nat.zero_le _, rfl⟩,
      nofun, nofun⟩
  lastSeen observation ho := by
    cases ho
    exact ⟨0, Nat.zero_le _, rfl⟩

theorem later_upload_read :
    ∃ table rows, [[uploadedRow 1], [uploadedRow 2]].foldlM saveTorrents [] = .ok table ∧
    readRegistry table = .ok rows ∧ (uploadedRow 2).unforced ∈ rows := by
  have hrows (r : TorrentRecord) (hr : r ∈ [uploadedRow 1, uploadedRow 2]) : r.id = 1 ∧ r.Storable := by
    rw [List.mem_pair] at hr
    obtain rfl | rfl := hr
    · exact ⟨rfl, uploadedRow_storable (by decide)⟩
    · exact ⟨rfl, uploadedRow_storable (by decide)⟩
  have hd : Undisplaced [uploadedRow 1, uploadedRow 2] :=
    undisplaced_of_distinct fun r hr s hs _ _ => (hrows r hr).1.trans (hrows s hs).1.symm
  obtain ⟨table, rows, hsave, hread, hlast, -⟩ :=
    registry_read_back.2 [[uploadedRow 1], [uploadedRow 2]] (fun r hr => (hrows r hr).2) hd
  have hsuffix : [uploadedRow 2] <:+ [uploadedRow 1, uploadedRow 2] := ⟨[uploadedRow 1], rfl⟩
  exact ⟨table, rows, hsave, hread, (hlast _).mpr ⟨_, [], hsuffix, List.forall_mem_nil _, rfl⟩⟩

end Windlass
