import Windlass.Sqlite
import Windlass.Values

/-!
# Registry rows in storage

A registry row is saved as a row of twenty-one columns, by place, and read back
column by column. A batch of rows is saved in one transaction, each row replacing
the ones with its id or its info hash; the rows are read ordered by id.
-/

namespace Windlass

open Sqlite

/-! ## Numbers and times -/

def i64Max : Nat := 2 ^ 63 - 1

/-- Counts beyond `i64::MAX` are saved as the maximum. -/
def integer (count : Nat) : Int := min count i64Max

/-- Unix seconds; a clock set before 1970 is saved as 1970. -/
def seconds (time : SystemTime) : Int :=
  match time.durationSince 0 with
  | some since => integer since.asSecs
  | none => 0

def timeFromSeconds (seconds : Int) : Option SystemTime :=
  if seconds < 0 then none else SystemTime.checkedAdd 0 (Duration.fromSecs seconds.toNat)

/-- A time as it is read back. -/
def SystemTime.stored (t : SystemTime) : SystemTime := seconds t * 1000000000

theorem seconds_eq (t : SystemTime) : seconds t = min (max t 0 / 1000000000) i64Max := by
  unfold seconds SystemTime.durationSince
  by_cases h : 0 ≤ t
  · rw [if_pos h]
    simp only [integer, Duration.asSecs, Int.sub_zero]
    push_cast
    rw [Int.toNat_of_nonneg h, max_eq_left h]
  · rw [if_neg h, max_eq_right (not_le.mp h).le]
    simp [i64Max]

theorem timeFromSeconds_seconds (t : SystemTime) : timeFromSeconds (seconds t) = some t.stored := by
  have h : 0 ≤ seconds t ∧ seconds t ≤ i64Max := by
    rw [seconds_eq]
    refine ⟨le_min (Int.ediv_nonneg (le_max_right _ _) (by decide)) (by decide), min_le_right _ _⟩
  have hend : (i64Max : Int) * 1000000000 ≤ SystemTime.latest := by decide
  unfold timeFromSeconds SystemTime.checkedAdd SystemTime.stored Duration.fromSecs
  rw [if_neg (not_lt.mpr h.1)]
  push_cast
  rw [Int.toNat_of_nonneg h.1, Int.zero_add, if_pos]
  exact (Int.mul_le_mul_of_nonneg_right h.2 (by decide)).trans hend

def u64TryFrom (n : Int) : Option Nat := if 0 ≤ n then some n.toNat else none

def RecordId.new (id : Nat) : Option RecordId := if h : 0 < id then some ⟨id, h⟩ else none

def MamTorrentId.new (id : Nat) : Option MamTorrentId := if h : 0 < id then some ⟨id, h⟩ else none

def Progress.fromPermille (permille : Nat) : Option Progress :=
  if h : permille ≤ 1000 then some ⟨permille, h⟩ else none

/-! ## Texts -/

/-- A name or a path is any text but the empty one. -/
def nonEmpty (text : String) : Option NonEmpty := if h : text = "" then none else some ⟨text, h⟩

def hexValue (c : Char) : Option (Fin 16) :=
  if '0' ≤ c ∧ c ≤ '9' then some (.ofNat 16 (c.toNat - '0'.toNat))
  else if 'a' ≤ c ∧ c ≤ 'f' then some (.ofNat 16 (c.toNat - 'a'.toNat + 10))
  else if 'A' ≤ c ∧ c ≤ 'F' then some (.ofNat 16 (c.toNat - 'A'.toNat + 10))
  else none

/-- Validate a hash, ignoring case. -/
def TorrentHash.parse (hash : String) : Option TorrentHash :=
  (hash.toList.mapM hexValue).bind fun digits =>
    if h : digits.length = 40 ∨ digits.length = 64 then some ⟨digits, h⟩ else none

/-- The hash in lowercase hexadecimal. -/
def TorrentHash.asStr (hash : TorrentHash) : String :=
  .ofList (hash.digits.map fun d => Nat.digitChar d.val)

def Identity.new : Option MamTorrentId → Option TorrentHash → Option Identity
  | some id, some hash => some (.linked id hash)
  | some id, none => some (.mam id)
  | none, some hash => some (.client hash)
  | none, none => none

/-- qBittorrent's state names, from 4.x `paused*` to 5.x `stopped*`. -/
def torrentState : String → TorrentState
  | "metaDL" | "forcedMetaDL" => .fetchingMetadata
  | "allocating" | "downloading" | "forcedDL" => .downloading
  | "stalledDL" => .downloadStalled
  | "queuedDL" => .downloadQueued
  | "uploading" | "forcedUP" => .seeding
  | "stalledUP" => .seedStalled
  | "queuedUP" => .seedQueued
  | "pausedUP" | "stoppedUP" => .stopped .complete
  | "pausedDL" | "stoppedDL" => .stopped .incomplete
  | "checkingUP" | "checkingDL" | "checkingResumeData" => .checking
  | "moving" => .moving
  | "missingFiles" => .missingFiles
  | "error" => .error
  | _ => .unknown

/-- A qBittorrent state name that reads back as the same state. -/
def stateName : TorrentState → String
  | .fetchingMetadata => "metaDL"
  | .downloading => "downloading"
  | .downloadStalled => "stalledDL"
  | .downloadQueued => "queuedDL"
  | .seeding => "uploading"
  | .seedStalled => "stalledUP"
  | .seedQueued => "queuedUP"
  | .stopped .complete => "stoppedUP"
  | .stopped .incomplete => "stoppedDL"
  | .checking => "checkingDL"
  | .moving => "moving"
  | .missingFiles => "missingFiles"
  | .error => "error"
  | .unknown => "unknown"

/-! ## Reading -/

inductive StorageError
  | sqlite
  | outOfRange
  | emptyText
  | invalidData (detail : String)

abbrev StorageResult := Except StorageError

section
variable {α : Type}

def orFail (error : StorageError) : Option α → StorageResult α
  | some a => .ok a
  | none => .error error

def invalidData (detail : String) : Option α → StorageResult α := orFail (.invalidData detail)

def column (row : Row) (i : Nat) (read : Value → Option α) : StorageResult α :=
  orFail .sqlite (row.get i read)

/-- A column that may be null, parsed into its type. -/
def parsed {β : Type} (row : Row) (i : Nat) (read : Value → Option α) (parse : α → StorageResult β) :
    StorageResult (Option β) := do
  match ← column row i (Value.optional read) with
  | some value => some <$> parse value
  | none => return none

end

def textColumn (row : Row) (i : Nat) : StorageResult (Option NonEmpty) :=
  parsed row i Value.asText fun text => orFail .emptyText (nonEmpty text)

def observation (row : Row) (lastSeen : Int) : StorageResult Observation := do
  let count (i : Nat) : StorageResult Nat :=
    do orFail .outOfRange (u64TryFrom (← column row i Value.asInteger))
  let time (i : Nat) : StorageResult (Option SystemTime) :=
    parsed row i Value.asInteger fun seconds => invalidData "time out of range" (timeFromSeconds seconds)
  let state ← column row 8 Value.asText
  let permille ← count 9
  let progress ← invalidData "invalid progress"
    (if permille ≤ u16Max then Progress.fromPermille permille else none)
  let name ← textColumn row 7
  let size ← count 10
  let totalSize ← count 11
  let downloaded ← count 12
  let uploaded ← count 13
  let ratio ← count 14
  let seedingTime ← count 15
  let addedAt ← time 16
  let completedAt ← time 17
  let contentPath ← textColumn row 18
  let savePath ← textColumn row 19
  let lastSeen ← invalidData "time out of range" (timeFromSeconds lastSeen)
  -- Whether it is forced is not saved; the client's next full update says.
  return { torrent := { name, state := torrentState state, progress, size, totalSize,
                        downloaded, uploaded, ratio,
                        seedingTime := Duration.fromSecs seedingTime,
                        addedAt, completedAt, contentPath, savePath, forceStart := .notForced }
           lastSeen }

def originNamed : String → Option Origin
  | "bookmark" => some .bookmark
  | "redownload" => some .redownload
  | "adopted" => some .adopted
  | _ => none

def desiredNamed : String → Option Desired
  | "queued" => some .queued
  | "snatched" => some .snatched
  | "active" => some .active
  | "held" => some .held
  | "removed" => some .removed
  | _ => none

def torrentRecord (row : Row) : StorageResult TorrentRecord := do
  let id ← invalidData "invalid torrent row id"
    (((row.get 0 Value.asInteger).bind u64TryFrom).bind RecordId.new)
  let mam ← parsed row 1 Value.asInteger fun mam =>
    invalidData "invalid MAM torrent ID" ((u64TryFrom mam).bind MamTorrentId.new)
  let hash ← parsed row 2 Value.asText fun hash =>
    invalidData "invalid info hash" (TorrentHash.parse hash)
  let identity ← invalidData "torrent row without identity" (Identity.new mam hash)
  let origin ← invalidData "invalid torrent origin" (originNamed (← column row 3 Value.asText))
  let desired ← invalidData "invalid desired torrent state" (desiredNamed (← column row 4 Value.asText))
  let observation ← parsed row 20 Value.asInteger (observation row)
  let savePath ← textColumn row 5
  let deletion := if ← column row 6 Value.asBool then ContentDeletion.allowed else .notAllowed
  return { id, identity, origin, desired, savePath, deletion, observation }

def rowId (row : Row) : Int := (row.get 0 Value.asInteger).getD 0

/-- The rows of the table ordered by id. -/
def readRegistry (table : List Row) : StorageResult (List TorrentRecord) :=
  (orderBy rowId table).mapM torrentRecord

/-! ## Saving -/

def Origin.name : Origin → String
  | .bookmark => "bookmark"
  | .redownload => "redownload"
  | .adopted => "adopted"

def Desired.name : Desired → String
  | .queued => "queued"
  | .snatched => "snatched"
  | .active => "active"
  | .held => "held"
  | .removed => "removed"

/-- The parameters of the statement that saves a row. -/
def TorrentRecord.parameters (record : TorrentRecord) : Row :=
  let torrent := record.observation.map Observation.torrent
  let count (count : Torrent → Nat) : Value :=
    .ofOption (fun torrent => .integer (integer (count torrent))) torrent
  let time (time : Torrent → Option SystemTime) : Value :=
    .ofOption (fun time => .integer (seconds time)) (torrent.bind time)
  [ .integer (integer record.id),
    .ofOption (fun mam : MamTorrentId => .integer (integer mam)) record.identity.mamId,
    .ofOption (fun hash => .text hash.asStr) record.identity.hash,
    .text record.origin.name,
    .text record.desired.name,
    .ofOption (fun path : SavePath => .text path.text) record.savePath,
    .integer (if record.deletion = .allowed then 1 else 0),
    .ofOption (fun name : TorrentName => .text name.text) (torrent.bind Torrent.name),
    .ofOption (fun torrent => .text (stateName torrent.state)) torrent,
    .ofOption (fun torrent => .integer torrent.progress.1) torrent,
    count Torrent.size,
    count Torrent.totalSize,
    count Torrent.downloaded,
    count Torrent.uploaded,
    count Torrent.ratio,
    count fun torrent => torrent.seedingTime.asSecs,
    time Torrent.addedAt,
    time Torrent.completedAt,
    .ofOption (fun path : ContentPath => .text path.text) (torrent.bind Torrent.contentPath),
    .ofOption (fun path : SavePath => .text path.text) (torrent.bind Torrent.savePath),
    .ofOption (fun observation => .integer (seconds observation.lastSeen)) record.observation ]

/-- The checks of the table on a row. -/
def rowAllowed (row : Row) : Bool :=
  ((row.get 3 Value.asText).bind originNamed).isSome &&
  ((row.get 4 Value.asText).bind desiredNamed).isSome &&
    row[6]? != some .null && (row[1]? != some .null || row[2]? != some .null)

/-- The id and the info hash are each unique; an absent info hash equals no other. -/
def sameKey (old row : Row) : Bool := old[0]? == row[0]? || (row[2]? != some .null && old[2]? == row[2]?)

def insertTorrent (table : List Row) (row : Row) : StorageResult (List Row) :=
  if rowAllowed row then .ok (insertOrReplace sameKey table row) else .error .sqlite

/-- The table once the transaction is committed. -/
def saveTorrents (table : List Row) (records : List TorrentRecord) : StorageResult (List Row) :=
  records.foldlM (fun table record => insertTorrent table record.parameters) table

end Windlass
