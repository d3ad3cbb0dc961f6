import Windlass.Codec
import Windlass.Json
import Windlass.Text

/-!
# qBittorrent's web UI

`shell/qbittorrent.rs`: each request of the core becomes calls of the web UI, and
what they answer becomes one event. Text becomes JSON, numbers and addresses as
other crates read them.
-/

namespace Windlass

/-! ## HTTP -/

structure HttpResponse where
  status : HttpStatus
  body : List UInt8

def HttpStatus.isSuccess (s : HttpStatus) : Bool := 200 ≤ s.code && s.code < 300

/-- A call of the web UI; preferences are sent as JSON. -/
inductive HttpCall (F : Type)
  | get (path : String)
  | post (path : String) (form : List (String × String))
  | postPreferences (preferences : List (String × Json.Value F))
  | upload (path fileName mime : String) (file : List UInt8)

/-- The answer to each call, or none from a server that is not reached. -/
abbrev Http (F : Type) := HttpCall F → Option HttpResponse

/-! ## What other crates read -/

/-- JSON from bytes, text from bytes, and the floating-point numbers of type `F`. -/
structure Parsers (F : Type) where
  json : List UInt8 → Option (Json.Value F)
  text : List UInt8 → String
  float : Json.Number F → F
  floatFromText : String → Option F
  progress : F → Option Progress
  ratio : F → Option Ratio
  balance : F → Option Points
  seconds : F → Option Duration
  ip : String → Option IpAddr
  dateTime : String → Option SystemTime

/-! ## Versions -/

def isDigit (c : Char) : Bool := '0' ≤ c && c ≤ '9'

def digitsFrom (n : Nat) : List Char → Option Nat
  | [] => some n
  | c :: cs => if isDigit c then digitsFrom (n * 10 + (c.toNat - '0'.toNat)) cs else none

/-- A number up to `max` in decimal digits, after an optional plus sign. -/
def unsignedFromStr (max : Nat) (text : List Char) : Option Nat :=
  let digits := match text with
    | '+' :: digits => digits
    | digits => digits
  if digits = [] then none else (digitsFrom 0 digits).filter (· ≤ max)

def splitOnDots (text : List Char) : List (List Char) := text.splitOn '.'

def ClientVersion.parse (version : List Char) : Option ClientVersion :=
  let number (part : List Char) : Option Nat := unsignedFromStr u32Max part
  match splitOnDots ((trim version).dropWhile (· == 'v')) with
  | [major, minor] => return ⟨← number major, ← number minor, 0⟩
  | [major, minor, patch] => return ⟨← number major, ← number minor, ← number patch⟩
  | _ => none

/-- A trimmed text that is not empty. -/
def trimmed (text : String) : Option String :=
  let text := trim text.toList
  if text = [] then none else some (.ofList text)

/-- Read the version text; blank text is no version. -/
def ReportedVersion.parse (text : String) : Option ReportedVersion :=
  match ClientVersion.parse text.toList with
  | some version => some (.release version)
  | none => (trimmed text).map .unrecognised

/-! ## Preferences -/

def Port.new (number : Nat) : Option Port :=
  if h : 0 < number ∧ number ≤ u16Max then some ⟨number, h⟩ else none

structure RawPreferences where
  listenPort : Option Nat
  currentNetworkInterface : Option String
  queueingEnabled : Option Bool
  maxActiveDownloads : Option Int
  maxActiveTorrents : Option Int
  maxActiveUploads : Option Int
  dontCountSlowTorrents : Option Bool

section
variable {F : Type}

def u16? (v : Json.Value F) : Option Nat := v.u64?.filter (· ≤ u16Max)

def RawPreferences.read (v : Json.Value F) : Option RawPreferences := do
  let field ← v.record ["listen_port", "current_network_interface", "queueing_enabled",
    "max_active_downloads",
    "max_active_torrents", "max_active_uploads", "dont_count_slow_torrents"]
  return { listenPort := ← (field "listen_port").optional u16?
           currentNetworkInterface := ← (field "current_network_interface").optional Json.Value.text?
           queueingEnabled := ← (field "queueing_enabled").optional Json.Value.bool?
           maxActiveDownloads := ← (field "max_active_downloads").optional Json.Value.i64?
           maxActiveTorrents := ← (field "max_active_torrents").optional Json.Value.i64?
           maxActiveUploads := ← (field "max_active_uploads").optional Json.Value.i64?
           dontCountSlowTorrents := ← (field "dont_count_slow_torrents").optional Json.Value.bool? }

abbrev QbittorrentOutcome := Except QbittorrentFailure

def understood {α : Type} : Option α → QbittorrentOutcome α
  | some a => .ok a
  | none => .error .malformed

/-- qBittorrent reports -1 for no limit. -/
def QueueLimit.read (limit : Int) : QbittorrentOutcome QueueLimit :=
  if limit = -1 then .ok .unlimited else understood ((u32TryFrom limit).map .at')

/-- The queue, when qBittorrent reports it: all of it, or none of it. -/
def RawPreferences.queue (raw : RawPreferences) : QbittorrentOutcome (Option QueuePreferences) :=
  match raw.queueingEnabled, raw.maxActiveDownloads, raw.maxActiveTorrents, raw.maxActiveUploads,
    raw.dontCountSlowTorrents with
  | none, none, none, none, none => .ok none
  | some queueing, some downloading, some active, some seeding, some slow => do
    return some
      { queueing := if queueing then .on else .off
        maxDownloading := ← QueueLimit.read downloading
        maxActive := ← QueueLimit.read active
        maxSeeding := ← QueueLimit.read seeding
        idle := if slow then .notCounted else .counted }
  | _, _, _, _, _ => .error .malformed

def RawPreferences.intoPreferences (raw : RawPreferences) :
    QbittorrentOutcome QbittorrentPreferences := do
  let queue ← raw.queue
  let interface ← match raw.currentNetworkInterface.filter (· ≠ "") with
    | some interface => understood ((trimmed interface).map some)
    | none => .ok none
  return { listenPort := raw.listenPort.bind Port.new, interface := interface, queue := queue }

/-- A queue limit as qBittorrent takes it: -1 for no limit. -/
def queueLimit : QueueLimit → Int
  | .unlimited => -1
  | .at' count => count

/-- The queue as it is sent to qBittorrent. -/
def QueuePreferences.written (queue : QueuePreferences) : List (String × Json.Value F) :=
  [("queueing_enabled", .bool (queue.queueing == .on)),
    ("max_active_downloads", .int (queueLimit queue.maxDownloading)),
    ("max_active_torrents", .int (queueLimit queue.maxActive)),
    ("max_active_uploads", .int (queueLimit queue.maxSeeding)),
    ("dont_count_slow_torrents", .bool (queue.idle == .notCounted))]

/-! ## Updates -/

/-- An update; qBittorrent leaves out what did not change, so an absent
`full_update` means a partial update, and absent lists mean none. -/
structure RawSync (F : Type) where
  rid : Nat
  fullUpdate : Bool
  torrents : List (String × Json.Value F)
  torrentsRemoved : List String

def RawSync.read (v : Json.Value F) : Option (RawSync F) := do
  let field ← v.record ["rid", "full_update", "torrents", "torrents_removed"]
  return { rid := ← (field "rid").required Json.Value.u64?
           fullUpdate := ← (field "full_update").orElse false Json.Value.bool?
           torrents := ← (field "torrents").orElse [] Json.Value.map?
           torrentsRemoved := ← (field "torrents_removed").orElse [] (Json.Value.list Json.Value.text?) }

/-- A torrent's changed fields. A field qBittorrent leaves out is unchanged;
one it sends must hold a value of its type. -/
structure RawTorrent (F : Type) where
  name : Option String
  state : Option String
  progress : Option F
  size : Option Nat
  totalSize : Option Nat
  completed : Option Nat
  uploaded : Option Nat
  ratio : Option F
  seedingTime : Option Nat
  addedOn : Option Int
  completionOn : Option Int
  contentPath : Option String
  savePath : Option String
  forceStart : Option Bool

def rawTorrentFields : List String :=
  ["name", "state", "progress", "size", "total_size", "completed", "uploaded", "ratio",
    "seeding_time", "added_on",
    "completion_on", "content_path", "save_path", "force_start"]

variable (p : Parsers F)

def RawTorrent.read (v : Json.Value F) : Option (RawTorrent F) := do
  let field ← v.record rawTorrentFields
  return { name := ← (field "name").optional Json.Value.text?
           state := ← (field "state").optional Json.Value.text?
           progress := ← (field "progress").optional (Json.Value.float? p.float)
           size := ← (field "size").optional Json.Value.u64?
           totalSize := ← (field "total_size").optional Json.Value.u64?
           completed := ← (field "completed").optional Json.Value.u64?
           uploaded := ← (field "uploaded").optional Json.Value.u64?
           ratio := ← (field "ratio").optional (Json.Value.float? p.float)
           seedingTime := ← (field "seeding_time").optional Json.Value.u64?
           addedOn := ← (field "added_on").optional Json.Value.i64?
           completionOn := ← (field "completion_on").optional Json.Value.i64?
           contentPath := ← (field "content_path").optional Json.Value.text?
           savePath := ← (field "save_path").optional Json.Value.text?
           forceStart := ← (field "force_start").optional Json.Value.bool? }

/-- Times are 0, -1, or 2^32 - 1 when not known. -/
def reportedTime (seconds : Int) : Option (Option SystemTime) :=
  if seconds = -1 ∨ seconds = 0 ∨ seconds = u32Max then some none
  else if 0 ≤ seconds then (SystemTime.checkedAdd 0 (Duration.fromSecs seconds.toNat)).map some
  else none

def ForceStart.ofBool (forced : Bool) : ForceStart := if forced then .forced else .notForced

/-- A field that is given must be understood. -/
def given {α β : Type} (read : α → Option β) : Option α → QbittorrentOutcome (Option β)
  | none => .ok none
  | some a => understood ((read a).map some)

def torrentUpdate (fields : Json.Value F) : QbittorrentOutcome TorrentUpdate := do
  let raw ← understood (RawTorrent.read p fields)
  return { name := ← given (fun name => (nonEmpty name).map some) raw.name
           state := raw.state.map torrentState
           progress := ← given p.progress raw.progress
           size := raw.size
           totalSize := raw.totalSize
           downloaded := raw.completed
           uploaded := raw.uploaded
           ratio := ← given p.ratio raw.ratio
           seedingTime := raw.seedingTime.map Duration.fromSecs
           addedAt := ← given reportedTime raw.addedOn
           completedAt := ← given reportedTime raw.completionOn
           contentPath := raw.contentPath.map nonEmpty
           savePath := raw.savePath.map nonEmpty
           forceStart := raw.forceStart.map ForceStart.ofBool }

def readHash (hash : String) : QbittorrentOutcome TorrentHash := understood (TorrentHash.parse hash)

def updateEntry (e : String × Json.Value F) : QbittorrentOutcome (TorrentHash × TorrentUpdate) := do
  return (← readHash e.1, ← torrentUpdate p e.2)

def RawSync.intoUpdate (raw : RawSync F) : QbittorrentOutcome SyncUpdate := do
  return { position := raw.rid
           scope := if raw.fullUpdate then .full else .changes
           torrents := ← raw.torrents.mapM (updateEntry p)
           removed := ← raw.torrentsRemoved.mapM readHash }

end

/-! ## Requests -/

/-- The requests the core can make of qBittorrent. -/
inductive QbittorrentRequest
  | connect
  | sync (position : SyncPosition)
  | readPreferences
  | setListenPort (port : Port)
  | setQueue (queue : QueuePreferences)
  | command (command : TorrentCommand)

/-- The core event reporting that this request failed. -/
def QbittorrentRequest.failed (reason : QbittorrentFailure) : QbittorrentRequest → QbittorrentEvent
  | .connect => .connectFailed reason
  | .sync _ => .syncFailed reason
  | .readPreferences => .preferencesReadFailed reason
  | .setListenPort _ => .listenPortSetFailed reason
  | .setQueue _ => .queueSetFailed reason
  | .command _ => .commandFailed reason

/-- A client for one qBittorrent web UI, with the torrent files that are kept. -/
structure QbittorrentClient (F : Type) where
  parsers : Parsers F
  http : Http F
  kept : MamTorrentId → Option (List UInt8)

namespace QbittorrentClient

variable {F : Type} (client : QbittorrentClient F)

def call (call : HttpCall F) : QbittorrentOutcome HttpResponse :=
  match client.http call with
  | none => .error .unreachable
  | some response =>
    if response.status.isSuccess then .ok response else .error (.rejected response.status)

def json {α : Type} (path : String) (read : Json.Value F → Option α) : QbittorrentOutcome α := do
  let response ← client.call (.get path)
  understood ((client.parsers.json response.body).bind read)

def preferences : QbittorrentOutcome QbittorrentPreferences := do
  (← client.json "api/v2/app/preferences" RawPreferences.read).intoPreferences

def connect : QbittorrentOutcome QbittorrentEvent := do
  let response ← client.call (.get "api/v2/app/version")
  let version ← understood (ReportedVersion.parse (client.parsers.text response.body))
  return .connected version (← client.preferences)

def sync (position : SyncPosition) : QbittorrentOutcome SyncUpdate := do
  (← client.json s!"api/v2/sync/maindata?rid={position}" RawSync.read).intoUpdate client.parsers

def post (call : HttpCall F) : QbittorrentOutcome Unit := (client.call call).map fun _ => ()

def setListenPort (port : Port) : QbittorrentOutcome Unit :=
  client.post (.postPreferences [("listen_port", .int port.number)])

def setQueue (queue : QueuePreferences) : QbittorrentOutcome Unit :=
  client.post (.postPreferences queue.written)

def hashes (torrents : List TorrentHash) : String := "|".intercalate (torrents.map TorrentHash.asStr)

/-- Add a kept torrent file; qBittorrent starts it at once. -/
def add (mam : MamTorrentId) : QbittorrentOutcome Unit := do
  let file ← understood (client.kept mam)
  client.post (.upload "api/v2/torrents/add" s!"{mam.val}.torrent" "application/x-bittorrent" file)

def command : TorrentCommand → QbittorrentOutcome Unit
  | .start started => client.post (.post "api/v2/torrents/start" [("hashes", hashes started)])
  | .stop stopped => client.post (.post "api/v2/torrents/stop" [("hashes", hashes stopped)])
  | .forceStart forced =>
    client.post (.post "api/v2/torrents/setForceStart" [("hashes", hashes forced), ("value", "true")])
  | .endForceStart released =>
    client.post (.post "api/v2/torrents/setForceStart" [("hashes", hashes released), ("value", "false")])
  | .add mam _ => client.add mam
  | .remove removed =>
    client.post (.post "api/v2/torrents/delete" [("hashes", hashes removed), ("deleteFiles", "true")])
  | .selectAllFiles hash => do
    let files ← client.json s!"api/v2/torrents/files?hash={hash.asStr}" (Json.Value.list some)
    let ids := "|".intercalate ((List.range files.length).map toString)
    client.post (.post "api/v2/torrents/filePrio" [("hash", hash.asStr), ("id", ids), ("priority", "1")])

def perform : QbittorrentRequest → QbittorrentOutcome QbittorrentEvent
  | .connect => client.connect
  | .sync position => (client.sync position).map .synced
  | .readPreferences => client.preferences.map .preferencesRead
  | .setListenPort port => (client.setListenPort port).map fun _ => .listenPortSet
  | .setQueue queue => (client.setQueue queue).map fun _ => .queueSet
  | .command given => (client.command given).map fun _ => .commandDone

end QbittorrentClient

/-- Perform a request; without a configured web UI it fails as unreachable. -/
def QbittorrentRequest.execute {F : Type} (client : Option (QbittorrentClient F))
    (request : QbittorrentRequest) :
    QbittorrentEvent :=
  match client with
  | none => request.failed .unreachable
  | some client =>
    match client.perform request with
    | .ok event => event
    | .error reason => request.failed reason

end Windlass
