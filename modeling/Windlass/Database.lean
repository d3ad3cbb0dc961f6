import Windlass.Schema
import Windlass.Codec
import Windlass.Text
import Windlass.TorrentFile
import Windlass.Event

/-!
# The database

`shell/storage.rs`: every action that reads or writes durable state is an operation
on one database file, done as a whole or not at all, and reported as one event.
-/

namespace Windlass

open Sqlite

/-- What a notice says. -/
structure Message where
  title : String
  body : String
  priority : Nat
  page : String

/-- A row of the table of fetched torrent files, which holds their bytes. -/
structure KeptFile where
  mamId : Int
  hash : String
  file : Bytes

/-- What the database file holds; history has its own writer. -/
structure Database where
  tables : Tables
  userVersion : Int
  files : List KeptFile

inductive Operation
  | openStorage (mode : StartupMode)
  | readMamRequestMode
  | writeMamRequestMode (mode : MamRequestMode)
  | deleteMamRequestMode
  | readSettings
  | writeHistoryLimit (limit : HistoryLimit)
  | writeApiCookie (cookie : Option ApiCookie)
  | writeNtfyTopic (topic : Option NtfyTopic)
  | readTorrentRegistry
  | saveTorrents (records : List TorrentRecord)
  | readLastVpnSwitch
  | saveVpnSwitch (switch : VpnSwitch)
  | writePointsReserve (reserve : PointsReserve)
  | writeTorrentLimits (limits : TorrentLimits)
  | writeRotatedApiCookie (cookie : ApiCookie)
  | readMamState
  | saveRegistrationAttempt (at' : SystemTime)
  | saveReminder (at' : SystemTime)
  | saveRatioGuard (guard : SavedRatioGuard)
  | readNoticeLog
  | saveNotice (entry : Logged) (forgetThrough : Option NoticeId)

/-- The event that reports that an operation failed. -/
def Operation.failure : Operation → Event
  | .openStorage _ => .startup .storageOpenFailed
  | .readMamRequestMode => .mamPause .readFailed
  | .writeMamRequestMode _ => .mamPause .writeFailed
  | .deleteMamRequestMode => .mamPause .deleteFailed
  | .readSettings => .settings .readFailed
  | .writeHistoryLimit _ => .settings .historyLimitWriteFailed
  | .writeApiCookie _ => .settings .apiCookieWriteFailed
  | .writeNtfyTopic _ => .settings .ntfyTopicWriteFailed
  | .readTorrentRegistry => .registry .readFailed
  | .saveTorrents _ => .registry .saveFailed
  | .readLastVpnSwitch => .tunnel .lastSwitchReadFailed
  | .saveVpnSwitch _ => .tunnel .switchSaveFailed
  | .writePointsReserve _ => .settings .pointsReserveWriteFailed
  | .writeTorrentLimits _ => .settings .torrentLimitsWriteFailed
  | .writeRotatedApiCookie _ => .settings .rotatedApiCookieWriteFailed
  | .readMamState => .mam .stateReadFailed
  | .saveRegistrationAttempt _ => .mam .registrationAttemptSaveFailed
  | .saveReminder _ => .mam .reminderSaveFailed
  | .saveRatioGuard _ => .mam .ratioGuardSaveFailed
  | .readNoticeLog => .notification .logReadFailed
  | .saveNotice .. => .notification .saveFailed

/-! ## Statements -/

/-- The one row of a table that holds a single row. -/
def singleton : String × Value := ("singleton", .integer 1)

def optionalInteger : Value → Option (Option Int) := Value.optional Value.asInteger

def optionalText : Value → Option (Option String) := Value.optional Value.asText

section
variable (db : Database)

/-- One statement that writes the single row of a table. -/
def Database.write (table : String) (given : List (String × Value)) (event : Event) :
    Option (Database × Event) :=
  (db.tables.upsert table singleton given).map fun tables => ({ db with tables := tables }, event)

def modeName : MamRequestMode → String
  | .paused => "paused"
  | .enabled => "enabled"

def modeNamed : String → Option MamRequestMode
  | "paused" => some .paused
  | "enabled" => some .enabled
  | _ => none

def Database.readMode : Option Event := do
  let stored ← db.tables.select "mam_configuration" ["request_mode"] singleton
  let mode ← stored.mapM fun row => (row.get 0 Value.asText).bind modeNamed
  return .mamPause (.read mode)

def Database.delete : Option (Database × Event) :=
  (db.tables.change "mam_configuration" fun t => some (t.delete (t.at singleton))).map fun tables =>
    ({ db with tables := tables }, .mamPause .deleted)

/-! ## Settings -/

def settingColumns : List String :=
  ["history_limit", "api_cookie", "ntfy_topic", "points_reserve", "max_downloading", "max_active"]

def readTorrentLimits (downloading active : Int) : Option TorrentLimits := do
  let downloading ← (u32TryFrom downloading).bind DownloadingLimit.tryNew
  let active ← (u32TryFrom active).bind ActiveLimit.tryNew
  TorrentLimits.new downloading active

def Database.readSettings : Option Event := do
  let stored ← db.tables.select "settings" settingColumns singleton
  let row := stored.getD (settingColumns.map fun _ => .null)
  let limit ← row.get 0 optionalInteger
  let cookie ← row.get 1 optionalText
  let topic ← row.get 2 optionalText
  let reserve ← row.get 3 optionalInteger
  let downloading ← row.get 4 optionalInteger
  let active ← row.get 5 optionalInteger
  let historyLimit ← limit.mapM fun limit => (u32TryFrom limit).bind HistoryLimit.tryNew
  let apiCookie ← cookie.mapM fun cookie => (ApiCookie.parse cookie).toOption
  let ntfyTopic ← topic.mapM fun topic => (NtfyTopic.parse topic).toOption
  let pointsReserve ← reserve.mapM fun reserve => (u64TryFrom reserve).bind PointsReserve.tryNew
  let torrentLimits ←
    match downloading, active with
    | some downloading, some active => (readTorrentLimits downloading active).map some
    | _, _ => some none
  return .settings (.read historyLimit apiCookie ntfyTopic pointsReserve torrentLimits)

def Database.writeApiCookie (cookie : Option ApiCookie) (event : Event) : Option (Database × Event) :=
  db.write "settings" [("api_cookie", .ofOption (fun cookie => .text cookie.value) cookie)] event

/-! ## MAM state -/

def mamColumns : List String :=
  ["last_registration_at", "last_reminder_at", "downloaded_watched", "ratio_used_at",
    "ratio_used_downloaded"]

def readRatioGuard : Option Int → Option Int → Option Int → Option SavedRatioGuard
  | none, none, none => some .unset
  | some watched, none, none => (u64TryFrom watched).map .watching
  | some before, some usedAt, some after => do
    let before ← u64TryFrom before
    let after ← u64TryFrom after
    let usedAt ← timeFromSeconds usedAt
    return .tripped { before := before, after := after, at' := usedAt }
  | _, _, _ => none

def Database.readMamState : Option Event := do
  let stored ← db.tables.select "mam_state" mamColumns singleton
  let row := stored.getD (mamColumns.map fun _ => .null)
  let registration ← row.get 0 optionalInteger
  let reminder ← row.get 1 optionalInteger
  let watched ← row.get 2 optionalInteger
  let usedAt ← row.get 3 optionalInteger
  let usedDownloaded ← row.get 4 optionalInteger
  let ratioGuard ← readRatioGuard watched usedAt usedDownloaded
  let lastRegistration ← registration.mapM timeFromSeconds
  let lastReminder ← reminder.mapM timeFromSeconds
  return .mam (.stateRead lastRegistration lastReminder ratioGuard)

/-- What a ratio guard is saved as, column by column. -/
def SavedRatioGuard.given (guard : SavedRatioGuard) : List (String × Value) :=
  let (watched, usedAt, usedDownloaded) :=
    match guard with
    | .unset => (Value.null, Value.null, Value.null)
    | .watching watched => (.integer (integer watched), .null, .null)
    | .tripped used =>
      (.integer (integer used.before), .integer (seconds used.at'), .integer (integer used.after))
  [("downloaded_watched", watched), ("ratio_used_at", usedAt), ("ratio_used_downloaded", usedDownloaded)]

def Database.saveMamTime (column : String) (at' : SystemTime) (event : Event) :
    Option (Database × Event) :=
  db.write "mam_state" [(column, .integer (seconds at'))] event

/-! ## VPN switches -/

def Database.readLastSwitch : Option Event := do
  let stored ← db.tables.select "vpn_state" ["last_switch_server", "last_switch_at"] singleton
  let lastSwitch ← stored.mapM fun row => do
    let server ← (row.get 0 Value.asText).bind VpnServer.tryNew
    let at' ← (row.get 1 Value.asInteger).bind timeFromSeconds
    return { server := server, at' := at' : VpnSwitch }
  return .tunnel (.lastSwitchRead lastSwitch)

/-! ## The notices log -/

/-- A stored notice id; ids count from 1. -/
def noticeId (id : Int) : Option NoticeId :=
  (u64TryFrom id).bind fun id => if h : 0 < id then some ⟨id, h⟩ else none

def Table.integers (t : Table) (column : String) : List Int :=
  t.rows.filterMap fun row => (t.cell row column).asInteger

def Database.readNoticeLog : Option Event := do
  let last ← db.tables.query "notices" fun t => some (Table.integers t "id").max?
  let last ← last.mapM noticeId
  return .notification (.logRead last)

section
variable (message : Notice → Message)

def Logged.given (entry : Logged) : List (String × Value) :=
  [("id", .integer (integer entry.id)), ("at", .integer (seconds entry.at')),
    ("urgent", .integer (if entry.reach = .push then 1 else 0)),
    ("title", .text (message entry.notice).title),
    ("body", .text (message entry.notice).body), ("page", .text (message entry.notice).page)]

/-- Save a notice's words, and forget the oldest ones. -/
def saveNotice (t : Table) (entry : Logged) (forgetThrough : Option NoticeId) : Option Table :=
  (t.insert (entry.given message)).map fun t =>
    match forgetThrough with
    | some through => t.delete fun row => (t.cell row "id").le (.integer (integer through))
    | none => t

/-! ## Kept torrent files -/

/-- Keep a fetched torrent file until qBittorrent has it. -/
def Database.keepTorrentFile (mam : MamTorrentId) (hash : TorrentHash) (file : Bytes) : Option Database :=
  (db.tables "torrent_files").map fun _ =>
    { db with
      files := insertOrReplace (fun old new => old.mamId == new.mamId) db.files
        { mamId := integer mam, hash := hash.asStr, file := file } }

def Database.keptTorrentFile (mam : MamTorrentId) : Option Bytes :=
  (db.tables "torrent_files").bind fun _ =>
    (db.files.find? fun kept => kept.mamId == integer mam).map KeptFile.file

end

end

/-! ## Opening -/

/-- New storage is created as a file of its own, so an instance is never overwritten;
existing storage is brought to the version of this build. -/
def openStorage (file : Option Database) : StartupMode → Option (Database × Event)
  | .initialise =>
    match file with
    | some _ => none
    | none =>
      (runAll (fun _ => none) (schemaV1 ++ upgrades.flatten)).map fun tables =>
        ({ tables := tables, userVersion := schemaVersion, files := [] }, .startup .storageOpened)
  | .resume => do
    let db ← file
    let _ ← db.tables.query "mam_configuration" fun t =>
      if t.schema.has ["request_mode"] then some () else none
    if schemaVersion < db.userVersion then none
    else
      -- Version 0 is version 1 written before versions were recorded.
      let applied := (max db.userVersion 1 - 1).toNat
      (runAll db.tables (upgrades.drop applied).flatten).map fun tables =>
        ({ db with tables := tables, userVersion := schemaVersion }, .startup .storageOpened)

section
variable (message : Notice → Message)

def Database.perform (db : Database) : Operation → Option (Database × Event)
  | .openStorage mode => openStorage (some db) mode
  | .readMamRequestMode => db.readMode.map (db, ·)
  | .writeMamRequestMode mode =>
    db.write "mam_configuration" [("request_mode", .text (modeName mode))] (.mamPause .written)
  | .deleteMamRequestMode => db.delete
  | .readSettings => db.readSettings.map (db, ·)
  | .writeHistoryLimit limit =>
    db.write "settings" [("history_limit", .integer limit.entries)] (.settings .historyLimitWritten)
  | .writeApiCookie cookie => db.writeApiCookie cookie (.settings .apiCookieWritten)
  | .writeNtfyTopic topic =>
    db.write "settings" [("ntfy_topic", .ofOption (fun topic => .text topic.value) topic)]
      (.settings .ntfyTopicWritten)
  | .readTorrentRegistry =>
    (db.tables "torrents").bind fun t => (readRegistry t.rows).toOption.map fun records =>
      (db, .registry (.read records))
  | .saveTorrents records =>
    (db.tables.change "torrents" fun t => (saveTorrents t.rows records).toOption.map fun rows =>
      { t with rows := rows }).map
      fun tables => ({ db with tables := tables }, .registry .saved)
  | .readLastVpnSwitch => db.readLastSwitch.map (db, ·)
  | .saveVpnSwitch switch =>
    db.write "vpn_state" [("last_switch_server", .text switch.server.name),
      ("last_switch_at", .integer (seconds switch.at'))] (.tunnel .switchSaved)
  | .writePointsReserve reserve =>
    db.write "settings" [("points_reserve", .integer (integer reserve.points))]
      (.settings .pointsReserveWritten)
  | .writeTorrentLimits limits =>
    db.write "settings" [("max_downloading", .integer limits.downloading.torrents),
      ("max_active", .integer limits.active.torrents)] (.settings .torrentLimitsWritten)
  | .writeRotatedApiCookie cookie => db.writeApiCookie (some cookie) (.settings .rotatedApiCookieWritten)
  | .readMamState => db.readMamState.map (db, ·)
  | .saveRegistrationAttempt at' =>
    db.saveMamTime "last_registration_at" at' (.mam .registrationAttemptSaved)
  | .saveReminder at' => db.saveMamTime "last_reminder_at" at' (.mam .reminderSaved)
  | .saveRatioGuard guard => db.write "mam_state" guard.given (.mam .ratioGuardSaved)
  | .readNoticeLog => db.readNoticeLog.map (db, ·)
  | .saveNotice entry forgetThrough =>
    (db.tables.change "notices" fun t => saveNotice message t entry forgetThrough).map fun tables =>
      ({ db with tables := tables }, .notification .saved)

/-- Carry an operation out on the database file; one that fails leaves it as it was. -/
def execute (file : Option Database) (operation : Operation) : Option Database × Event :=
  let done :=
    match file, operation with
    | none, .openStorage mode => openStorage none mode
    | none, _ => none
    | some db, operation => db.perform message operation
  match done with
  | some (db, event) => (some db, event)
  | none => (file, operation.failure)

end

end Windlass
