import Windlass.Tables

/-!
# The tables of the database

Each version of the program brought changes to the tables, kept as the statements
that make them from the version before.
-/

namespace Windlass

open Sqlite

/-- The schema version written by this build. -/
def schemaVersion : Int := 10

def isSingleton (read : String → Value) : Bool := read "singleton" == .integer 1

def oneOf (names : List String) (value : Value) : Bool := names.any fun name => value == .text name

/-! ## Tables of a single row -/

def modeSchema : Schema where
  columns := [.nullable "singleton", .required "request_mode"]
  unique := ["singleton"]
  check read := isSingleton read && oneOf ["paused", "enabled"] (read "request_mode")

/-- Settings as version 2 brought them. -/
def settingsSchema : Schema where
  columns := [.nullable "singleton", .nullable "history_limit", .nullable "api_cookie"]
  unique := ["singleton"]
  check := isSingleton

def vpnSchema : Schema where
  columns := [.nullable "singleton", .required "last_switch_server", .required "last_switch_at"]
  unique := ["singleton"]
  check := isSingleton

/-- MAM state as version 6 brought it. -/
def mamStateSchema : Schema where
  columns := [.nullable "singleton", .nullable "last_registration_at", .nullable "last_reminder_at"]
  unique := ["singleton"]
  check := isSingleton

/-! ## Tables of many rows -/

/-- History as version 2 brought it. -/
def historySchema : Schema where
  columns := [.nullable "id", .required "occurred_at_ms", .required "processed_at_ms",
    .required "category",
    .required "summary", .required "event", .required "actions"]
  unique := ["id"]
  check _ := true

def torrentColumns : List String :=
  ["id", "mam_id", "hash", "origin", "desired", "save_path", "deletion_allowed", "name", "state",
    "progress_permille",
    "size", "total_size", "downloaded", "uploaded", "ratio_thousandths", "seeding_seconds",
    "added_at", "completed_at",
    "content_path", "observed_save_path", "last_seen"]

def requiredTorrentColumns : List String := ["origin", "desired", "deletion_allowed"]

/-- Registry rows hold intent, then the latest observation, which is present when
`last_seen` is set. -/
def torrentSchema (desired : List String) : Schema where
  columns := torrentColumns.map fun name =>
    if requiredTorrentColumns.contains name then .required name else .nullable name
  unique := ["id", "hash"]
  check read :=
    oneOf ["bookmark", "redownload", "adopted"] (read "origin") && oneOf desired (read "desired") &&
      (read "mam_id" != .null || read "hash" != .null)

def fileSchema : Schema where
  columns := [.nullable "mam_id", .required "hash", .required "file"]
  unique := ["mam_id"]
  check _ := true

def noticeSchema : Schema where
  columns := [.nullable "id", .required "at", .required "urgent", .required "title",
    .required "body", .required "page"]
  unique := ["id"]
  check _ := true

/-! ## Versions -/

def schemaV1 : List Statement := [.createTable "mam_configuration" modeSchema]

def schemaV2 : List Statement :=
  [.createTable "settings" settingsSchema, .createTable "history" historySchema,
    .createIndex "history" "processed_at_ms"]

def schemaV3 : List Statement :=
  [.addColumn "history" { name := "routine", notNull := true, default := .integer 0 }]

def schemaV4 : List Statement :=
  [.createTable "torrents" (torrentSchema ["queued", "active", "removed"]),
    .createTable "vpn_state" vpnSchema]

def schemaV5 : List Statement := [.addColumn "settings" (.nullable "ntfy_topic")]

/-- A check constraint cannot be changed, so the table is rebuilt under another name. -/
def rebuildTorrents (name : String) (desired : List String) (names : Option (List String)) :
    List Statement :=
  [.createTable name (torrentSchema desired), .insertSelect name names "torrents", .dropTable "torrents",
    .renameTable name "torrents"]

def schemaV6 : List Statement :=
  rebuildTorrents "torrents_v6" ["queued", "active", "held", "removed"] (some torrentColumns) ++
    [.createTable "torrent_files" fileSchema, .createTable "mam_state" mamStateSchema,
      .addColumn "settings" (.nullable "points_reserve")]

def schemaV7 : List Statement :=
  rebuildTorrents "torrents_v7" ["queued", "snatched", "active", "held", "removed"] none

def schemaV8 : List Statement := [.createTable "notices" noticeSchema]

def schemaV9 : List Statement :=
  [.addColumn "settings" (.nullable "max_downloading"), .addColumn "settings" (.nullable "max_active")]

def schemaV10 : List Statement :=
  [.addColumn "mam_state" (.nullable "downloaded_watched"),
    .addColumn "mam_state" (.nullable "ratio_used_at"),
    .addColumn "mam_state" (.nullable "ratio_used_downloaded")]

/-- The changes from each version to the next, starting from version 1. -/
def upgrades : List (List Statement) :=
  [schemaV2, schemaV3, schemaV4, schemaV5, schemaV6, schemaV7, schemaV8, schemaV9, schemaV10]

end Windlass
