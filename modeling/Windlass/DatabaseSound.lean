import Windlass.Database
import Windlass.CodecSound

/-!
# What the database keeps

Storage is meant to hold one value for each thing the core saves. The tables hold
it as columns: every operation on them does to the values, and reports, exactly
what it says, whatever was done before and in whatever order.
-/

namespace Windlass

open Sqlite

/-! ## What is saved -/

structure SavedSettings where
  historyLimit : Option HistoryLimit
  apiCookie : Option ApiCookie
  ntfyTopic : Option NtfyTopic
  pointsReserve : Option PointsReserve
  torrentLimits : Option TorrentLimits

structure SavedMam where
  lastRegistration : Option SystemTime
  lastReminder : Option SystemTime
  ratioGuard : SavedRatioGuard

structure Saved where
  mode : Option MamRequestMode
  settings : SavedSettings
  mam : SavedMam
  lastSwitch : Option VpnSwitch
  torrents : List TorrentRecord
  notices : List Logged

def Saved.nothing : Saved where
  mode := none
  settings := { historyLimit := none, apiCookie := none, ntfyTopic := none, pointsReserve := none,
                torrentLimits := none }
  mam := { lastRegistration := none, lastReminder := none, ratioGuard := .unset }
  lastSwitch := none
  torrents := []
  notices := []

/-- A row is replaced by one with its id or its info hash. -/
def TorrentRecord.replacedBy (old record : TorrentRecord) : Bool :=
  integer old.id == integer record.id ||
  (record.identity.hash.isSome && old.identity.hash == record.identity.hash)

def Saved.taken (s : Saved) (id : NoticeId) : Bool := s.notices.any fun e => integer e.id == integer id

def Saved.log (s : Saved) (entry : Logged) (forgetThrough : Option NoticeId) : Saved :=
  { s with
    notices := (s.notices ++ [entry]).filter fun e =>
      forgetThrough.all fun through => decide (integer through < integer e.id) }

def Saved.after (s : Saved) : Operation → Saved
  | .openStorage
      _ | .readMamRequestMode | .readSettings | .readTorrentRegistry | .readLastVpnSwitch | .readMamState
  | .readNoticeLog => s
  | .writeMamRequestMode mode => { s with mode := some mode }
  | .deleteMamRequestMode => { s with mode := none }
  | .writeHistoryLimit limit => { s with settings := { s.settings with historyLimit := some limit } }
  | .writeApiCookie cookie => { s with settings := { s.settings with apiCookie := cookie } }
  | .writeRotatedApiCookie cookie => { s with settings := { s.settings with apiCookie := some cookie } }
  | .writeNtfyTopic topic => { s with settings := { s.settings with ntfyTopic := topic } }
  | .writePointsReserve reserve =>
    { s with settings := { s.settings with pointsReserve := some reserve } }
  | .writeTorrentLimits limits => { s with settings := { s.settings with torrentLimits := some limits } }
  | .saveTorrents records => { s with torrents := insertAll TorrentRecord.replacedBy s.torrents records }
  | .saveVpnSwitch switch => { s with lastSwitch := some switch }
  | .saveRegistrationAttempt at' => { s with mam := { s.mam with lastRegistration := some at' } }
  | .saveReminder at' => { s with mam := { s.mam with lastReminder := some at' } }
  | .saveRatioGuard guard => { s with mam := { s.mam with ratioGuard := guard } }
  | .saveNotice entry forgetThrough => if s.taken entry.id then s else s.log entry forgetThrough

/-! ## What is read back -/

/-- Times are kept in whole seconds and sizes up to `i64::MAX`. -/
def SavedRatioGuard.stored : SavedRatioGuard → SavedRatioGuard
  | .unset => .unset
  | .watching watched => .watching (min watched i64Max)
  | .tripped used =>
    .tripped { before := min used.before i64Max, after := min used.after i64Max, at' := used.at'.stored }

def VpnSwitch.stored (switch : VpnSwitch) : VpnSwitch := { switch with at' := switch.at'.stored }

def Saved.report (s : Saved) : Operation → Event
  | .openStorage .initialise => .startup .storageOpenFailed
  | .openStorage .resume => .startup .storageOpened
  | .readMamRequestMode => .mamPause (.read s.mode)
  | .writeMamRequestMode _ => .mamPause .written
  | .deleteMamRequestMode => .mamPause .deleted
  | .readSettings =>
    .settings (.read s.settings.historyLimit s.settings.apiCookie s.settings.ntfyTopic
      s.settings.pointsReserve s.settings.torrentLimits)
  | .writeHistoryLimit _ => .settings .historyLimitWritten
  | .writeApiCookie _ => .settings .apiCookieWritten
  | .writeRotatedApiCookie _ => .settings .rotatedApiCookieWritten
  | .writeNtfyTopic _ => .settings .ntfyTopicWritten
  | .writePointsReserve _ => .settings .pointsReserveWritten
  | .writeTorrentLimits _ => .settings .torrentLimitsWritten
  | .readTorrentRegistry =>
    .registry (.read ((orderBy (fun record => integer record.id) s.torrents).map fun record =>
      record.clamped.unforced))
  | .saveTorrents _ => .registry .saved
  | .readLastVpnSwitch => .tunnel (.lastSwitchRead (s.lastSwitch.map VpnSwitch.stored))
  | .saveVpnSwitch _ => .tunnel .switchSaved
  | .readMamState =>
    .mam (.stateRead (s.mam.lastRegistration.map SystemTime.stored)
      (s.mam.lastReminder.map SystemTime.stored) s.mam.ratioGuard.stored)
  | .saveRegistrationAttempt _ => .mam .registrationAttemptSaved
  | .saveReminder _ => .mam .reminderSaved
  | .saveRatioGuard _ => .mam .ratioGuardSaved
  | .readNoticeLog => .notification (.logRead ((s.notices.map fun e => integer e.id).max?.bind noticeId))
  | .saveNotice entry _ => .notification (if s.taken entry.id then .saveFailed else .saved)

/-! ## The columns that hold it -/

def settingsTable : Schema :=
  { settingsSchema with columns := ("singleton" :: settingColumns).map .nullable }

def mamStateTable : Schema := { mamStateSchema with columns := ("singleton" :: mamColumns).map .nullable }

def SavedSettings.cells (s : SavedSettings) : List (String × Value) :=
  [("history_limit", .ofOption (fun limit : HistoryLimit => .integer limit.entries) s.historyLimit),
    ("api_cookie", .ofOption (fun cookie : ApiCookie => .text cookie.value) s.apiCookie),
    ("ntfy_topic", .ofOption (fun topic : NtfyTopic => .text topic.value) s.ntfyTopic),
    ("points_reserve", .ofOption (fun reserve : PointsReserve =>
      .integer (integer reserve.points)) s.pointsReserve),
    ("max_downloading", .ofOption (fun limits : TorrentLimits =>
      .integer limits.downloading.torrents) s.torrentLimits),
    ("max_active", .ofOption (fun limits : TorrentLimits =>
      .integer limits.active.torrents) s.torrentLimits)]

def SavedMam.cells (s : SavedMam) : List (String × Value) :=
  ("last_registration_at", .ofOption (fun at' : SystemTime =>
    .integer (seconds at')) s.lastRegistration) ::
    ("last_reminder_at", .ofOption (fun at' : SystemTime => .integer (seconds at')) s.lastReminder) ::
    s.ratioGuard.given

def MamRequestMode.cells (mode : MamRequestMode) : List (String × Value) :=
  [("request_mode", .text (modeName mode))]

def VpnSwitch.cells (switch : VpnSwitch) : List (String × Value) :=
  [("last_switch_server", .text switch.server.name), ("last_switch_at", .integer (seconds switch.at'))]

def Table.Cells (cells : List (String × Value)) (t : Table) : Prop :=
  ∀ p ∈ cells, t.value singleton p.1 = p.2

def Table.CellsOf (cells : Option (List (String × Value))) (t : Table) : Prop :=
  t.rows.any (t.at singleton) = cells.isSome ∧ ∀ c ∈ cells, Table.Cells c t

def Kept (table : Option Table) (schema : Schema) (p : Table → Prop) : Prop :=
  ∃ t, table = some t ∧ t.schema = schema ∧ t.Sound ∧ p t

/-- Storage can hold the ids of the rows that an operation saves. -/
def Operation.Valid : Operation → Prop
  | .saveTorrents records => ∀ record ∈ records, (record.id : Nat) ≤ i64Max
  | _ => True

instance (operation : Operation) : Decidable operation.Valid := by
  unfold Operation.Valid
  cases operation <;> exact inferInstance

structure Saved.Held (message : Notice → Message) (s : Saved) (db : Database) : Prop where
  ids : ∀ record ∈ s.torrents, (record.id : Nat) ≤ i64Max
  version : db.userVersion = schemaVersion
  mode : Kept (db.tables "mam_configuration") modeSchema (Table.CellsOf (s.mode.map MamRequestMode.cells))
  settings : Kept (db.tables "settings") settingsTable (Table.Cells s.settings.cells)
  mam : Kept (db.tables "mam_state") mamStateTable (Table.Cells s.mam.cells)
  lastSwitch : Kept (db.tables "vpn_state") vpnSchema (Table.CellsOf (s.lastSwitch.map VpnSwitch.cells))
  torrents : ∃ t, db.tables "torrents" = some t ∧ t.rows = s.torrents.map TorrentRecord.parameters
  notices : Kept (db.tables "notices") noticeSchema fun t => t.rows = s.notices.map fun e =>
    noticeSchema.fill (e.given message)

/-! ## Writing the single row of a table -/

section
variable {message : Notice → Message} {s : Saved} {db : Database}

theorem write_value {name : String} {schema : Schema} {given : List (String × Value)} {t : Table}
    (ht : db.tables name = some t) (hs : t.schema = schema) (h : t.Sound)
    (hu : schema.unique = ["singleton"])
    (hd : ∀ c ∈ schema.columns, c.default = .null) (hhas : schema.has ((singleton :: given).map Prod.fst))
    (hn : ((singleton :: given).map Prod.fst).Nodup)
    (hc : ∀ read, (∀ p ∈ singleton :: given, read p.1 = p.2) → schema.passes read = true)
    (event : Event) :
    ∃ t', db.write name given event =
    some ({ db with tables := Function.update db.tables name (some t') }, event) ∧
      t'.schema = schema ∧ t'.Sound ∧ t'.rows.any (t'.at singleton) ∧
      ∀ column ∈ schema.names, column ≠ "singleton" →
        t'.value singleton column = (given.lookup column).getD (t.value singleton column) := by
  subst hs
  obtain ⟨t', hup, hs', hsound, hany, hvalue⟩ := upsert_value h hu hd hhas hn hc
  refine ⟨t', ?_, hs', hsound, hany, hvalue⟩
  unfold Database.write Tables.upsert Tables.change Tables.query
  simp [ht, hup]

theorem settings_passes {given : List (String × Value)} {read : String → Value}
    (h : ∀ p ∈ singleton :: given, read p.1 = p.2) : settingsTable.passes read = true := by
  have hs : read "singleton" = .integer 1 := h singleton (by simp)
  simp [Schema.passes, settingsTable, settingsSchema, Column.nullable, isSingleton, hs]

theorem mamState_passes {given : List (String × Value)} {read : String → Value}
    (h : ∀ p ∈ singleton :: given, read p.1 = p.2) : mamStateTable.passes read = true := by
  have hs : read "singleton" = .integer 1 := h singleton (by simp)
  simp [Schema.passes, mamStateTable, mamStateSchema, Column.nullable, isSingleton, hs]

theorem mode_passes {mode : MamRequestMode} {read : String → Value}
    (h : ∀ p ∈ singleton :: mode.cells, read p.1 = p.2) : modeSchema.passes read = true := by
  have hs : read "singleton" = .integer 1 := h singleton (by simp)
  have hm : read "request_mode" = .text (modeName mode) :=
    h ("request_mode", _) (by simp [MamRequestMode.cells])
  cases mode <;> simp [Schema.passes, modeSchema, Column.nullable, Column.required, isSingleton,
    oneOf, hs, hm, modeName]

theorem vpn_passes {switch : VpnSwitch} {read : String → Value}
    (h : ∀ p ∈ singleton :: switch.cells, read p.1 = p.2) : vpnSchema.passes read = true := by
  have hs : read "singleton" = .integer 1 := h singleton (by simp)
  have hserver : read "last_switch_server" = .text switch.server.name :=
    h (_, _) (by simp [VpnSwitch.cells])
  have hat : read "last_switch_at" = .integer (seconds switch.at') := h (_, _) (by simp [VpnSwitch.cells])
  simp [Schema.passes, vpnSchema, Column.nullable, Column.required, isSingleton, hs, hserver, hat]

theorem cells_written {name : String} {schema : Schema} {given cells cells' : List (String × Value)}
    (h : Kept (db.tables name) schema (Table.Cells cells)) (hu : schema.unique = ["singleton"])
    (hd : ∀ c ∈ schema.columns, c.default = .null) (hhas : schema.has ((singleton :: given).map Prod.fst))
    (hn : ((singleton :: given).map Prod.fst).Nodup)
    (hc : ∀ read, (∀ p ∈ singleton :: given, read p.1 = p.2) → schema.passes read = true)
    (hnames : ∀ n ∈ cells.map Prod.fst, n ∈ schema.names ∧ n ≠ "singleton")
    (hcells : cells' = cells.map fun p => (p.1, (given.lookup p.1).getD p.2)) (event : Event) :
    ∃ t', db.write name given event =
    some ({ db with tables := Function.update db.tables name (some t') }, event) ∧
      Kept (some t') schema (Table.Cells cells') := by
  obtain ⟨t, ht, hs, hsound, hold⟩ := h
  obtain ⟨t', hw, hs', hsound', -, hvalue⟩ := write_value ht hs hsound hu hd hhas hn hc event
  refine ⟨t', hw, t', rfl, hs', hsound', ?_⟩
  intro p hp
  rw [hcells] at hp
  obtain ⟨q, hq, rfl⟩ := List.mem_map.mp hp
  obtain ⟨hname, hne⟩ := hnames q.1 (List.mem_map_of_mem hq)
  rw [hvalue q.1 hname hne, hold q hq]

theorem row_written {name : String} {schema : Schema} (cells : List (String × Value)) {p : Table → Prop}
    (h : Kept (db.tables name) schema p) (hu : schema.unique = ["singleton"])
    (hd : ∀ c ∈ schema.columns, c.default = .null) (hhas : schema.has ((singleton :: cells).map Prod.fst))
    (hn : ((singleton :: cells).map Prod.fst).Nodup)
    (hc : ∀ read, (∀ p ∈ singleton :: cells, read p.1 = p.2) → schema.passes read = true)
    (hcells : ∀ p ∈ cells, p.1 ∈ schema.names ∧ p.1 ≠ "singleton" ∧ cells.lookup p.1 = some p.2)
    (event : Event) :
    ∃ t', db.write name cells event =
    some ({ db with tables := Function.update db.tables name (some t') }, event) ∧
      Kept (some t') schema (Table.CellsOf (some cells)) := by
  obtain ⟨t, ht, hs, hsound, -⟩ := h
  obtain ⟨t', hw, hs', hsound', hany, hvalue⟩ := write_value ht hs hsound hu hd hhas hn hc event
  refine ⟨t', hw, t', rfl, hs', hsound', hany, ?_⟩
  intro c hc p hp
  cases hc
  obtain ⟨hname, hne, hlookup⟩ := hcells p hp
  rw [hvalue p.1 hname hne, hlookup]
  rfl

theorem settings_written (h : s.Held message db) (given : List (String × Value))
    (settings : SavedSettings)
    (hhas : settingsTable.has ((singleton :: given).map Prod.fst))
    (hn : ((singleton :: given).map Prod.fst).Nodup)
    (hcells : settings.cells = s.settings.cells.map fun p => (p.1, (given.lookup p.1).getD p.2))
    (event : Event) :
    ∃ db', db.write "settings" given event = some (db', event) ∧
      ({ s with settings := settings } : Saved).Held message db' := by
  have hnames : ∀ n ∈ s.settings.cells.map Prod.fst, n ∈ settingsTable.names ∧ n ≠ "singleton" := by
    change ∀ n ∈ settingColumns, _
    decide
  obtain ⟨t', hw, ht'⟩ :=
    cells_written h.settings rfl (by decide) hhas hn (fun read => settings_passes) hnames hcells event
  refine ⟨_, hw, ⟨h.ids, h.version, ?_, by simpa using ht', ?_, ?_, ?_, ?_⟩⟩
  · simpa using h.mode
  · simpa using h.mam
  · simpa using h.lastSwitch
  · simpa using h.torrents
  · simpa using h.notices

theorem mam_written (h : s.Held message db) (given : List (String × Value)) (mam : SavedMam)
    (hhas : mamStateTable.has ((singleton :: given).map Prod.fst))
    (hn : ((singleton :: given).map Prod.fst).Nodup)
    (hcells : mam.cells = s.mam.cells.map fun p => (p.1, (given.lookup p.1).getD p.2)) (event : Event) :
    ∃ db', db.write "mam_state" given event = some (db', event) ∧
    ({ s with mam := mam } : Saved).Held message db' := by
  have hnames : ∀ n ∈ s.mam.cells.map Prod.fst, n ∈ mamStateTable.names ∧ n ≠ "singleton" := by
    change ∀ n ∈ mamColumns, _
    decide
  obtain ⟨t', hw, ht'⟩ :=
    cells_written h.mam rfl (by decide) hhas hn (fun read => mamState_passes) hnames hcells event
  refine ⟨_, hw, ⟨h.ids, h.version, ?_, ?_, by simpa using ht',
    ?_, ?_, ?_⟩⟩
  · simpa using h.mode
  · simpa using h.settings
  · simpa using h.lastSwitch
  · simpa using h.torrents
  · simpa using h.notices

theorem mode_written (h : s.Held message db) (mode : MamRequestMode) (event : Event) :
    ∃ db', db.write "mam_configuration" mode.cells event = some (db', event) ∧
      ({ s with mode := some mode } : Saved).Held message db' := by
  obtain ⟨t', hw, ht'⟩ :=
    row_written mode.cells h.mode rfl (by decide) rfl (by simp [MamRequestMode.cells, singleton])
      (fun read => mode_passes)
      (by simp [MamRequestMode.cells, modeSchema, Schema.names, Column.required]) event
  refine ⟨_, hw, ⟨h.ids, h.version, by simpa using ht', ?_, ?_, ?_, ?_, ?_⟩⟩
  · simpa using h.settings
  · simpa using h.mam
  · simpa using h.lastSwitch
  · simpa using h.torrents
  · simpa using h.notices

theorem switch_written (h : s.Held message db) (switch : VpnSwitch) (event : Event) :
    ∃ db', db.write "vpn_state" switch.cells event = some (db', event) ∧
      ({ s with lastSwitch := some switch } : Saved).Held message db' := by
  obtain ⟨t', hw, ht'⟩ :=
    row_written switch.cells h.lastSwitch rfl (by decide) rfl (by simp [VpnSwitch.cells, singleton])
      (fun read => vpn_passes)
      (by simp [VpnSwitch.cells, vpnSchema, Schema.names, Column.required, List.lookup]) event
  refine ⟨_, hw, ⟨h.ids, h.version, ?_, ?_, ?_, by simpa using ht', ?_, ?_⟩⟩
  · simpa using h.mode
  · simpa using h.settings
  · simpa using h.mam
  · simpa using h.torrents
  · simpa using h.notices

/-! ## Reading the single row of a table -/

theorem mapM_read_back {α β : Type} {f : β → α} {parse : α → Option β} {o : Option β}
    (h : ∀ b ∈ o, parse (f b) = some b) :
    (o.map f).mapM parse = some o := by
  cases o with
  | none => rfl
  | some b => simp [h b rfl]

theorem selected_row {names : List String} {t : Table} :
    (if t.rows.any (t.at singleton) then some (names.map (t.value singleton)) else none).getD
        (names.map fun _ => .null) =
      names.map (t.value singleton) := by
  by_cases hany : t.rows.any (t.at singleton)
  · rw [if_pos hany]
    rfl
  · have hfind : t.rows.find? (t.at singleton) = none := by
      rw [List.find?_eq_none]
      intro row hr hrow
      exact hany (List.any_eq_true.mpr ⟨row, hr, hrow⟩)
    rw [if_neg hany]
    exact List.map_congr_left fun name _ => by simp [Table.value, hfind]

theorem select_cells {name : String} {schema : Schema} {cells : List (String × Value)}
    (h : Kept (db.tables name) schema (Table.Cells cells))
    (hhas : schema.has ("singleton" :: cells.map Prod.fst)) :
    ∃ stored, db.tables.select name (cells.map Prod.fst) singleton = some stored ∧
      stored.getD ((cells.map Prod.fst).map fun _ => .null) = cells.map Prod.snd := by
  obtain ⟨t, ht, rfl, -, hcells⟩ := h
  have hselect : db.tables.select name (cells.map Prod.fst) singleton =
      t.select (cells.map Prod.fst) singleton := by
    unfold Tables.select Tables.query
    rw [ht]
    rfl
  refine ⟨_, hselect.trans (select_value hhas), ?_⟩
  rw [selected_row, List.map_map]
  exact List.map_congr_left hcells

theorem select_row {name : String} {schema : Schema} {cells : Option (List (String × Value))}
    (names : List String)
    (h : Kept (db.tables name) schema (Table.CellsOf cells)) (hhas : schema.has ("singleton" :: names))
    (hnames : ∀ c ∈ cells, c.map Prod.fst = names) :
    db.tables.select name names singleton = some (cells.map fun c => c.map Prod.snd) := by
  obtain ⟨t, ht, rfl, -, hany, hcells⟩ := h
  have hselect : db.tables.select name names singleton = t.select names singleton := by
    unfold Tables.select Tables.query
    rw [ht]
    rfl
  rw [hselect, select_value hhas, hany]
  cases cells with
  | none => rfl
  | some c =>
    rw [← hnames c rfl]
    simp only [Option.isSome_some, if_true, Option.map_some, List.map_map]
    exact congrArg _ (congrArg _ (List.map_congr_left (hcells c rfl)))

theorem mode_read (h : s.Held message db) : db.readMode = some (.mamPause (.read s.mode)) := by
  have hselect := select_row ["request_mode"] h.mode rfl (by simp [MamRequestMode.cells])
  unfold Database.readMode
  rw [hselect]
  cases s.mode with
  | none => rfl
  | some mode => cases mode <;> rfl

theorem switch_read (h : s.Held message db) :
    db.readLastSwitch = some (.tunnel (.lastSwitchRead (s.lastSwitch.map VpnSwitch.stored))) := by
  have hselect := select_row ["last_switch_server", "last_switch_at"] h.lastSwitch rfl
    (by simp [VpnSwitch.cells])
  unfold Database.readLastSwitch
  rw [hselect]
  cases s.lastSwitch with
  | none => rfl
  | some switch =>
    simp [VpnSwitch.cells, Row.get, Value.asText, Value.asInteger, timeFromSeconds_seconds,
      VpnSwitch.stored]

theorem limits_read (limits : TorrentLimits) :
    readTorrentLimits limits.downloading.torrents limits.active.torrents = some limits := by
  have hd : limits.downloading.torrents ≤ u32Max := limits.downloading.valid.2.trans (by decide)
  have ha : limits.active.torrents ≤ u32Max := limits.active.valid.2.trans (by decide)
  unfold readTorrentLimits
  simp [u32TryFrom_natCast hd, u32TryFrom_natCast ha]

theorem integer_cell {β : Type} {f : β → Int} (o : Option β) :
    (Value.ofOption (fun b => .integer (f b)) o).optional Value.asInteger = some (o.map f) := by
  cases o <;> rfl

theorem text_cell {β : Type} {f : β → String} (o : Option β) :
    (Value.ofOption (fun b => .text (f b)) o).optional Value.asText = some (o.map f) := by
  cases o <;> rfl

theorem settings_read (h : s.Held message db) :
    db.readSettings = some (.settings
      (.read s.settings.historyLimit s.settings.apiCookie s.settings.ntfyTopic
      s.settings.pointsReserve s.settings.torrentLimits)) := by
  obtain ⟨stored, hselect, hrow⟩ := select_cells h.settings rfl
  have hlimit : (s.settings.historyLimit.map fun l => (l.entries : Int)).mapM
      (fun limit => (u32TryFrom limit).bind HistoryLimit.tryNew) = some s.settings.historyLimit := by
    refine mapM_read_back fun limit _ => ?_
    rw [u32TryFrom_natCast (limit.valid.2.trans (by decide))]
    simp
  have hcookie : (s.settings.apiCookie.map ApiCookie.value).mapM (fun cookie =>
    (ApiCookie.parse cookie).toOption) =
      some s.settings.apiCookie := mapM_read_back fun cookie _ => by rw [apiCookie_parse]; rfl
  have htopic : (s.settings.ntfyTopic.map NtfyTopic.value).mapM (fun topic =>
    (NtfyTopic.parse topic).toOption) =
      some s.settings.ntfyTopic := mapM_read_back fun topic _ => by rw [ntfyTopic_parse]; rfl
  have hreserve : (s.settings.pointsReserve.map fun r => integer r.points).mapM
      (fun reserve => (u64TryFrom reserve).bind PointsReserve.tryNew) =
      some s.settings.pointsReserve := by
    refine mapM_read_back fun reserve _ => ?_
    rw [u64TryFrom_integer (reserve.valid.trans (by decide))]
    simp
  unfold Database.readSettings
  change ((db.tables.select "settings" settingColumns singleton).bind _) = _
  have hselect' : db.tables.select "settings" settingColumns singleton = some stored := hselect
  have hrow' : stored.getD (settingColumns.map fun _ => .null) = s.settings.cells.map Prod.snd := hrow
  rw [hselect', Option.bind_some]
  simp only [hrow']
  simp only [SavedSettings.cells, List.map_cons, List.map_nil, Row.get, List.getElem?_cons_zero,
    List.getElem?_cons_succ,
    Option.bind_some, optionalInteger, optionalText, integer_cell, text_cell]
  cases hl : s.settings.torrentLimits with
  | none => simp [hlimit, hcookie, htopic, hreserve]
  | some limits => simp [hlimit, hcookie, htopic, hreserve, limits_read]

theorem guard_read (guard : SavedRatioGuard) : ∃ watched usedAt usedDownloaded,
    guard.given.map (fun p => p.2.optional Value.asInteger) = [some watched, some usedAt,
      some usedDownloaded] ∧
      readRatioGuard watched usedAt usedDownloaded = some guard.stored := by
  have hmin (n : Nat) : u64TryFrom (integer n) = some (min n i64Max) := by
    rw [← integer_clamped, u64TryFrom_integer (Nat.min_le_right _ _)]
  cases guard with
  | unset => exact ⟨none, none, none, rfl, rfl⟩
  | watching watched =>
    refine ⟨some (integer watched), none, none, rfl, ?_⟩
    simp [readRatioGuard, hmin, SavedRatioGuard.stored]
  | tripped used =>
    refine ⟨some (integer used.before), some (seconds used.at'), some (integer used.after), rfl, ?_⟩
    simp [readRatioGuard, hmin, SavedRatioGuard.stored, timeFromSeconds_seconds]

theorem mamState_read (h : s.Held message db) :
    db.readMamState = some (.mam (.stateRead (s.mam.lastRegistration.map SystemTime.stored)
      (s.mam.lastReminder.map SystemTime.stored) s.mam.ratioGuard.stored)) := by
  obtain ⟨stored, hselect, hrow⟩ := select_cells h.mam rfl
  have htime (o : Option SystemTime) :
      (o.map seconds).mapM timeFromSeconds = some (o.map SystemTime.stored) := by
    cases o with
    | none => rfl
    | some t => simp [timeFromSeconds_seconds]
  obtain ⟨watched, usedAt, usedDownloaded, hguard, hread⟩ := guard_read s.mam.ratioGuard
  have hselect' : db.tables.select "mam_state" mamColumns singleton = some stored := hselect
  have hrow' : stored.getD (mamColumns.map fun _ => .null) = s.mam.cells.map Prod.snd := hrow
  unfold Database.readMamState
  change ((db.tables.select "mam_state" mamColumns singleton).bind _) = _
  rw [hselect', Option.bind_some]
  simp only [hrow']
  have hthree : ∃ a b c, s.mam.ratioGuard.given = [a, b, c] := ⟨_, _, _, rfl⟩
  obtain ⟨a, b, c, hgiven⟩ := hthree
  rw [hgiven] at hguard
  simp only [List.map_cons, List.map_nil, List.cons.injEq, and_true] at hguard
  simp only [SavedMam.cells, hgiven, List.map_cons, List.map_nil, Row.get, List.getElem?_cons_zero,
    List.getElem?_cons_succ, Option.bind_some, optionalInteger, integer_cell, hguard]
  simp [hread, htime]

/-! ## Torrents and notices -/

theorem insertAll_map {α β : Type} {clashes : α → α → Bool} {f : β → α} (table rows : List β) :
    insertAll clashes (table.map f) (rows.map f) =
      (insertAll (fun old row => clashes (f old) (f row)) table rows).map f := by
  rw [insertAll_eq, insertAll_eq, survivors_map, List.map_append, List.filter_map]
  simp [Function.comp_def]

theorem sameKey_replacedBy (old record : TorrentRecord) :
    sameKey old.parameters record.parameters = old.replacedBy record := by
  have hid : (old.parameters[0]? == record.parameters[0]?) = (integer old.id == integer record.id) := by
    change (some (Value.integer (integer old.id)) == some (Value.integer (integer record.id))) = _
    rw [Bool.eq_iff_iff]
    simp
  have hhash : (old.parameters[2]? == record.parameters[2]?) =
      (old.identity.hash == record.identity.hash) := by
    rw [Bool.eq_iff_iff, beq_iff_eq, beq_iff_eq]
    exact (Option.some_inj).trans hashColumn_injective.eq_iff
  have hnull : (record.parameters[2]? != some .null) = record.identity.hash.isSome := by
    change (some (Value.ofOption _ record.identity.hash) != some .null) = _
    cases record.identity.hash <;> rfl
  unfold sameKey TorrentRecord.replacedBy
  rw [hid, hhash, hnull]

theorem torrents_saved (h : s.Held message db) {records : List TorrentRecord}
    (hv : ∀ record ∈ records, (record.id : Nat) ≤ i64Max) :
    ∃ db', db.perform message (.saveTorrents records) = some (db', .registry .saved) ∧
      ({ s with torrents := insertAll TorrentRecord.replacedBy s.torrents records } : Saved).Held
      message db' := by
  obtain ⟨t, ht, hrows⟩ := h.torrents
  have hsaved : db.perform message (.saveTorrents records) =
      some ({ db with tables := Function.update db.tables "torrents" (some { t with
        rows := insertAll sameKey t.rows (records.map TorrentRecord.parameters) }) },
        .registry .saved) := by
    unfold Database.perform Tables.change Tables.query
    simp only [ht, Option.bind_some, saveTorrents_eq]
    rfl
  refine ⟨_, hsaved,
    ⟨?_, h.version, ?_, ?_, ?_, ?_,
      ⟨{ t with rows := insertAll sameKey t.rows (records.map TorrentRecord.parameters) }, by simp,
        ?_⟩, ?_⟩⟩
  · intro record hr
    have hr : record ∈ insertAll TorrentRecord.replacedBy s.torrents records := hr
    rw [insertAll_eq] at hr
    rcases List.mem_append.mp hr with hr | hr
    · exact h.ids record (List.mem_filter.mp hr).1
    · exact hv record (survivors_sublist.subset hr)
  · simpa using h.mode
  · simpa using h.settings
  · simpa using h.mam
  · simpa using h.lastSwitch
  · rw [hrows, insertAll_map]
    simp only [sameKey_replacedBy]
  · simpa using h.notices

theorem readRegistry_saved {rows : List TorrentRecord} (h : ∀ record ∈ rows, (record.id : Nat) ≤ i64Max) :
    readRegistry (rows.map TorrentRecord.parameters) =
      .ok ((orderBy (fun record => integer record.id) rows).map fun record =>
        record.clamped.unforced) := by
  have hid : rowId ∘ TorrentRecord.parameters = fun record => integer record.id := rfl
  have hall : ∀ record ∈ orderBy (fun record => integer record.id) rows,
      torrentRecord record.parameters = .ok record.clamped.unforced := by
    intro record hr
    exact torrentRecord_saved (h record (orderBy_perm.mem_iff.mp hr))
  unfold readRegistry
  rw [orderBy_map, hid]
  generalize orderBy (fun record => integer record.id) rows = sorted at hall
  induction sorted with
  | nil => rfl
  | cons record sorted ih =>
    rw [List.map_cons, List.mapM_cons, hall record (by simp), ok_bind,
      ih fun r hr => hall r (by simp [hr])]
    rfl

theorem registry_read (h : s.Held message db) : db.perform message .readTorrentRegistry =
    some (db, s.report .readTorrentRegistry) := by
  obtain ⟨t, ht, hrows⟩ := h.torrents
  unfold Database.perform
  simp only [ht, Option.bind_some, hrows, readRegistry_saved h.ids]
  rfl

theorem notice_cell (e : Logged) :
    noticeSchema.cell (noticeSchema.fill (e.given message)) "id" = .integer (integer e.id) := rfl

theorem notice_clash (old entry : Logged) :
    noticeSchema.clash (noticeSchema.fill (old.given message)) (noticeSchema.fill (entry.given message)) =
      (integer old.id == integer entry.id) := by
  have hclash : ∀ a b : Int, (Value.integer a).same (.integer b) = (a == b) := by
    intro a b
    change (Value.integer a == Value.integer b) = _
    rw [Bool.eq_iff_iff]
    simp
  exact (Bool.or_false _).trans (hclash _ _)

theorem notice_allowed (e : Logged) :
    noticeSchema.allows (noticeSchema.fill (e.given message)) = true := rfl

theorem noticeId_integer (id : NoticeId) :
    ∃ l : NoticeId, noticeId (integer id) = some l ∧ (l : Nat) = min (id : Nat) i64Max := by
  have hpos : 0 < min (id : Nat) i64Max := lt_min id.pos i64Max_pos
  refine ⟨⟨min (id : Nat) i64Max, hpos⟩, ?_, rfl⟩
  unfold noticeId
  rw [← integer_clamped, u64TryFrom_integer (Nat.min_le_right _ _), Option.bind_some, dif_pos hpos]

theorem noticeLog_read (h : s.Held message db) :
    db.readNoticeLog = some (s.report .readNoticeLog) := by
  obtain ⟨t, ht, hs, -, hrows⟩ := h.notices
  have hids : Table.integers t "id" = s.notices.map fun e => integer e.id := by
    unfold Table.integers Table.cell
    rw [hrows, hs, List.filterMap_map]
    exact List.filterMap_eq_map.symm ▸ rfl
  have hid : ∀ id ∈ (s.notices.map fun e => integer e.id).max?, ∃ n, noticeId id = some n := by
    intro id hid
    obtain ⟨e, -, rfl⟩ := List.mem_map.mp (List.max?_mem hid)
    obtain ⟨n, hn, -⟩ := noticeId_integer e.id
    exact ⟨n, hn⟩
  unfold Database.readNoticeLog Tables.query Saved.report
  rw [ht, Option.bind_some, hids]
  cases hmax : (s.notices.map fun e => integer e.id).max? with
  | none => rfl
  | some id =>
    obtain ⟨n, hn⟩ := hid id hmax
    simp [hn]

theorem notice_taken {t : Table} (hs : t.schema = noticeSchema)
    (hrows : t.rows = s.notices.map fun e => noticeSchema.fill (e.given message)) (entry : Logged) :
    t.rows.any (t.schema.clash · (t.schema.fill (entry.given message))) = s.taken entry.id := by
  rw [hs, hrows, List.any_map]
  unfold Saved.taken
  congr 1
  funext e
  exact notice_clash e entry

theorem notice_inserted {t : Table} (hs : t.schema = noticeSchema)
    (hrows : t.rows = s.notices.map fun e => noticeSchema.fill (e.given message)) (entry : Logged) :
    t.insert (entry.given message) =
      if s.taken entry.id then none
      else some { t with rows := t.rows ++ [noticeSchema.fill (entry.given message)] } := by
  have hclash := notice_taken hs hrows entry
  have hhas : t.schema.has ((entry.given message).map Prod.fst) := by
    rw [hs]
    rfl
  have hok : t.schema.allows (t.schema.fill (entry.given message)) := by
    rw [hs]
    exact notice_allowed entry
  unfold Table.insert Table.add
  rw [if_pos hhas, hclash]
  by_cases htaken : s.taken entry.id
  · rw [if_pos htaken, if_neg]
    simp [htaken]
  · rw [if_neg htaken, if_pos ⟨length_fill, hok, by simpa using htaken⟩, hs]

theorem delete_sound {t : Table} (h : t.Sound) (doomed : Row → Bool) : (t.delete doomed).Sound where
  width row hr := h.width row (List.mem_filter.mp hr).1
  allowed row hr := h.allowed row (List.mem_filter.mp hr).1
  apart := h.apart.filter _

theorem notice_saved (h : s.Held message db) (entry : Logged) (forgetThrough : Option NoticeId)
    (hfree : s.taken entry.id = false) :
    ∃ db', db.perform message (.saveNotice entry forgetThrough) = some (db', .notification .saved) ∧
      (s.log entry forgetThrough).Held message db' := by
  obtain ⟨t, ht, hs, hsound, hrows⟩ := h.notices
  have hinsert := notice_inserted hs hrows entry
  rw [hfree, if_neg Bool.false_ne_true] at hinsert
  have hadded := add_sound hsound (show t.add (t.schema.fill (entry.given message)) = some _ by
    unfold Table.insert at hinsert
    split at hinsert
    · exact hinsert
    · cases hinsert)
  have hsaved : ∃ t', saveNotice message t entry forgetThrough = some t' ∧
    t'.schema = noticeSchema ∧ t'.Sound ∧
      t'.rows = (s.log entry forgetThrough).notices.map fun e => noticeSchema.fill (e.given message) := by
    unfold saveNotice
    rw [hinsert, Option.map_some]
    have hall : t.rows ++ [noticeSchema.fill (entry.given message)] =
        (s.notices ++ [entry]).map fun e => noticeSchema.fill (e.given message) := by
      rw [hrows, List.map_append]
      rfl
    -- the oldest entries go only once the new one is in
    cases forgetThrough with
    | none =>
      refine ⟨_, rfl, hs, hadded.1, hall.trans ?_⟩
      unfold Saved.log
      simp
    | some through =>
      refine ⟨_, rfl, hs, delete_sound hadded.1 _, ?_⟩
      unfold Table.delete Saved.log
      dsimp only
      rw [hall, List.filter_map]
      congr 1
      refine List.filter_congr fun e _ => ?_
      rw [Function.comp_apply, Table.cell, hs, notice_cell]
      simp only [Value.le]
      rw [← decide_not]
      simp
  obtain ⟨t', hsave, hs', hsound', hrows'⟩ := hsaved
  refine ⟨{ db with tables := Function.update db.tables "notices" (some t') }, ?_,
    ⟨h.ids, h.version, ?_, ?_, ?_, ?_, ?_,
      ⟨t', by simp, hs', hsound', hrows'⟩⟩⟩
  · unfold Database.perform Tables.change Tables.query
    simp [ht, hsave]
  · simpa [Saved.log] using h.mode
  · simpa [Saved.log] using h.settings
  · simpa [Saved.log] using h.mam
  · simpa [Saved.log] using h.lastSwitch
  · simpa [Saved.log] using h.torrents

theorem notice_refused (h : s.Held message db) (entry : Logged) (forgetThrough : Option NoticeId)
    (htaken : s.taken entry.id) : db.perform message (.saveNotice entry forgetThrough) = none := by
  obtain ⟨t, ht, hs, -, hrows⟩ := h.notices
  have hinsert := notice_inserted hs hrows entry
  rw [if_pos htaken] at hinsert
  unfold Database.perform Tables.change Tables.query saveNotice
  simp [ht, hinsert]

theorem mode_deleted (h : s.Held message db) :
    ∃ db', db.delete = some (db', .mamPause .deleted) ∧
    ({ s with mode := none } : Saved).Held message db' := by
  obtain ⟨t, ht, hs, hsound, -⟩ := h.mode
  have hnone : (t.delete (t.at singleton)).rows.any ((t.delete (t.at singleton)).at singleton) =
      false := by
    rw [List.any_eq_false]
    intro row hr
    have hrow := (List.mem_filter.mp hr).2
    rw [Bool.not_eq_true'] at hrow
    exact Bool.eq_false_iff.mp hrow
  refine ⟨{ db with
      tables := Function.update db.tables "mam_configuration" (some (t.delete (t.at singleton))) }, ?_,
    ⟨h.ids, h.version,
      ⟨t.delete (t.at singleton), by simp, hs, delete_sound hsound _, hnone, by simp⟩, ?_, ?_, ?_,
      ?_, ?_⟩⟩
  · unfold Database.delete Tables.change Tables.query
    simp [ht]
  · simpa using h.settings
  · simpa using h.mam
  · simpa using h.lastSwitch
  · simpa using h.torrents
  · simpa using h.notices

theorem opened_again (h : s.Held message db) (mode : StartupMode) :
    execute message (some db) (.openStorage mode) = (some db, s.report (.openStorage mode)) := by
  cases mode with
  | initialise => rfl
  | resume =>
    obtain ⟨t, ht, hs, -⟩ := h.mode
    obtain ⟨tables, userVersion, files⟩ := db
    have hversion : userVersion = schemaVersion := h.version
    subst hversion
    have hhas : t.schema.has ["request_mode"] = true := by
      rw [hs]
      rfl
    have hopen : openStorage (some ⟨tables, schemaVersion, files⟩) .resume =
        some (⟨tables, schemaVersion, files⟩, .startup .storageOpened) := by
      have ht : tables "mam_configuration" = some t := ht
      unfold openStorage Tables.query
      simp only [bind, Option.bind_some, ht, hhas, if_true]
      rfl
    unfold execute Database.perform
    simp only [hopen]
    rfl

end

/-! ## Operations in any order -/

section
variable {message : Notice → Message} {s : Saved} {db : Database}

theorem execute_held (h : s.Held message db) {operation : Operation} (hv : operation.Valid) :
    ∃ db', execute message (some db) operation = (some db', s.report operation) ∧
    (s.after operation).Held message db' := by
  have hdone {db' : Database} {event : Event} (hp : db.perform message operation = some (db', event)) :
      execute message (some db) operation = (some db', event) := by
    unfold execute
    cases operation <;> simp [hp]
  cases operation with
  | openStorage mode => exact ⟨db, opened_again h mode, h⟩
  | readMamRequestMode => exact ⟨db, hdone (congrArg (Option.map (db, ·)) (mode_read h)), h⟩
  | writeMamRequestMode mode =>
    obtain ⟨db', hw, hheld⟩ := mode_written h mode (.mamPause .written)
    exact ⟨db', hdone hw, hheld⟩
  | deleteMamRequestMode =>
    obtain ⟨db', hw, hheld⟩ := mode_deleted h
    exact ⟨db', hdone hw, hheld⟩
  | readSettings => exact ⟨db, hdone (congrArg (Option.map (db, ·)) (settings_read h)), h⟩
  | writeHistoryLimit limit =>
    obtain ⟨db', hw, hheld⟩ := settings_written h [("history_limit", .integer limit.entries)]
      { s.settings with historyLimit := some limit } rfl (by simp [singleton]) rfl
      (.settings .historyLimitWritten)
    exact ⟨db', hdone hw, hheld⟩
  | writeApiCookie cookie =>
    obtain ⟨db', hw, hheld⟩ := settings_written h [("api_cookie", .ofOption _ cookie)]
      { s.settings with apiCookie := cookie } rfl (by simp [singleton]) rfl (.settings .apiCookieWritten)
    exact ⟨db', hdone hw, hheld⟩
  | writeNtfyTopic topic =>
    obtain ⟨db', hw, hheld⟩ := settings_written h [("ntfy_topic", .ofOption _ topic)]
      { s.settings with ntfyTopic := topic } rfl (by simp [singleton]) rfl (.settings .ntfyTopicWritten)
    exact ⟨db', hdone hw, hheld⟩
  | readTorrentRegistry => exact ⟨db, hdone (registry_read h), h⟩
  | saveTorrents records =>
    obtain ⟨db', hw, hheld⟩ := torrents_saved h hv
    exact ⟨db', hdone hw, hheld⟩
  | readLastVpnSwitch => exact ⟨db, hdone (congrArg (Option.map (db, ·)) (switch_read h)), h⟩
  | saveVpnSwitch switch =>
    obtain ⟨db', hw, hheld⟩ := switch_written h switch (.tunnel .switchSaved)
    exact ⟨db', hdone hw, hheld⟩
  | writePointsReserve reserve =>
    obtain ⟨db', hw, hheld⟩ := settings_written h [("points_reserve", .integer (integer reserve.points))]
      { s.settings with pointsReserve := some reserve } rfl (by simp [singleton]) rfl
      (.settings .pointsReserveWritten)
    exact ⟨db', hdone hw, hheld⟩
  | writeTorrentLimits limits =>
    obtain ⟨db', hw, hheld⟩ :=
      settings_written h [("max_downloading", .integer limits.downloading.torrents),
        ("max_active", .integer limits.active.torrents)]
      { s.settings with torrentLimits := some limits } rfl (by simp [singleton]) rfl
      (.settings .torrentLimitsWritten)
    exact ⟨db', hdone hw, hheld⟩
  | writeRotatedApiCookie cookie =>
    obtain ⟨db', hw, hheld⟩ := settings_written h [("api_cookie", .ofOption _ (some cookie))]
      { s.settings with apiCookie := some cookie } rfl (by simp [singleton]) rfl
      (.settings .rotatedApiCookieWritten)
    exact ⟨db', hdone hw, hheld⟩
  | readMamState => exact ⟨db, hdone (congrArg (Option.map (db, ·)) (mamState_read h)), h⟩
  | saveRegistrationAttempt at' =>
    obtain ⟨db', hw, hheld⟩ := mam_written h [("last_registration_at", .integer (seconds at'))]
      { s.mam with lastRegistration := some at' } rfl (by simp [singleton]) rfl
      (.mam .registrationAttemptSaved)
    exact ⟨db', hdone hw, hheld⟩
  | saveReminder at' =>
    obtain ⟨db', hw, hheld⟩ := mam_written h [("last_reminder_at", .integer (seconds at'))]
      { s.mam with lastReminder := some at' } rfl (by simp [singleton]) rfl (.mam .reminderSaved)
    exact ⟨db', hdone hw, hheld⟩
  | saveRatioGuard guard =>
    obtain ⟨db', hw, hheld⟩ := mam_written h guard.given { s.mam with ratioGuard := guard } rfl
      (by simp [singleton, SavedRatioGuard.given]) rfl (.mam .ratioGuardSaved)
    exact ⟨db', hdone hw, hheld⟩
  | readNoticeLog => exact ⟨db, hdone (congrArg (Option.map (db, ·)) (noticeLog_read h)), h⟩
  | saveNotice entry forgetThrough =>
    unfold Saved.after Saved.report
    -- the table refuses a second notice with one id
    by_cases htaken : s.taken entry.id
    · have hp := notice_refused h entry forgetThrough htaken
      refine ⟨db, ?_, by simpa [htaken] using h⟩
      unfold execute
      simp [hp, htaken, Operation.failure]
    · obtain ⟨db', hw, hheld⟩ := notice_saved h entry forgetThrough (by simpa using htaken)
      exact ⟨db', by simpa [htaken] using hdone hw, by simpa [htaken] using hheld⟩

/-- The operations of a run, one after the other, and what they report. -/
def executeAll (message : Notice → Message) (file : Option Database) :
    List Operation → Option Database × List Event
  | [] => (file, [])
  | operation :: operations =>
    let done := execute message file operation
    let rest := executeAll message done.1 operations
    (rest.1, done.2 :: rest.2)

def Saved.afterAll (s : Saved) (operations : List Operation) : Saved := operations.foldl Saved.after s

def Saved.reports (s : Saved) : List Operation → List Event
  | [] => []
  | operation :: operations => s.report operation :: (s.after operation).reports operations

theorem executeAll_held {operations : List Operation} (h : s.Held message db)
    (hv : ∀ operation ∈ operations, operation.Valid) :
    ∃ db', executeAll message (some db) operations = (some db', s.reports operations) ∧
      (s.afterAll operations).Held message db' := by
  -- each operation hands the database to the next as `execute_held` leaves it
  induction operations generalizing s db with
  | nil => exact ⟨db, rfl, h⟩
  | cons operation operations ih =>
    obtain ⟨db₁, hexec, hheld⟩ := execute_held h (hv operation (by simp))
    obtain ⟨db₂, hrest, hheld'⟩ := ih hheld fun o ho => hv o (by simp [ho])
    refine ⟨db₂, ?_, hheld'⟩
    unfold executeAll
    rw [hexec]
    dsimp only
    rw [hrest]
    rfl

theorem kept_fresh {table : Option Table} {schema : Schema} {p : Table → Prop}
    (h : table = some ⟨schema, []⟩)
    (hp : p ⟨schema, []⟩) : Kept table schema p :=
  ⟨_, h, rfl, ⟨by simp, by simp, .nil⟩, hp⟩

theorem initialised_held (message : Notice → Message) :
    ∃ db, execute message none (.openStorage .initialise) = (some db, .startup .storageOpened) ∧
    Saved.nothing.Held message db := by
  obtain ⟨tables, htables⟩ :
    ∃ tables, runAll (fun _ => none) (schemaV1 ++ upgrades.flatten) = some tables := ⟨_, rfl⟩
  have hopen : execute message none (.openStorage .initialise) =
      (some { tables := tables, userVersion := schemaVersion, files := [] },
        .startup .storageOpened) := by
    unfold execute openStorage
    simp only [htables, Option.map_some]
  have hfresh (name : String) :
      (runAll (fun _ => none) (schemaV1 ++ upgrades.flatten)).bind (· name) = tables name := by
    rw [htables]
    rfl
  refine ⟨_, hopen, by simp [Saved.nothing], rfl, ?_, ?_, ?_, ?_, ?_, ?_⟩
  · exact kept_fresh ((hfresh "mam_configuration").symm.trans rfl) ⟨rfl, by simp [Saved.nothing]⟩
  · refine kept_fresh ((hfresh "settings").symm.trans rfl) fun p hp => ?_
    revert p
    decide
  · refine kept_fresh ((hfresh "mam_state").symm.trans rfl) fun p hp => ?_
    revert p
    decide
  · exact kept_fresh ((hfresh "vpn_state").symm.trans rfl) ⟨rfl, by simp [Saved.nothing]⟩
  · exact ⟨⟨_, []⟩, (hfresh "torrents").symm.trans rfl, rfl⟩
  · exact kept_fresh ((hfresh "notices").symm.trans rfl) rfl

/-- From new storage on, the database reports what it would if it kept the values themselves. -/
theorem database_reports :
    ∃ db, execute message none (.openStorage .initialise) = (some db, .startup .storageOpened) ∧
    ∀ operations : List Operation, (∀ operation ∈ operations, operation.Valid) →
      ∃ db', executeAll message (some db) operations = (some db', Saved.nothing.reports operations) ∧
        (Saved.nothing.afterAll operations).Held message db' := by
  obtain ⟨db, hopen, hheld⟩ := initialised_held message
  exact ⟨db, hopen, fun operations => executeAll_held hheld⟩

end

def noWords : Message := { title := "", body := "", priority := 3, page := "/" }

def shortCookie : ApiCookie := ⟨"a", by decide⟩

theorem pause_reported :
    ∃ db, execute (fun _ => noWords) none (.openStorage .initialise) =
      (some db, .startup .storageOpened) ∧
      ∃ db', executeAll (fun _ => noWords) (some db)
        [.writeMamRequestMode .paused, .writeRotatedApiCookie shortCookie, .readMamRequestMode] =
          (some db', [.mamPause .written, .settings .rotatedApiCookieWritten,
            .mamPause (.read (some .paused))]) := by
  obtain ⟨db, hopen, hreports⟩ := @database_reports fun _ => noWords
  obtain ⟨db', hrun, -⟩ :=
    hreports [.writeMamRequestMode .paused, .writeRotatedApiCookie shortCookie,
      .readMamRequestMode] (by decide)
  exact ⟨db, hopen, db', hrun⟩

end Windlass
