import Windlass.Database
import Windlass.Migration

/-!
# Upgrades of the database

Storage of any earlier version is brought to the tables of this build, and nothing
that it holds is lost.
-/

namespace Windlass

open Sqlite

/-- The tables of a new database of a version; version 0 is version 1 before versions were recorded. -/
def versionTables (version : Nat) : Option Tables :=
  runAll (fun _ => none) (schemaV1 ++ (upgrades.take (version - 1)).flatten)

/-- A database that a build of this version could have left. -/
structure Database.OfVersion (db : Database) (version : Nat) : Prop where
  recorded : db.userVersion = version
  tables : ∃ fresh, versionTables version = some fresh ∧ Alike fresh db.tables

/-! ## The tables of each version -/

theorem columns_closed {s : Schema} (hu : ∀ name ∈ s.unique, name ∈ s.names)
    (hc : s.check = isSingleton ∧ "singleton" ∈ s.names ∨ s.check = fun _ => true) : s.Closed where
  unique := hu
  check read read' h := by
    rcases hc with ⟨hc, hs⟩ | hc
    · rw [hc]
      unfold isSingleton
      rw [h _ hs]
    · rw [hc]

theorem mode_closed : modeSchema.Closed where
  unique := by decide
  check read read' h := by
    have hs : read "singleton" = read' "singleton" := h _ (by decide)
    have hm : read "request_mode" = read' "request_mode" := h _ (by decide)
    simp [modeSchema, isSingleton, hs, hm]

theorem torrent_names (desired : List String) : (torrentSchema desired).names = torrentColumns := rfl

theorem torrent_closed (desired : List String) : (torrentSchema desired).Closed where
  unique := by
    rw [torrent_names]
    change ∀ name ∈ ["id", "hash"], name ∈ torrentColumns
    decide
  check read read' h := by
    rw [torrent_names] at h
    have ho : read "origin" = read' "origin" := h _ (by decide)
    have hd : read "desired" = read' "desired" := h _ (by decide)
    have hm : read "mam_id" = read' "mam_id" := h _ (by decide)
    have hh : read "hash" = read' "hash" := h _ (by decide)
    simp [torrentSchema, ho, hd, hm, hh]

theorem torrent_widens {desired desired' : List String} (h : desired ⊆ desired') :
    (torrentSchema desired).Widens (torrentSchema desired') where
  columns := rfl
  unique := rfl
  check read hr := by
    simp only [torrentSchema, Bool.and_eq_true, oneOf, List.any_eq_true] at hr ⊢
    obtain ⟨⟨ho, name, hname, hd⟩, hi⟩ := hr
    exact ⟨⟨ho, name, h hname, hd⟩, hi⟩

theorem settings_closed : settingsSchema.Closed := columns_closed (by decide) (.inl ⟨rfl, by decide⟩)

theorem vpn_closed : vpnSchema.Closed := columns_closed (by decide) (.inl ⟨rfl, by decide⟩)

theorem mamState_closed : mamStateSchema.Closed := columns_closed (by decide) (.inl ⟨rfl, by decide⟩)

theorem history_closed : historySchema.Closed := columns_closed (by decide) (.inr rfl)

theorem file_closed : fileSchema.Closed := columns_closed (by decide) (.inr rfl)

theorem notice_closed : noticeSchema.Closed := columns_closed (by decide) (.inr rfl)

/-! ## Each version from the one before -/

theorem versionTables_next {version : Nat} (h : 1 ≤ version) :
    versionTables (version + 1) = (versionTables version).bind fun db =>
    runAll db ((upgrades[version - 1]?).getD []) := by
  obtain ⟨n, rfl⟩ : ∃ n, version = n + 1 := ⟨version - 1, by omega⟩
  unfold versionTables
  rw [← runAll_append, List.append_assoc, Nat.add_sub_cancel, Nat.add_sub_cancel, List.take_add_one,
    List.flatten_append]
  cases upgrades[n]? <;> simp

theorem upgrade_safe {i : Nat} (h4 : i ≠ 4) (h5 : i ≠ 5) : ∀ s ∈ (upgrades[i]?).getD [], s.Safe := by
  by_cases hi : i < 9
  · interval_cases i
    · simp [upgrades, schemaV2, Statement.Safe, settings_closed, history_closed]
    · simp [upgrades, schemaV3, Statement.Safe]
    · simp [upgrades, schemaV4, Statement.Safe, torrent_closed, vpn_closed]
    · simp [upgrades, schemaV5, Statement.Safe, Column.nullable]
    · exact absurd rfl h4
    · exact absurd rfl h5
    · simp [upgrades, schemaV8, Statement.Safe, notice_closed]
    · simp [upgrades, schemaV9, Statement.Safe, Column.nullable]
    · simp [upgrades, schemaV10, Statement.Safe, Column.nullable]
  · have hnone : upgrades[i]? = none := List.getElem?_eq_none (by simpa [upgrades] using hi)
    simp [hnone]

theorem sixth_alike {fresh fresh' db : Tables} (hv : versionTables 5 = some fresh) (h : Alike fresh db)
    (hr : runAll fresh schemaV6 = some fresh') :
    ∃ db', runAll db schemaV6 = some db' ∧ Alike fresh' db' ∧ Keeps db db' := by
  have hname (name : String) : (versionTables 5).bind (· name) = fresh name := by
    rw [hv]
    rfl
  have hold : (fresh "torrents").map Table.schema =
      some (torrentSchema ["queued", "active", "removed"]) := by
    rw [← hname]
    rfl
  have hsplit : schemaV6 = rebuild "torrents_v6" "torrents" (torrentSchema ["queued", "active",
    "held", "removed"])
      (some torrentColumns) ++ [.createTable "torrent_files" fileSchema,
        .createTable "mam_state" mamStateSchema,
        .addColumn "settings" (.nullable "points_reserve")] := rfl
  rw [hsplit, runAll_append] at hr
  obtain ⟨fresh₁, hfirst, hrest⟩ := Option.bind_eq_some_iff.mp hr
  obtain ⟨db₁, hrun, hlike, hkeeps⟩ :=
    rebuild_alike "torrents_v6" h ((hname _).symm.trans rfl) hold (torrent_widens (by decide))
    (torrent_closed _) (by rw [torrent_names]; decide) hfirst
  obtain ⟨db', hrun', hlike', hkeeps'⟩ := runAll_alike
    (by simp [Statement.Safe, file_closed, mamState_closed, Column.nullable]) hlike hrest
  refine ⟨db', ?_, hlike', hkeeps.trans hkeeps'⟩
  rw [hsplit, runAll_append, hrun]
  exact hrun'

theorem seventh_alike {fresh fresh' db : Tables} (hv : versionTables 6 = some fresh) (h : Alike fresh db)
    (hr : runAll fresh schemaV7 = some fresh') :
    ∃ db', runAll db schemaV7 = some db' ∧ Alike fresh' db' ∧ Keeps db db' := by
  have hname (name : String) : (versionTables 6).bind (· name) = fresh name := by
    rw [hv]
    rfl
  have hold : (fresh "torrents").map Table.schema =
      some (torrentSchema ["queued", "active", "held", "removed"]) := by
    rw [← hname]
    rfl
  exact rebuild_alike "torrents_v7" h ((hname _).symm.trans rfl) hold (torrent_widens (by decide))
    (torrent_closed _) (by simp) hr

/-- The tables of a version are built from those of the one before, whatever they hold. -/
theorem version_step {version : Nat} (h1 : 1 ≤ version) (h9 : version ≤ 9) {fresh db : Tables}
    (hv : versionTables version = some fresh) (h : Alike fresh db) :
    ∃ fresh' db', versionTables (version + 1) = some fresh' ∧
      runAll db ((upgrades[version - 1]?).getD []) = some db' ∧ Alike fresh' db' ∧ Keeps db db' := by
  obtain ⟨fresh', hv'⟩ : ∃ fresh', versionTables (version + 1) = some fresh' := by
    interval_cases version <;> exact ⟨_, rfl⟩
  have hr : runAll fresh ((upgrades[version - 1]?).getD []) = some fresh' := by
    rw [versionTables_next h1, hv] at hv'
    exact hv'
  have hdone : ∃ db', runAll db ((upgrades[version - 1]?).getD []) = some db' ∧ Alike fresh' db' ∧
      Keeps db db' := by
    by_cases h5 : version = 5
    · subst h5
      exact sixth_alike hv h hr
    · by_cases h6 : version = 6
      · subst h6
        exact seventh_alike hv h hr
      · exact runAll_alike (upgrade_safe (by omega) (by omega)) h hr
  obtain ⟨db', hdone⟩ := hdone
  exact ⟨fresh', db', hv', hdone⟩

theorem upgrade_run (left : Nat) {version : Nat} (h1 : 1 ≤ version) (hend : version + left = 10)
    {fresh db : Tables}
    (hv : versionTables version = some fresh) (h : Alike fresh db) :
    ∃ fresh' db', versionTables 10 = some fresh' ∧
    runAll db (upgrades.drop (version - 1)).flatten = some db' ∧
      Alike fresh' db' ∧ Keeps db db' := by
  -- one version at a time, up to the tables of this build
  induction left generalizing version fresh db with
  | zero =>
    obtain rfl : version = 10 := by omega
    exact ⟨fresh, db, hv, rfl, h, .refl db⟩
  | succ left ih =>
    obtain ⟨fresh₁, db₁, hv₁, hrun, hlike, hkeeps⟩ := version_step h1 (by omega) hv h
    obtain ⟨fresh', db', hv', hrun', hlike', hkeeps'⟩ :=
      ih (Nat.le_add_left 1 version) (by omega) hv₁ hlike
    refine ⟨fresh', db', hv', ?_, hlike', hkeeps.trans hkeeps'⟩
    have hlt : version - 1 < upgrades.length := by
      have hlen : upgrades.length = 9 := rfl
      omega
    have hnext : version + 1 - 1 = version - 1 + 1 := by omega
    rw [List.drop_eq_getElem_cons hlt, List.flatten_cons, runAll_append, ← hnext]
    rw [List.getElem?_eq_getElem hlt] at hrun
    rw [show runAll db upgrades[version - 1] = some db₁ from hrun]
    exact hrun'

/-! ## Opening -/

theorem version_mode {version : Nat} (hle : version ≤ 10) {fresh db : Tables}
    (hv : versionTables version = some fresh)
    (h : Alike fresh db) : ∃ t, db "mam_configuration" = some t ∧ t.schema = modeSchema := by
  have hname : (versionTables version).bind (· "mam_configuration") = fresh "mam_configuration" := by
    rw [hv]
    rfl
  have hfresh : fresh "mam_configuration" = some ⟨modeSchema, []⟩ := by
    rw [← hname]
    interval_cases version <;> rfl
  exact h.table hfresh

/-- Storage of any version that came before is opened with the tables of this build,
every row of it kept, and opens again as it is. -/
theorem upgraded {db : Database} {version : Nat} (hle : version ≤ 10) (h : db.OfVersion version) :
    ∃ db', openStorage (some db) .resume = some (db', .startup .storageOpened) ∧ db'.OfVersion 10 ∧
      Keeps db.tables db'.tables ∧ db'.files = db.files ∧
      openStorage (some db') .resume = some (db', .startup .storageOpened) := by
  obtain ⟨fresh, hv, hlike⟩ := h.tables
  have hfirst : versionTables (max version 1) = some fresh := by
    by_cases h0 : version = 0
    · subst h0
      exact hv
    · rw [max_eq_left (by omega)]
      exact hv
  have hopen {db db' : Database} {version : Nat} {fresh : Tables} (hle : version ≤ 10)
      (hr : db.userVersion = version)
      (hv : versionTables version = some fresh) (hlike : Alike fresh db.tables)
      (hrun : runAll db.tables (upgrades.drop (max version 1 - 1)).flatten = some db'.tables)
      (hdb : db' = { db with tables := db'.tables, userVersion := schemaVersion }) :
      openStorage (some db) .resume = some (db', .startup .storageOpened) := by
    obtain ⟨t, ht, hs⟩ := version_mode hle hv hlike
    have hhas : t.schema.has ["request_mode"] = true := by
      rw [hs]
      rfl
    have hold : ¬schemaVersion < db.userVersion := by
      rw [hr]
      unfold schemaVersion
      omega
    have happlied : (max db.userVersion 1 - 1).toNat = max version 1 - 1 := by
      rw [hr]
      omega
    unfold openStorage Tables.query
    simp only [bind, Option.bind_some, ht, hhas, if_true, if_neg hold, happlied, hrun, Option.map_some]
    rw [← hdb]
  obtain ⟨fresh', tables, hv', hrun, hlike', hkeeps⟩ :=
    upgrade_run (10 - max version 1) (le_max_right _ _) (by omega) hfirst hlike
  refine ⟨{ db with tables := tables, userVersion := schemaVersion },
    hopen hle h.recorded hv hlike hrun rfl,
    ⟨rfl, fresh', hv', hlike'⟩, hkeeps, rfl, ?_⟩
  exact hopen (le_refl 10) rfl hv' hlike' rfl rfl

/-! ## A database of version 5 -/

theorem fill_alike {fresh db : Tables} {name : String} {schema : Schema} {rows : List Row}
    (h : Alike fresh db)
    (ht : fresh name = some ⟨schema, []⟩) (hs : (⟨schema, rows⟩ : Table).Sound) :
    Alike fresh (Function.update db name (some ⟨schema, rows⟩)) where
  schema other := by
    by_cases hname : other = name
    · rw [hname, Function.update_self, ht]
      rfl
    · rw [Function.update_of_ne hname]
      exact h.schema other
  fresh := h.fresh
  sound := h.sound.update hs (h.fresh name _ ht).2

def fifthRows : List Row :=
  -- a finished torrent, and a bookmark that waits
  [[.integer 1, .integer 7, .text "00112233445566778899aabbccddeeff00112233", .text "bookmark",
    .text "active",
      .text "/books", .integer 0, .text "A book", .text "uploading", .integer 1000, .integer 10,
      .integer 10, .integer 10,
      .integer 5, .integer 500, .integer 3600, .integer 1, .integer 2, .text "/books/A book",
      .text "/books", .integer 3],
    [.integer 2, .integer 8, .null, .text "bookmark", .text "queued", .null,
      .integer 0] ++ List.replicate 14 .null]

def fifthTables : Tables := (versionTables 5).getD fun _ => none

def fifthDatabase : Database where
  -- a database that holds torrents when their table still lacks two states
  tables := Function.update
    (Function.update fifthTables "mam_configuration" (some ⟨modeSchema,
      [[.integer 1, .text "paused"]]⟩)) "torrents"
    (some ⟨torrentSchema ["queued", "active", "removed"], fifthRows⟩)
  userVersion := 5
  files := []

theorem fifth_version : fifthDatabase.OfVersion 5 where
  recorded := rfl
  tables := by
    have hnone : Alike (fun _ => none) fun _ => none :=
      ⟨fun _ => rfl, by simp [Tables.Sound], by simp [Tables.Sound]⟩
    have hsafe : ∀ s ∈ schemaV1 ++ (upgrades.take 4).flatten, s.Safe := by
      simp [upgrades, schemaV1, schemaV2, schemaV3, schemaV4, schemaV5, Statement.Safe, mode_closed,
        settings_closed,
        history_closed, torrent_closed, vpn_closed, Column.nullable]
    have hbuilt : versionTables 5 = some fifthTables := rfl
    obtain ⟨fresh, hrun, hlike, -⟩ := runAll_alike hsafe hnone hbuilt
    obtain rfl : fifthTables = fresh := Option.some.inj (hbuilt.symm.trans hrun)
    refine ⟨fifthTables, hbuilt, fill_alike (fill_alike hlike rfl ?_) rfl ?_⟩
    · exact ⟨by decide, by decide, by decide⟩
    · exact ⟨by decide, by decide, by decide⟩

/-- Both torrents are still there once their table was built again twice. -/
theorem fifth_upgraded :
    ∃ db', openStorage (some fifthDatabase) .resume = some (db', .startup .storageOpened) ∧
    db'.OfVersion 10 ∧ Keeps fifthDatabase.tables db'.tables ∧ db'.files = fifthDatabase.files ∧
    openStorage (some db') .resume = some (db', .startup .storageOpened) ∧
    db'.tables "torrents" =
      some ⟨torrentSchema ["queued", "snatched", "active", "held", "removed"], fifthRows⟩ := by
  obtain ⟨db', hopen, hversion, hkeeps, hfiles, hagain⟩ := upgraded (by decide) fifth_version
  refine ⟨db', hopen, hversion, hkeeps, hfiles, hagain, ?_⟩
  obtain ⟨fresh, hfresh, hlike⟩ := hversion.tables
  have htorrents :
      fresh "torrents" = some ⟨torrentSchema ["queued", "snatched", "active", "held", "removed"],
        []⟩ := by
    have hname : (versionTables 10).bind (· "torrents") = fresh "torrents" := by
      rw [hfresh]
      rfl
    rw [← hname]
    rfl
  obtain ⟨table, ht, hschema⟩ := hlike.table htorrents
  obtain ⟨table', ht', added, hcolumns, hrows⟩ := hkeeps "torrents" _ rfl
  obtain rfl : table = table' := Option.some.inj (ht.symm.trans ht')
  have hadded : added = [] := by
    rw [hschema] at hcolumns
    exact List.self_eq_append_right.mp hcolumns
  rw [hadded] at hrows
  have hkept : table.rows = fifthRows := by simpa using hrows
  rw [ht, ← hkept]
  exact congrArg (fun schema => some (Table.mk schema table.rows)) hschema

end Windlass
