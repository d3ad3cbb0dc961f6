import Windlass.Tables

/-!
# Migrations

A migration builds, extends and rebuilds tables. A safe one does to every database
what it does to one with the same tables and no rows, and every row is kept.
-/

namespace Sqlite

/-- The rules of a table are about its own columns. -/
structure Schema.Closed (s : Schema) : Prop where
  check : ∀ read read', (∀ name ∈ s.names, read name = read' name) → s.check read = s.check read'
  unique : ∀ name ∈ s.unique, name ∈ s.names

def Tables.Sound (db : Tables) : Prop := ∀ name t, db name = some t → t.Sound ∧ t.schema.Closed

/-- The same tables, whatever rows they hold. -/
structure Alike (fresh db : Tables) : Prop where
  schema : ∀ name, (db name).map Table.schema = (fresh name).map Table.schema
  fresh : fresh.Sound
  sound : db.Sound

/-- Every row of every table stays, with the added columns at their defaults. -/
def Keeps (db db' : Tables) : Prop :=
  ∀ name t, db name = some t → ∃ t', db' name = some t' ∧
    ∃ added : List Column, t'.schema.columns = t.schema.columns ++ added ∧
      t'.rows = t.rows.map fun row => row ++ added.map Column.default

theorem Keeps.refl (db : Tables) : Keeps db db := by
  intro name t ht
  exact ⟨t, ht, [], by simp, by simp⟩

theorem Keeps.trans {db db' db'' : Tables} (h : Keeps db db') (h' : Keeps db' db'') : Keeps db db'' := by
  intro name t ht
  obtain ⟨t', ht', added, hc, hr⟩ := h name t ht
  obtain ⟨t'', ht'', added', hc', hr'⟩ := h' name t' ht'
  refine ⟨t'', ht'', added ++ added', ?_, ?_⟩
  · rw [hc', hc, List.append_assoc]
  · rw [hr', hr, List.map_map, List.map_append]
    exact List.map_congr_left fun row _ => List.append_assoc ..

/-! ## An added column -/

theorem cell_append {columns added : List Column} {unique unique' : List String}
    {check check' : (String → Value) → Bool} {row extra : Row} {name : String}
    (hl : row.length = columns.length)
    (h : name ∈ columns.map Column.name) :
    Schema.cell ⟨columns ++ added, unique, check⟩ (row ++ extra) name = Schema.cell ⟨columns,
      unique', check'⟩ row name := by
  induction columns generalizing row with
  | nil => cases h
  | cons c columns ih =>
    cases row with
    | nil => cases hl
    | cons v row =>
      rw [List.cons_append, List.cons_append, cell_cons, cell_cons]
      by_cases hc : c.name = name
      · rw [if_pos hc, if_pos hc]
      · rw [if_neg hc, if_neg hc]
        refine ih (by simpa using hl) ?_
        simpa [Ne.symm hc] using h

theorem cell_added {columns : List Column} {column : Column} {unique : List String}
    {check : (String → Value) → Bool}
    {row : Row} (hl : row.length = columns.length) (h : column.name ∉ columns.map Column.name) :
    Schema.cell ⟨columns ++ [column], unique,
      check⟩ (row ++ [column.default]) column.name = column.default := by
  induction columns generalizing row with
  | nil =>
    cases row with
    | nil => simp [Schema.cell]
    | cons v row => cases hl
  | cons c columns ih =>
    cases row with
    | nil => cases hl
    | cons v row =>
      rw [List.map_cons, List.mem_cons, not_or] at h
      rw [List.cons_append, List.cons_append, cell_cons, if_neg (Ne.symm h.1)]
      exact ih (by simpa using hl) h.2

section
variable {t t' : Table} {column : Column}

theorem addColumn_names (h : t.addColumn column = some t') :
    column.name ∉ t.schema.names ∧
    t' = { schema := { t.schema with columns := t.schema.columns ++ [column] }
           rows := t.rows.map fun row => row ++ [column.default] } := by
  unfold Table.addColumn at h
  split at h
  · cases h
  · next hc =>
    cases h
    exact ⟨by simpa using hc, rfl⟩

theorem addColumn_sound (h : t.addColumn column = some t') (hs : t.Sound) (hc : t.schema.Closed)
    (hnull : column.notNull → column.default ≠ .null) : t'.Sound ∧ t'.schema.Closed := by
  obtain ⟨hnew, rfl⟩ := addColumn_names h
  have hold : ∀ row ∈ t.rows, ∀ name ∈ t.schema.names,
      Schema.cell { t.schema with columns := t.schema.columns ++ [column] } (row ++
        [column.default]) name =
        t.schema.cell row name := fun row hr name hn => cell_append (hs.width row hr) hn
  refine ⟨⟨?_, ?_, ?_⟩, ⟨?_, ?_⟩⟩
  · intro row' hr'
    obtain ⟨row, hr, rfl⟩ := List.mem_map.mp hr'
    simp [hs.width row hr]
  · intro row' hr'
    obtain ⟨row, hr, rfl⟩ := List.mem_map.mp hr'
    have hok := hs.allowed row hr
    unfold Schema.allows Schema.passes at hok ⊢
    rw [Bool.and_eq_true, List.all_eq_true] at hok
    rw [Bool.and_eq_true, List.all_eq_true]
    refine ⟨fun c hcol => ?_, ?_⟩
    · rcases List.mem_append.mp hcol with hcol | hcol
      · rw [hold row hr c.name (List.mem_map_of_mem hcol)]
        exact hok.1 c hcol
      · rw [List.mem_singleton.mp hcol, cell_added (hs.width row hr) hnew]
        cases hn : column.notNull with
        | false => rfl
        | true => simpa using hnull hn
    · exact (hc.check _ _ (hold row hr)).trans hok.2
  · rw [List.pairwise_map]
    refine hs.apart.imp_of_mem fun {a b} ha hb hab => ?_
    unfold Schema.clash at hab ⊢
    rw [List.any_eq_false] at hab ⊢
    intro name hn
    rw [hold a ha name (hc.unique name hn), hold b hb name (hc.unique name hn)]
    exact hab name hn
  · intro read read' hread
    refine hc.check read read' fun name hn => hread name ?_
    simpa [Schema.names] using Or.inl hn
  · intro name hn
    have hmem := hc.unique name hn
    simpa [Schema.names] using Or.inl hmem

end

/-! ## A table built again -/

theorem foldlM_add {schema : Schema} {rows : List Row} (kept : List Row)
    (hw : ∀ row ∈ rows, row.length = schema.columns.length) (hok : ∀ row ∈ rows, schema.allows row)
    (hd : (kept ++ rows).Pairwise fun old row => schema.clash old row = false) :
    rows.foldlM Table.add ⟨schema, kept⟩ = some ⟨schema, kept ++ rows⟩ := by
  induction rows generalizing kept with
  | nil => simp
  | cons row rows ih =>
    have hclash : kept.any (schema.clash · row) = false := by
      rw [List.any_eq_false]
      intro old ho
      exact Bool.eq_false_iff.mp ((List.pairwise_append.mp hd).2.2 old ho row (by simp))
    have hadd : Table.add ⟨schema, kept⟩ row = some ⟨schema, kept ++ [row]⟩ :=
      if_pos ⟨hw row (by simp), hok row (by simp), hclash⟩
    rw [List.foldlM_cons, hadd]
    refine (ih (kept ++ [row]) (fun r hr => hw r (by simp [hr])) (fun r hr =>
      hok r (by simp [hr])) ?_).trans ?_
    · rw [List.append_assoc]
      exact hd
    · rw [List.append_assoc]
      rfl

theorem row_cells {columns : List Column} {unique : List String} {check : (String → Value) → Bool}
    {row : Row}
    (hl : row.length = columns.length) (hn : (columns.map Column.name).Nodup) :
    (columns.map Column.name).map (Schema.cell ⟨columns, unique, check⟩ row) = row := by
  induction columns generalizing row with
  | nil => exact (List.length_eq_zero_iff.mp hl).symm
  | cons c columns ih =>
    cases row with
    | nil => cases hl
    | cons v row =>
      rw [List.map_cons, List.nodup_cons] at hn
      rw [List.map_cons, List.map_cons, cell_cons, if_pos rfl]
      congr 1
      refine Eq.trans (List.map_congr_left fun name hname => ?_) (ih (by simpa using hl) hn.2)
      rw [cell_cons, if_neg]
      intro heq
      exact hn.1 (heq ▸ hname)

/-- What is selected from a table to build it again: every column, or all of them by name. -/
def Table.Whole (t : Table) (names : Option (List String)) : Prop :=
  ∀ ns ∈ names, ns = t.schema.names ∧ ns.Nodup

theorem selectAll_whole {t : Table} {names : Option (List String)} (hs : t.Sound) (h : t.Whole names) :
    t.selectAll names = some t.rows := by
  cases names with
  | none => rfl
  | some ns =>
    obtain ⟨rfl, hn⟩ := h ns rfl
    have hhas : t.schema.has t.schema.names :=
      List.all_eq_true.mpr fun name hname => List.contains_iff_mem.mpr hname
    unfold Table.selectAll
    dsimp only
    rw [if_pos hhas]
    congr 1
    exact (List.map_congr_left fun row hr => row_cells (hs.width row hr) hn).trans (List.map_id _)

def rebuild (name table : String) (schema : Schema) (names : Option (List String)) : List Statement :=
  [.createTable name schema, .insertSelect name names table, .dropTable table, .renameTable name table]

/-- The same columns under a check that no row of the old one fails. -/
structure Schema.Widens (old new : Schema) : Prop where
  columns : new.columns = old.columns
  unique : new.unique = old.unique
  check : ∀ read, old.check read → new.check read

theorem widened_sound {t : Table} {schema : Schema} (hs : t.Sound) (h : t.schema.Widens schema) :
    (⟨schema, t.rows⟩ : Table).Sound := by
  have hcell : ∀ row, schema.cell row = t.schema.cell row := by
    intro row
    funext name
    unfold Schema.cell
    rw [h.columns]
  refine ⟨fun row hr => ?_, fun row hr => ?_, ?_⟩
  · exact (hs.width row hr).trans (congrArg _ h.columns.symm)
  · have hok := hs.allowed row hr
    unfold Schema.allows Schema.passes at hok ⊢
    rw [Bool.and_eq_true] at hok
    rw [hcell, h.columns, Bool.and_eq_true]
    exact ⟨hok.1, h.check _ hok.2⟩
  · refine hs.apart.imp fun hab => ?_
    unfold Schema.clash at hab ⊢
    rw [h.unique]
    simpa only [hcell] using hab

theorem rebuild_run {db : Tables} {name table : String} {t : Table} {schema : Schema}
    (names : Option (List String))
    (ht : db table = some t) (hs : t.Sound) (hfree : db name = none) (h : t.schema.Widens schema)
    (hw : t.Whole names) :
    ∃ db', runAll db (rebuild name table schema names) = some db' ∧ db' table = some ⟨schema, t.rows⟩ ∧
      ∀ other, other ≠ table → db' other = db other := by
  have hne : table ≠ name := by
    intro heq
    rw [heq, hfree] at ht
    cases ht
  have hsound := widened_sound hs h
  have hfold : t.rows.foldlM Table.add ⟨schema, []⟩ = some ⟨schema, t.rows⟩ :=
    foldlM_add [] hsound.width hsound.allowed hsound.apart
  refine ⟨Function.update (Function.update (Function.update (Function.update (Function.update db name
    (some ⟨schema, []⟩)) name (some ⟨schema, t.rows⟩)) table none) name none) table (some ⟨schema,
    t.rows⟩), ?_, by simp, ?_⟩
  · simp [rebuild, runAll_cons, Statement.run, Tables.query, Tables.change, hfree, ht, hne,
      hne.symm, hfold,
      selectAll_whole hs hw]
  · intro other ho
    by_cases hname : other = name
    · simp [hname, hfree, hne.symm]
    · simp [hname, ho]

/-! ## Safe statements -/

/-- A statement that neither loses a row nor breaks a rule; a table that is built again is not one of these. -/
def Statement.Safe : Statement → Prop
  | .createTable _ schema => schema.Closed
  | .createIndex .. => True
  | .addColumn _ column => column.notNull → column.default ≠ .null
  | .insertSelect .. | .dropTable _ | .renameTable .. => False

theorem Tables.Sound.update {db : Tables} {name : String} {t : Table} (h : db.Sound) (ht : t.Sound)
    (hc : t.schema.Closed) :
    Tables.Sound (Function.update db name (some t)) := by
  intro other t' ht'
  by_cases hname : other = name
  · subst hname
    rw [Function.update_self] at ht'
    cases ht'
    exact ⟨ht, hc⟩
  · rw [Function.update_of_ne hname] at ht'
    exact h other t' ht'

theorem Keeps.update {db : Tables} {name : String} {t t' : Table} (added : List Column)
    (ht : db name = some t)
    (hc : t'.schema.columns = t.schema.columns ++ added)
    (hr : t'.rows = t.rows.map fun row => row ++ added.map Column.default) :
    Keeps db (Function.update db name (some t')) := by
  intro other t₁ ht₁
  by_cases hname : other = name
  · subst hname
    cases ht.symm.trans ht₁
    exact ⟨t', by simp, added, hc, hr⟩
  · refine ⟨t₁, ?_, [], by simp, by simp⟩
    rw [Function.update_of_ne hname]
    exact ht₁

theorem empty_sound (schema : Schema) : (⟨schema, []⟩ : Table).Sound :=
  ⟨by simp, by simp, .nil⟩

theorem createTable_run {db db' : Tables} {name : String} {schema : Schema} :
    (Statement.createTable name schema).run db = some db' ↔
      db name = none ∧ Function.update db name (some ⟨schema, []⟩) = db' := by
  unfold Statement.run
  dsimp only
  cases db name <;> simp

theorem run_sound {db db' : Tables} {statement : Statement} (hsafe : statement.Safe) (h : db.Sound)
    (hr : statement.run db = some db') : db'.Sound ∧ Keeps db db' := by
  cases statement with
  | createTable name schema =>
    obtain ⟨hnone, rfl⟩ := createTable_run.mp hr
    refine ⟨h.update (empty_sound schema) hsafe, ?_⟩
    intro other t ht
    by_cases hname : other = name
    · subst hname
      cases hnone.symm.trans ht
    · refine ⟨t, ?_, [], by simp, by simp⟩
      rw [Function.update_of_ne hname]
      exact ht
  | createIndex table column =>
    obtain ⟨_, -, rfl⟩ := Option.map_eq_some_iff.mp hr
    exact ⟨h, .refl db⟩
  | addColumn table column =>
    obtain ⟨t', ht', rfl⟩ := Option.map_eq_some_iff.mp hr
    obtain ⟨t, ht, hadd⟩ := Option.bind_eq_some_iff.mp ht'
    obtain ⟨hs, hc⟩ := h table t ht
    obtain ⟨hs', hc'⟩ := addColumn_sound hadd hs hc hsafe
    refine ⟨h.update hs' hc', .update [column] ht ?_ ?_⟩
    · rw [(addColumn_names hadd).2]
    · rw [(addColumn_names hadd).2]
      rfl
  | insertSelect into names source => exact hsafe.elim
  | dropTable name => exact hsafe.elim
  | renameTable name renamed => exact hsafe.elim

theorem Alike.update {fresh db : Tables} {name : String} {a b : Table}
    (h : ∀ other, (db other).map Table.schema = (fresh other).map Table.schema)
    (hab : b.schema = a.schema) (other : String) :
    (Function.update db name (some b) other).map Table.schema =
      (Function.update fresh name (some a) other).map Table.schema := by
  by_cases hname : other = name
  · simp [hname, hab]
  · simp [hname, h other]

theorem Alike.table {fresh db : Tables} (h : Alike fresh db) {name : String} {a : Table}
    (ha : fresh name = some a) :
    ∃ b, db name = some b ∧ b.schema = a.schema := by
  have hs := h.schema name
  rw [ha] at hs
  exact Option.map_eq_some_iff.mp hs

theorem Alike.absent {fresh db : Tables} (h : Alike fresh db) {name : String}
    (hnone : fresh name = none) :
    db name = none := by
  have hs := h.schema name
  rw [hnone] at hs
  exact Option.map_eq_none_iff.mp hs

theorem run_alike {fresh fresh' db : Tables} {statement : Statement} (hsafe : statement.Safe)
    (h : Alike fresh db)
    (hr : statement.run fresh = some fresh') :
    ∃ db', statement.run db = some db' ∧ Alike fresh' db' ∧ Keeps db db' := by
  have hrun : ∃ db', statement.run db = some db' ∧
      ∀ name, (db' name).map Table.schema = (fresh' name).map Table.schema := by
    cases statement with
    | createTable name schema =>
      obtain ⟨hnone, rfl⟩ := createTable_run.mp hr
      exact ⟨_, createTable_run.mpr ⟨h.absent hnone, rfl⟩, Alike.update h.schema rfl⟩
    | createIndex table column =>
      obtain ⟨u, hq, rfl⟩ := Option.map_eq_some_iff.mp hr
      obtain ⟨a, ha, hhas⟩ := Option.bind_eq_some_iff.mp hq
      obtain ⟨b, hb, hs⟩ := h.table ha
      refine ⟨db, ?_, h.schema⟩
      unfold Statement.run Tables.query
      dsimp only
      rw [hb, Option.bind_some, hs, hhas]
      rfl
    | addColumn table column =>
      obtain ⟨a', ha', rfl⟩ := Option.map_eq_some_iff.mp hr
      obtain ⟨a, ha, hadd⟩ := Option.bind_eq_some_iff.mp ha'
      obtain ⟨b, hb, hs⟩ := h.table ha
      obtain ⟨hnew, rfl⟩ := addColumn_names hadd
      have hadd' : b.addColumn column =
        some { schema := { b.schema with columns := b.schema.columns ++ [column] }
               rows := b.rows.map fun row => row ++ [column.default] } :=
        if_neg (by simpa [hs] using hnew)
      unfold Statement.run Tables.change Tables.query
      dsimp only
      rw [hb, Option.bind_some, hadd']
      refine ⟨_, rfl, Alike.update h.schema ?_⟩
      dsimp only
      rw [hs]
    | insertSelect into names source => exact hsafe.elim
    | dropTable name => exact hsafe.elim
    | renameTable name renamed => exact hsafe.elim
  obtain ⟨db', hr', hschema⟩ := hrun
  obtain ⟨hsound, hkeeps⟩ := run_sound hsafe h.sound hr'
  exact ⟨db', hr', ⟨hschema, (run_sound hsafe h.fresh hr).1, hsound⟩, hkeeps⟩

theorem runAll_alike {fresh fresh' db : Tables} {statements : List Statement}
    (hsafe : ∀ s ∈ statements, s.Safe)
    (h : Alike fresh db) (hr : runAll fresh statements = some fresh') :
    ∃ db', runAll db statements = some db' ∧ Alike fresh' db' ∧ Keeps db db' := by
  induction statements generalizing fresh db with
  | nil =>
    cases hr
    exact ⟨db, rfl, h, .refl db⟩
  | cons statement statements ih =>
    rw [runAll_cons] at hr
    obtain ⟨fresh₁, hfirst, hrest⟩ := Option.bind_eq_some_iff.mp hr
    obtain ⟨db₁, hrun, hlike, hkeeps⟩ := run_alike (hsafe statement (by simp)) h hfirst
    obtain ⟨db', hrun', hlike', hkeeps'⟩ := ih (fun s hs => hsafe s (by simp [hs])) hlike hrest
    refine ⟨db', ?_, hlike', hkeeps.trans hkeeps'⟩
    rw [runAll_cons, hrun, Option.bind_some, hrun']

theorem rebuild_sound {db db' : Tables} {table : String} {t : Table} {schema : Schema} (h : db.Sound)
    (ht : db table = some t) (hw : t.schema.Widens schema) (hc : schema.Closed)
    (htable : db' table = some ⟨schema, t.rows⟩)
    (hothers : ∀ other, other ≠ table → db' other = db other) :
    db'.Sound ∧ Keeps db db' := by
  constructor
  · intro other t' ht'
    by_cases hname : other = table
    · subst hname
      cases htable.symm.trans ht'
      exact ⟨widened_sound (h other t ht).1 hw, hc⟩
    · exact h other t' ((hothers other hname).symm.trans ht')
  · intro other t₁ ht₁
    by_cases hname : other = table
    · subst hname
      cases ht.symm.trans ht₁
      exact ⟨_, htable, [], by simp [hw.columns], by simp⟩
    · exact ⟨t₁, (hothers other hname).trans ht₁, [], by simp, by simp⟩

/-- A table built again under a wider check keeps its rows. -/
theorem rebuild_alike {fresh fresh' db : Tables} (name : String) {table : String} {old schema : Schema}
    {names : Option (List String)} (h : Alike fresh db) (hfree : fresh name = none)
    (hold : (fresh table).map Table.schema = some old) (hw : old.Widens schema) (hc : schema.Closed)
    (hnames : ∀ ns ∈ names, ns = old.names ∧ ns.Nodup)
    (hr : runAll fresh (rebuild name table schema names) = some fresh') :
    ∃ db', runAll db (rebuild name table schema names) = some db' ∧ Alike fresh' db' ∧ Keeps db db' := by
  obtain ⟨a, ha, rfl⟩ := Option.map_eq_some_iff.mp hold
  obtain ⟨b, hb, hs⟩ := h.table ha
  obtain ⟨fresh₁, hrun, htable, hothers⟩ := rebuild_run names ha (h.fresh table a ha).1 hfree hw hnames
  cases hrun.symm.trans hr
  obtain ⟨db', hrun', htable', hothers'⟩ :=
    rebuild_run names hb (h.sound table b hb).1 (h.absent hfree) (hs ▸ hw)
    (fun ns hns => hs ▸ hnames ns hns)
  obtain ⟨hsound, hkeeps⟩ := rebuild_sound h.sound hb (hs ▸ hw) hc htable' hothers'
  refine ⟨db', hrun', ⟨fun other => ?_, (rebuild_sound h.fresh ha hw hc htable hothers).1, hsound⟩,
    hkeeps⟩
  by_cases hname : other = table
  · rw [hname, htable, htable']
    rfl
  · rw [hothers other hname, hothers' other hname]
    exact h.schema other

end Sqlite
