import Windlass.Sqlite

/-!
# Databases of named tables

A table has named columns, columns that are unique, a check every row must pass,
and its rows. Statements read and write rows by column name, and build, extend,
rename and drop whole tables.
-/

namespace Sqlite

structure Column where
  name : String
  notNull : Bool
  default : Value
deriving DecidableEq

structure Schema where
  columns : List Column
  unique : List String
  check : (String → Value) → Bool

structure Table where
  schema : Schema
  rows : List Row

abbrev Tables := String → Option Table

def Column.nullable (name : String) : Column := { name := name, notNull := false, default := .null }

def Column.required (name : String) : Column := { name := name, notNull := true, default := .null }

/-! ## Columns by name -/

section
variable (s : Schema)

def Schema.names : List String := s.columns.map Column.name

def Schema.cell (row : Row) (name : String) : Value :=
  ((s.columns.zip row).find? fun p => p.1.name == name).elim .null Prod.snd

def Schema.has (names : List String) : Bool := names.all fun name => s.names.contains name

def Schema.passes (read : String → Value) : Bool :=
  (s.columns.all fun c => !c.notNull || read c.name != .null) && s.check read

def Schema.allows (row : Row) : Bool := s.passes (s.cell row)

/-- Rows equal in a unique column clash; an absent value equals no other. -/
def Schema.clash (old row : Row) : Bool :=
  s.unique.any fun name => (s.cell old name).same (s.cell row name)

def Schema.fill (given : List (String × Value)) : Row :=
  s.columns.map fun c => (given.lookup c.name).getD c.default

def Schema.set (given : List (String × Value)) (row : Row) : Row :=
  (s.columns.zip row).map fun p => (given.lookup p.1.name).getD p.2

end

/-! ## Rows -/

section
variable (t : Table)

def Table.cell (row : Row) (name : String) : Value := t.schema.cell row name

/-- The row is added unless it breaks a rule of the table. -/
def Table.add (row : Row) : Option Table :=
  if row.length = t.schema.columns.length ∧ t.schema.allows row ∧
    t.rows.any (t.schema.clash · row) = false then
    some { t with rows := t.rows ++ [row] }
  else none

def Table.insert (given : List (String × Value)) : Option Table :=
  if t.schema.has (given.map Prod.fst) then t.add (t.schema.fill given) else none

/-- The rows of one key; the key is a column and its value. -/
def Table.at (key : String × Value) (row : Row) : Bool := t.cell row key.1 == key.2

def Table.set (key : String × Value) (given : List (String × Value)) : Table :=
  { t with rows := t.rows.map fun row => if t.at key row then t.schema.set given row else row }

/-- Set columns of the row of this key, which is inserted if there is none. -/
def Table.upsert (key : String × Value) (given : List (String × Value)) : Option Table :=
  if t.schema.has (key.1 :: given.map Prod.fst) then
    if t.rows.any (t.at key) then
      if (t.set key given).rows.all t.schema.allows then some (t.set key given) else none
    else t.insert (key :: given)
  else none

def Table.delete (doomed : Row → Bool) : Table := { t with rows := t.rows.filter fun row => !doomed row }

/-- These columns of the first row of this key. -/
def Table.select (names : List String) (key : String × Value) : Option (Option Row) :=
  if t.schema.has (key.1 :: names) then
    some ((t.rows.find? (t.at key)).map fun row => names.map (t.cell row))
  else none

end

/-! ## Tables -/

section
variable (db : Tables)

def Tables.query {α : Type} (name : String) (f : Table → Option α) : Option α := (db name).bind f

def Tables.change (name : String) (f : Table → Option Table) : Option Tables :=
  (db.query name f).map fun t => Function.update db name (some t)

def Tables.upsert (name : String) (key : String × Value) (given : List (String × Value)) :
    Option Tables :=
  db.change name fun t => t.upsert key given

def Tables.select (name : String) (names : List String) (key : String × Value) : Option (Option Row) :=
  db.query name fun t => t.select names key

end

/-- The column of the row of this key, or null. -/
def Table.value (t : Table) (key : String × Value) (name : String) : Value :=
  ((t.rows.find? (t.at key)).map fun row => t.cell row name).getD .null

/-! ## Cells of written rows -/

section
variable {s : Schema} {row : Row} {name : String} {given : List (String × Value)}

theorem cell_cons (c : Column) (columns : List Column) (unique : List String)
    (check : (String → Value) → Bool)
    (v : Value) (row : Row) (name : String) :
    Schema.cell ⟨c :: columns, unique, check⟩ (v :: row) name =
      if c.name = name then v else Schema.cell ⟨columns, unique, check⟩ row name := by
  unfold Schema.cell
  by_cases h : c.name = name <;> simp [h]

theorem cell_fill : ∀ {columns : List Column} {unique : List String} {check : (String → Value) → Bool},
    (h : name ∈ columns.map Column.name) → (hd : ∀ c ∈ columns, c.default = .null) →
    Schema.cell ⟨columns, unique, check⟩ (Schema.fill ⟨columns, unique, check⟩ given) name =
      (given.lookup name).getD .null := by
  intro columns unique check h hd
  induction columns with
  | nil => cases h
  | cons c columns ih =>
    have hf : Schema.fill ⟨c :: columns, unique, check⟩ given =
        (given.lookup c.name).getD c.default :: Schema.fill ⟨columns, unique, check⟩ given := rfl
    rw [hf, cell_cons]
    by_cases hc : c.name = name
    · simp [hc, hd c (by simp)]
    · rw [if_neg hc]
      refine ih ?_ fun c' hc' => hd c' (by simp [hc'])
      simpa [Ne.symm hc] using h

theorem cell_set :
    ∀ {columns : List Column} {unique : List String} {check : (String → Value) → Bool} {row : Row},
    row.length = columns.length → name ∈ columns.map Column.name →
    Schema.cell ⟨columns, unique, check⟩ (Schema.set ⟨columns, unique, check⟩ given row) name =
      (given.lookup name).getD (Schema.cell ⟨columns, unique, check⟩ row name) := by
  intro columns unique check row hl h
  induction columns generalizing row with
  | nil => cases h
  | cons c columns ih =>
    cases row with
    | nil => cases hl
    | cons v row =>
      have hs : Schema.set ⟨c :: columns, unique, check⟩ given (v :: row) =
          (given.lookup c.name).getD v :: Schema.set ⟨columns, unique, check⟩ given row := rfl
      rw [hs, cell_cons, cell_cons]
      by_cases hc : c.name = name
      · simp [hc]
      · rw [if_neg hc, if_neg hc]
        refine ih (by simpa using hl) ?_
        simpa [Ne.symm hc] using h

theorem cell_given (row : List Value) (h : s.has (given.map Prod.fst))
    (hn : (given.map Prod.fst).Nodup) {p : String × Value}
    (hp : p ∈ given) (hd : ∀ c ∈ s.columns, c.default = .null) :
    s.cell (s.fill given) p.1 = p.2 ∧
    (row.length = s.columns.length → s.cell (s.set given row) p.1 = p.2) := by
  have hmem : p.1 ∈ s.columns.map Column.name := by
    have hall := List.all_eq_true.mp h p.1 (List.mem_map_of_mem hp)
    simpa [Schema.names] using hall
  have hl : given.lookup p.1 = some p.2 := by
    clear h hmem
    induction given with
    | nil => cases hp
    | cons q given ih =>
      rw [List.map_cons, List.nodup_cons] at hn
      rcases List.mem_cons.mp hp with rfl | hp
      · simp [List.lookup]
      · have hne : (p.1 == q.1) = false := by
          simp only [beq_eq_false_iff_ne]
          intro heq
          exact hn.1 (heq ▸ List.mem_map_of_mem hp)
        simp [List.lookup, hne, ih hn.2 hp]
  refine ⟨?_, fun hlen => ?_⟩
  · exact (cell_fill hmem hd).trans (by simp [hl])
  · exact (cell_set hlen hmem).trans (by simp [hl])

theorem length_fill : (s.fill given).length = s.columns.length := by
  simp [Schema.fill]

theorem length_set (h : row.length = s.columns.length) : (s.set given row).length = s.columns.length := by
  simp [Schema.set, h]

theorem has_cons {names : List String} :
    s.has (name :: names) = (s.names.contains name && s.has names) := by
  simp [Schema.has]

end

/-! ## Keyed rows -/

/-- Every row keeps the rules of its table. -/
structure Table.Sound (t : Table) : Prop where
  width : ∀ row ∈ t.rows, row.length = t.schema.columns.length
  allowed : ∀ row ∈ t.rows, t.schema.allows row
  apart : t.rows.Pairwise fun old row => t.schema.clash old row = false

section
variable {t t' : Table} {key : String × Value} {given : List (String × Value)} {name : String}

theorem add_sound (h : t.Sound) {row : Row} (ha : t.add row = some t') :
    t'.Sound ∧ t'.rows = t.rows ++ [row] := by
  unfold Table.add at ha
  split at ha
  · next hrow =>
    cases ha
    obtain ⟨hl, hok, hc⟩ := hrow
    refine ⟨⟨?_, ?_, ?_⟩, rfl⟩
    · intro row' hr
      rcases List.mem_append.mp hr with hr | hr
      · exact h.width row' hr
      · rw [List.mem_singleton.mp hr]
        exact hl
    · intro row' hr
      rcases List.mem_append.mp hr with hr | hr
      · exact h.allowed row' hr
      · rw [List.mem_singleton.mp hr]
        exact hok
    · refine List.pairwise_append.mpr ⟨h.apart, List.pairwise_singleton _ _, fun old ho row' hr => ?_⟩
      rw [List.mem_singleton.mp hr]
      exact Bool.eq_false_iff.mpr fun hclash => Bool.eq_false_iff.mp hc
        (List.any_eq_true.mpr ⟨old, ho, hclash⟩)
  · cases ha

theorem cell_key (h : t.Sound) (hkey : t.schema.has [key.1]) (hng : key.1 ∉ given.map Prod.fst)
    {row : Row}
    (hr : row ∈ t.rows) : t.schema.cell (t.schema.set given row) key.1 = t.schema.cell row key.1 := by
  have hlk : given.lookup key.1 = none := by
    rw [List.lookup_eq_none_iff]
    intro p hp
    simp only [bne_iff_ne, ne_eq]
    intro heq
    exact hng (heq ▸ List.mem_map_of_mem hp)
  refine (cell_set (h.width row hr) (by simpa [Schema.has, Schema.names] using hkey)).trans ?_
  rw [hlk]
  rfl

/-- Setting columns of the rows of a key, other than the key itself. -/
theorem set_sound (h : t.Sound) (hu : t.schema.unique = [key.1]) (hkey : t.schema.has [key.1])
    (hng : key.1 ∉ given.map Prod.fst) (hc : (t.set key given).rows.all t.schema.allows) :
    (t.set key given).Sound := by
  have hsame : ∀ row ∈ t.rows,
    t.schema.cell (if t.at key row then t.schema.set given row else row) key.1 =
      t.schema.cell row key.1 := by
    intro row hr
    split
    · exact cell_key h hkey hng hr
    · rfl
  refine ⟨?_, fun row hr => List.all_eq_true.mp hc row hr, ?_⟩
  · intro row' hr'
    obtain ⟨row, hr, rfl⟩ := List.mem_map.mp hr'
    split
    · exact length_set (h.width row hr)
    · exact h.width row hr
  · unfold Table.set
    rw [List.pairwise_map]
    refine h.apart.imp_of_mem fun {a b} ha hb hab => ?_
    unfold Schema.clash at hab ⊢
    rw [hu] at hab ⊢
    simpa [hsame a ha, hsame b hb] using hab

theorem set_value (h : t.Sound) (hkey : t.schema.has [key.1]) (hng : key.1 ∉ given.map Prod.fst)
    (hany : t.rows.any (t.at key)) : (t.set key given).rows.any ((t.set key given).at key) ∧
      ∀ name ∈ t.schema.names, (t.set key given).value key name =
      (given.lookup name).getD (t.value key name) := by
  have hat : ∀ row ∈ t.rows,
      t.at key (if t.at key row then t.schema.set given row else row) = t.at key row := by
    intro row hr
    split
    · unfold Table.at Table.cell
      rw [cell_key h hkey hng hr]
    · rfl
  have hset : (t.set key given).at key = t.at key := rfl
  constructor
  · obtain ⟨row, hr, hrow⟩ := List.any_eq_true.mp hany
    refine List.any_eq_true.mpr ⟨_, List.mem_map_of_mem hr, ?_⟩
    rw [hset, hat row hr]
    exact hrow
  · intro name hname
    obtain ⟨row, hrow⟩ := Option.isSome_iff_exists.mp (List.find?_isSome.mpr (List.any_eq_true.mp hany))
    have hr : row ∈ t.rows := List.mem_of_find?_eq_some hrow
    have hmatch : t.at key row := List.find?_some hrow
    have hfind : (t.set key given).rows.find? ((t.set key given).at key) =
        some (t.schema.set given row) := by
      unfold Table.set
      rw [List.find?_map]
      have hcongr : t.rows.find? (t.at key ∘ fun row =>
        if t.at key row then t.schema.set given row else row) =
          t.rows.find? (t.at key) := List.find?_congr fun row hr => hat row hr
      exact (congrArg _ (hcongr.trans hrow)).trans (by simp [hmatch])
    unfold Table.value
    rw [hfind, hrow]
    exact cell_set (h.width row hr) hname

theorem insert_value (h : t.Sound) (hu : t.schema.unique = [key.1])
    (hd : ∀ c ∈ t.schema.columns, c.default = .null) (hhas : t.schema.has ((key :: given).map Prod.fst))
    (hn : ((key :: given).map Prod.fst).Nodup) (hc : t.schema.allows (t.schema.fill (key :: given)))
    (hany : t.rows.any (t.at key) = false) :
    ∃ t', t.insert (key :: given) = some t' ∧ t'.schema = t.schema ∧ t'.Sound ∧ t'.rows.any (t'.at key) ∧
      ∀ name ∈ t.schema.names, name ≠ key.1 →
      t'.value key name = (given.lookup name).getD (t.value key name) := by
  have hfilled : t.schema.cell (t.schema.fill (key :: given)) key.1 = key.2 :=
    (cell_given [] hhas hn List.mem_cons_self hd).1
  have hnone : ∀ row ∈ t.rows, t.at key row = false := by
    intro row hr
    exact Bool.eq_false_iff.mpr fun hrow => Bool.eq_false_iff.mp hany
      (List.any_eq_true.mpr ⟨row, hr, hrow⟩)
  have hadd : t.add (t.schema.fill (key :: given)) =
      some { t with rows := t.rows ++ [t.schema.fill (key :: given)] } := by
    refine if_pos ⟨length_fill, hc, ?_⟩
    rw [List.any_eq_false]
    intro row hr
    have hrow : t.schema.cell row key.1 ≠ key.2 := by simpa [Table.at, Table.cell] using hnone row hr
    unfold Schema.clash
    rw [hu]
    simp only [List.any_cons, List.any_nil, Bool.or_false, hfilled, Bool.not_eq_true]
    cases hv : t.schema.cell row key.1 <;> simp_all [Value.same]
  refine ⟨_, (if_pos hhas).trans hadd, rfl, (add_sound h hadd).1, ?_, ?_⟩
  · simp [Table.at, Table.cell, hfilled]
  · intro name hname hne
    have hfind : t.rows.find? (t.at key) = none :=
      List.find?_eq_none.mpr fun row hr => by simp [hnone row hr]
    have hfound : (t.rows ++ [t.schema.fill (key :: given)]).find? (t.at key) =
        some (t.schema.fill (key :: given)) := by
      rw [List.find?_append, hfind]
      simp [Table.at, Table.cell, hfilled]
    have hlk : (key :: given).lookup name = given.lookup name := by
      have hkey : (name == key.1) = false := by simpa using hne
      simp [List.lookup, hkey]
    unfold Table.value
    rw [hfind]
    change ((List.find? (t.at key) _).map _).getD _ = _
    rw [hfound]
    exact (cell_fill hname hd).trans (by rw [hlk]; rfl)

/-- An upsert of columns that are all the check asks about takes effect, and leaves
the other columns of the key as they were. -/
theorem upsert_value (h : t.Sound) (hu : t.schema.unique = [key.1])
    (hd : ∀ c ∈ t.schema.columns, c.default = .null) (hhas : t.schema.has ((key :: given).map Prod.fst))
    (hn : ((key :: given).map Prod.fst).Nodup)
    (hc : ∀ read, (∀ p ∈ key :: given, read p.1 = p.2) → t.schema.passes read = true) :
    ∃ t', t.upsert key given = some t' ∧ t'.schema = t.schema ∧ t'.Sound ∧ t'.rows.any (t'.at key) ∧
      ∀ name ∈ t.schema.names, name ≠ key.1 →
      t'.value key name = (given.lookup name).getD (t.value key name) := by
  have hsplit : t.schema.has [key.1] ∧ t.schema.has (given.map Prod.fst) := by
    rw [List.map_cons, has_cons, Bool.and_eq_true] at hhas
    exact ⟨by simpa [Schema.has] using hhas.1, hhas.2⟩
  obtain ⟨hkey, hgiven⟩ := hsplit
  have hng : key.1 ∉ given.map Prod.fst := (List.nodup_cons.mp hn).1
  unfold Table.upsert
  rw [if_pos (by simpa using hhas)]
  by_cases hany : t.rows.any (t.at key)
  · have hall : (t.set key given).rows.all t.schema.allows := by
      unfold Table.set
      rw [List.all_map, List.all_eq_true]
      intro row hr
      rw [Function.comp_apply]
      split
      · next hrow =>
        refine hc _ fun p hp => ?_
        rcases List.mem_cons.mp hp with rfl | hp
        · exact (cell_key h hkey hng hr).trans (by simpa [Table.at, Table.cell] using hrow)
        · exact (cell_given row hgiven (List.nodup_cons.mp hn).2 hp hd).2 (h.width row hr)
      · exact h.allowed row hr
    rw [if_pos hany, if_pos hall]
    obtain ⟨hfound, hvalue⟩ := set_value h hkey hng hany
    exact ⟨_, rfl, rfl, set_sound h hu hkey hng hall, hfound, fun name hname _ => hvalue name hname⟩
  · rw [if_neg hany]
    refine insert_value h hu hd hhas hn (hc _ fun p hp => ?_) (by simpa using hany)
    exact (cell_given [] hhas hn hp hd).1

theorem select_value {names : List String} (hhas : t.schema.has (key.1 :: names)) :
    t.select names key =
      some (if t.rows.any (t.at key) then some (names.map (t.value key)) else none) := by
  unfold Table.select
  rw [if_pos hhas]
  by_cases hany : t.rows.any (t.at key)
  · obtain ⟨row, hrow⟩ := Option.isSome_iff_exists.mp (List.find?_isSome.mpr (List.any_eq_true.mp hany))
    rw [if_pos hany, hrow]
    simp [Table.value, hrow]
  · have hfind : t.rows.find? (t.at key) = none := by
      rw [List.find?_eq_none]
      intro row hr hrow
      exact hany (List.any_eq_true.mpr ⟨row, hr, hrow⟩)
    rw [if_neg hany, hfind]
    rfl

end

/-! ## Statements that build tables -/

inductive Statement
  | createTable (name : String) (schema : Schema)
  | createIndex (table column : String)
  | addColumn (table : String) (column : Column)
  | insertSelect (into : String) (names : Option (List String)) (source : String)
  | dropTable (name : String)
  | renameTable (name renamed : String)

def Table.addColumn (t : Table) (column : Column) : Option Table :=
  if t.schema.names.contains column.name then none
  else
    some { schema := { t.schema with columns := t.schema.columns ++ [column] }
           rows := t.rows.map fun row => row ++ [column.default] }

/-- The rows of a table, by these columns or by all of them. -/
def Table.selectAll (t : Table) (names : Option (List String)) : Option (List Row) :=
  match names with
  | none => some t.rows
  | some names => if t.schema.has names then some (t.rows.map fun row => names.map (t.cell row)) else none

def Statement.run (db : Tables) : Statement → Option Tables
  | .createTable name schema =>
    if (db name).isSome then none
    else some (Function.update db name (some { schema := schema, rows := [] }))
  | .createIndex table column =>
    (db.query table fun t => if t.schema.has [column] then some () else none).map fun _ => db
  | .addColumn table column => db.change table fun t => t.addColumn column
  | .insertSelect into names source =>
    (db.query source fun t => t.selectAll names).bind fun rows => db.change into fun t =>
    rows.foldlM Table.add t
  | .dropTable name => (db name).map fun _ => Function.update db name none
  | .renameTable name renamed =>
    if (db renamed).isSome then none
    else (db name).map fun t => Function.update (Function.update db name none) renamed (some t)

def runAll (db : Tables) (statements : List Statement) : Option Tables :=
  statements.foldlM Statement.run db

theorem runAll_append {db : Tables} (first later : List Statement) :
    runAll db (first ++ later) = (runAll db first).bind fun db => runAll db later :=
  List.foldlM_append ..

@[simp] theorem runAll_nil (db : Tables) : runAll db [] = some db := rfl

theorem runAll_cons {db : Tables} (statement : Statement) (later : List Statement) :
    runAll db (statement :: later) = (statement.run db).bind fun db => runAll db later := rfl

end Sqlite
