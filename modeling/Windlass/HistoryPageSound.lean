import Windlass.HistoryPage

/-!
# Every entry on one page

Read from the newest page and then before the last entry of each page, the entries
that a query matches come up once each, newest first. The page after an entry holds
the entries nearest to it.
-/

namespace Windlass

open Sqlite

/-! ## What a query matches -/

def HistoryQuery.Matches (query : HistoryQuery) (entry : StoredEntry) : Prop :=
  (query.routine = true ∨ entry.routine = 0) ∧
    (∀ category, query.category = some category → entry.category = category) ∧
    (∀ time, query.from' = some time → millis time ≤ entry.processedAtMs) ∧
    ∀ time, query.until' = some time → entry.processedAtMs ≤ millis time

/-- The entries of the table that a query matches, newest first. -/
def HistoryQuery.matching (query : HistoryQuery) (table : List StoredEntry) : List StoredEntry :=
  orderBy (fun entry => -entry.id) (table.filter fun entry => meets entry query.conditions query.values)

section
variable {entry : StoredEntry} {table : List StoredEntry} {query : HistoryQuery}

theorem meets_append {clauses : List Clause} {values : List Value} (later : List Clause)
    (rest : List Value)
    (h : (clauses.map Clause.parameters).sum = values.length) :
    meets entry (clauses ++ later) (values ++ rest) =
    (meets entry clauses values && meets entry later rest) := by
  induction clauses generalizing values with
  | nil =>
    obtain rfl := List.eq_nil_of_length_eq_zero h.symm
    rfl
  | cons clause clauses ih =>
    rw [List.map_cons, List.sum_cons] at h
    have hle : clause.parameters ≤ values.length := h ▸ Nat.le_add_right _ _
    have hrest : (clauses.map Clause.parameters).sum = (values.drop clause.parameters).length := by
      rw [List.length_drop, ← h, Nat.add_sub_cancel_left]
    have hholds : clause.holds entry ((values ++ rest).headD .null) =
        clause.holds entry (values.headD .null) := by
      cases values with
      | nil =>
        cases clause with
        | notRoutine => rfl
        | _ => exact absurd hle (Nat.not_succ_le_zero 0)
      | cons value values => rfl
    rw [List.cons_append, meets, meets, List.drop_append_of_le_length hle, hholds, ih hrest,
      Bool.and_assoc]

theorem conditions_parameters (query : HistoryQuery) :
    (query.conditions.map Clause.parameters).sum = query.values.length := by
  obtain ⟨category, routine, from', until', page⟩ := query
  cases category <;> cases routine <;> cases from' <;> cases until' <;> rfl

theorem meets_conditions : meets entry query.conditions query.values = true ↔ query.Matches entry := by
  obtain ⟨category, routine, from', until', page⟩ := query
  cases category <;> cases routine <;> cases from' <;> cases until' <;>
    simp [HistoryQuery.conditions, HistoryQuery.values, HistoryQuery.Matches, meets, Clause.holds,
      Clause.parameters,
      Value.same, Value.le]

theorem mem_matching : entry ∈ query.matching table ↔ entry ∈ table ∧ query.Matches entry := by
  unfold HistoryQuery.matching
  rw [orderBy_perm.mem_iff, List.mem_filter, meets_conditions]

theorem nodup_neg (hids : (table.map StoredEntry.id).Nodup) :
    (table.map fun entry => -entry.id).Nodup := by
  rw [← Function.comp_def, ← List.map_map]
  exact hids.map neg_injective

theorem nodup_filter (hids : (table.map StoredEntry.id).Nodup) (p : StoredEntry → Bool) :
    ((table.filter p).map StoredEntry.id).Nodup :=
  (List.filter_sublist.map _).nodup hids

theorem matching_pairwise (hids : (table.map StoredEntry.id).Nodup) :
    (query.matching table).Pairwise fun a b => b.id < a.id :=
  (orderBy_lt (nodup_neg (nodup_filter hids _))).imp Int.neg_lt_neg_iff.mp

/-! ## Selecting -/

theorem select_anchored {clause : Clause} (h : clause.parameters = 1) (id : Int) :
    select table (query.conditions ++ [clause]) (query.values ++ [.integer id]) =
      some ((table.filter fun entry => meets entry query.conditions query.values).filter fun entry =>
        clause.holds entry (.integer id)) := by
  have hsum : ((query.conditions ++ [clause]).map Clause.parameters).sum =
      (query.values ++ [Value.integer id]).length := by
    rw [List.map_append, List.sum_append, conditions_parameters, List.length_append]
    exact congrArg _ h
  unfold select
  rw [if_pos hsum, List.filter_filter]
  congr 2
  funext entry
  rw [meets_append _ _ (conditions_parameters query), Bool.and_comm]
  exact congrArg (· && _) (Bool.and_true _)

theorem select_newest (query : HistoryQuery) (table : List StoredEntry) :
    select table (query.conditions ++ []) (query.values ++ []) =
      some (table.filter fun entry => meets entry query.conditions query.values) := by
  unfold select
  rw [List.append_nil, List.append_nil, if_pos (conditions_parameters query)]

theorem sort_desc (hids : (table.map StoredEntry.id).Nodup) (p : StoredEntry → Bool) :
    SortOrder.desc.sort ((table.filter fun entry => meets entry query.conditions query.values).filter p) =
      (query.matching table).filter p :=
  orderBy_filter (nodup_neg (nodup_filter hids _)) p

theorem sort_asc (hids : (table.map StoredEntry.id).Nodup) (p : StoredEntry → Bool) :
    SortOrder.asc.sort ((table.filter fun entry => meets entry query.conditions query.values).filter p) =
      ((query.matching table).filter p).reverse :=
  (orderBy_neg (nodup_filter (nodup_filter hids _) p)).trans (congrArg List.reverse (sort_desc hids p))

/-! ## One page -/

def Page.entries (matching : List StoredEntry) : Page → List StoredEntry
  | .newest => matching.take historyPageSize
  | .before id => (matching.filter fun entry => entry.id < id).take historyPageSize
  | .after id => ((matching.filter fun entry => id < entry.id).reverse.take historyPageSize).reverse

section
variable {α : Type} {parse : String → Option α} {recorded : StoredEntry → α}

/-- An entry as it is shown, with the actions that were recorded. -/
def shown (recorded : StoredEntry → α) (entry : StoredEntry) : HistoryRow α where
  id := entry.id
  occurredAt := timeFromMillis entry.occurredAtMs
  processedAt := timeFromMillis entry.processedAtMs
  category := entry.category
  summary := entry.summary
  event := entry.event
  actions := recorded entry

theorem mapM_historyRow {rows : List StoredEntry} (h : ∀ e ∈ rows, parse e.actions = some (recorded e)) :
    rows.mapM (historyRow parse) = some (rows.map (shown recorded)) := by
  induction rows with
  | nil => rfl
  | cons e rows ih =>
    obtain ⟨he, hrows⟩ := List.forall_mem_cons.mp h
    have hrow : historyRow parse e = some (shown recorded e) := by
      unfold historyRow
      rw [he]
      rfl
    rw [List.mapM_cons, hrow, ih hrows]
    rfl

theorem holds_idAbove {id : Int} :
    Clause.holds entry .idAbove (.integer id) = decide (id < entry.id) := by
  rw [Bool.eq_iff_iff]
  simp only [Clause.holds, Value.lt, Value.le, Bool.and_eq_true, Bool.not_eq_true', decide_eq_true_iff,
    decide_eq_false_iff_not, not_le, and_iff_right_of_imp le_of_lt]

theorem holds_idBelow {id : Int} :
    Clause.holds entry .idBelow (.integer id) = decide (entry.id < id) := by
  rw [Bool.eq_iff_iff]
  simp only [Clause.holds, Value.lt, Value.le, Bool.and_eq_true, Bool.not_eq_true', decide_eq_true_iff,
    decide_eq_false_iff_not, not_le, and_iff_right_of_imp le_of_lt]

theorem exists_eq (query : HistoryQuery) (table : List StoredEntry) (clause : Clause)
    (h : clause.parameters = 1)
    (id : Int) :
    ∃ found, query.exists' table clause id = some found ∧
      (found = true ↔ ∃ e ∈ query.matching table, clause.holds e (.integer id) = true) := by
  refine ⟨_, congrArg (Option.map _) (select_anchored h id), ?_⟩
  rw [Bool.not_eq_true', List.isEmpty_eq_false_iff_exists_mem]
  refine exists_congr fun e => ?_
  rw [List.mem_filter, List.mem_filter, meets_conditions, mem_matching]

theorem around_eq (query : HistoryQuery) (table : List StoredEntry) (rows : List (HistoryRow α)) :
    ∃ page, query.around table rows = some page ∧ page.rows = rows ∧
      (page.hasNewer = true ↔ ∃ newest, rows.head? = some newest ∧
        ∃ e ∈ query.matching table, newest.id < e.id) ∧
      (page.hasOlder = true ↔ ∃ oldest, rows.getLast? = some oldest ∧
        ∃ e ∈ query.matching table, e.id < oldest.id) := by
  unfold HistoryQuery.around
  cases hhead : rows.head? with
  | none =>
    obtain rfl := List.head?_eq_none_iff.mp hhead
    exact ⟨_, rfl, rfl, iff_of_false nofun nofun, iff_of_false nofun nofun⟩
  | some newest =>
    obtain ⟨oldest, hlast⟩ := Option.isSome_iff_exists.mp
      (List.getLast?_isSome.mpr (List.ne_nil_of_mem (List.mem_of_head? hhead)))
    obtain ⟨newer, hnewer, hnewer'⟩ := exists_eq query table .idAbove rfl newest.id
    obtain ⟨older, holder, holder'⟩ := exists_eq query table .idBelow rfl oldest.id
    rw [hlast]
    dsimp only
    rw [hnewer, holder]
    refine ⟨_, rfl, rfl, hnewer'.trans ?_, holder'.trans ?_⟩
    · simp only [holds_idAbove, decide_eq_true_iff, Option.some.injEq, exists_eq_left']
    · simp only [holds_idBelow, decide_eq_true_iff, Option.some.injEq, exists_eq_left']

theorem readPage_eq (query : HistoryQuery) (hids : (table.map StoredEntry.id).Nodup)
    (hparse : ∀ e ∈ table, parse e.actions = some (recorded e)) :
    ∃ page, readPage parse table query = some page ∧
      page.rows = (query.page.entries (query.matching table)).map (shown recorded) ∧
      (page.hasNewer = true ↔ ∃ newest, page.rows.head? = some newest ∧
        ∃ e ∈ query.matching table, newest.id < e.id) ∧
      (page.hasOlder = true ↔ ∃ oldest, page.rows.getLast? = some oldest ∧
        ∃ e ∈ query.matching table, e.id < oldest.id) := by
  have hread : readPage parse table query =
      query.around table ((query.page.entries (query.matching table)).map (shown recorded)) := by
    have hmap (rows : List StoredEntry) (hrows : rows ⊆ query.matching table) :
        rows.mapM (historyRow parse) = some (rows.map (shown recorded)) :=
      mapM_historyRow fun e he => hparse e (mem_matching.mp (hrows he)).1
    unfold readPage
    cases hpage : query.page with
    | newest =>
      have hselect := select_newest query table
      have hrows := hmap ((query.matching table).take historyPageSize) (List.take_subset _ _)
      dsimp only [Option.toList, Option.map]
      rw [hselect]
      dsimp only [bind, Option.bind]
      rw [show SortOrder.desc.sort _ = query.matching table from rfl, hrows]
      rfl
    | before id =>
      have hrows := hmap (((query.matching table).filter fun e => e.id < id).take historyPageSize)
        fun e he => List.mem_of_mem_filter (List.mem_of_mem_take he)
      dsimp only [Option.toList, Option.map]
      rw [select_anchored rfl]
      dsimp only [bind, Option.bind]
      rw [sort_desc hids]
      simp only [holds_idBelow]
      rw [hrows]
      rfl
    | after id =>
      have hrows := hmap (((query.matching table).filter fun e => id < e.id).reverse.take historyPageSize)
        fun e he => List.mem_of_mem_filter (List.mem_reverse.mp (List.mem_of_mem_take he))
      dsimp only [Option.toList, Option.map]
      rw [select_anchored rfl]
      dsimp only [bind, Option.bind]
      rw [sort_asc hids]
      simp only [holds_idAbove]
      rw [hrows]
      exact congrArg (query.around table) List.map_reverse.symm
  obtain ⟨page, haround, hrows, hnewer, holder⟩ := around_eq query table
    ((query.page.entries (query.matching table)).map (shown recorded))
  exact ⟨page, hread.trans haround, hrows, hrows ▸ hnewer, hrows ▸ holder⟩

end

/-! ## Page after page -/

/-- The pages read from a position on, each before the last entry of the one it follows. -/
inductive Follows {α : Type} (parse : String → Option α) (table : List StoredEntry)
    (query : HistoryQuery) :
    Page → List (HistoryPage α) → Prop
  | last {position : Page} {page : HistoryPage α}
      (h : readPage parse table { query with page := position } = some page)
      (ho : page.hasOlder = false) : Follows parse table query position [page]
  | older {position : Page} {page : HistoryPage α} {oldest : HistoryRow α} {later : List (HistoryPage α)}
      (h : readPage parse table { query with page := position } = some page) (ho : page.hasOlder = true)
      (hlast : page.rows.getLast? =
        some oldest) (hlater : Follows parse table query (.before oldest.id) later) :
      Follows parse table query position (page :: later)

theorem filter_below {before after : List StoredEntry}
    (h : (before ++ entry :: after).Pairwise fun a b => b.id < a.id) :
    ((before ++ entry :: after).filter fun e => e.id < entry.id) = after := by
  obtain ⟨-, hafter, hbefore⟩ := List.pairwise_append.mp h
  rw [List.filter_append, List.filter_eq_nil_iff.mpr fun e he => ?_, List.nil_append,
    List.filter_cons_of_neg ?_,
    List.filter_eq_self.mpr fun e he => ?_]
  · exact decide_eq_true ((List.pairwise_cons.mp hafter).1 e he)
  · exact fun hlt => lt_irrefl _ (of_decide_eq_true hlt)
  · exact fun hlt => lt_asymm (of_decide_eq_true hlt) (hbefore e he entry List.mem_cons_self)

section
variable {α : Type} {parse : String → Option α} {recorded : StoredEntry → α}

theorem follows_last {position : Page} {page : HistoryPage α}
    (h : readPage parse table { query with page := position } = some page) (ho : page.hasOlder = false)
    (pages : List (HistoryPage α)) : Follows parse table query position pages ↔ pages = [page] := by
  constructor
  · intro hf
    cases hf with
    | last h' => rw [Option.some.inj (h'.symm.trans h)]
    | older h' ho' => exact absurd ho' (Bool.eq_false_iff.mp (Option.some.inj (h.symm.trans h') ▸ ho))
  · rintro rfl
    exact .last h ho

theorem follows_older {position : Page} {page : HistoryPage α} {oldest : HistoryRow α}
    (h : readPage parse table { query with page := position } = some page) (ho : page.hasOlder = true)
    (hlast : page.rows.getLast? = some oldest) (pages : List (HistoryPage α)) :
    Follows parse table query position pages ↔
      ∃ later, pages = page :: later ∧ Follows parse table query (.before oldest.id) later := by
  constructor
  · intro hf
    cases hf with
    | last h' ho' => exact absurd ho (Bool.eq_false_iff.mp (Option.some.inj (h'.symm.trans h) ▸ ho'))
    | older h' _ hlast' hlater =>
      obtain rfl := Option.some.inj (h'.symm.trans h)
      obtain rfl := Option.some.inj (hlast'.symm.trans hlast)
      exact ⟨_, rfl, hlater⟩
  · rintro ⟨later, rfl, hlater⟩
    exact .older h ho hlast hlater

/-- Read from a position whose entries are the first of the rest, the rest comes up. -/
theorem follows_from (hids : (table.map StoredEntry.id).Nodup)
    (hparse : ∀ e ∈ table, parse e.actions = some (recorded e)) {before rest : List StoredEntry}
    {position : Page}
    (hmatching : query.matching table = before ++ rest)
    (hentries : position.entries (query.matching table) = rest.take historyPageSize) :
    ∃ pages, Follows parse table query position pages ∧
      (∀ pages', Follows parse table query position pages' → pages' = pages) ∧
      pages.flatMap HistoryPage.rows = rest.map (shown recorded) ∧
      ∀ page ∈ pages, page.rows.length ≤ historyPageSize := by
  -- by how many matching entries are left from this position on
  induction hn : rest.length using Nat.strongRecOn generalizing before rest position with
  | _ n ih =>
    obtain ⟨page, hread, hrows, -, holder⟩ :=
      readPage_eq { query with page := position } hids hparse
    replace hrows : page.rows = (rest.take historyPageSize).map (shown recorded) := hentries ▸ hrows
    have hlength : page.rows.length ≤ historyPageSize := by
      rw [hrows, List.length_map]
      exact List.length_take_le _ _
    obtain hnil | ⟨front, x, hlast⟩ := List.eq_nil_or_concat' (rest.take historyPageSize)
    · have hrest : rest = [] := (List.take_eq_nil_iff.mp hnil).resolve_left (by decide)
      have ho : page.hasOlder = false := by
        rw [← Bool.not_eq_true, holder, hrows, hnil]
        nofun
      refine ⟨[page], (follows_last hread ho _).mpr rfl,
        fun pages' => (follows_last hread ho pages').mp, ?_, ?_⟩
      · rw [List.flatMap_singleton, hrows, hnil, hrest]
      · rintro _ (_ | ⟨_, ⟨⟩⟩)
        exact hlength
    · obtain ⟨tail, htail⟩ : ∃ tail, rest = front ++ [x] ++ tail :=
        ⟨rest.drop historyPageSize, hlast ▸ (List.take_append_drop historyPageSize rest).symm⟩
      have hsplit : query.matching table = (before ++ front) ++ x :: tail := by
        rw [hmatching, htail, List.append_assoc, List.append_assoc]
        rfl
      have hbelow : ((query.matching table).filter fun e => e.id < x.id) = tail :=
        hsplit ▸ filter_below (hsplit ▸ matching_pairwise hids)
      have holdest : page.rows.getLast? = some (shown recorded x) := by
        rw [hrows, hlast, List.map_append]
        exact List.getLast?_concat
      have hshown : page.rows = (front ++ [x]).map (shown recorded) := hlast ▸ hrows
      have ho : page.hasOlder = true ↔ tail ≠ [] := by
        rw [holder, holdest, ← hbelow, Ne, List.filter_eq_nil_iff]
        simp [shown, HistoryQuery.matching, HistoryQuery.conditions, HistoryQuery.values]
      -- nothing below the oldest entry of the page makes it the last page
      cases tail with
      | nil =>
        have ho : page.hasOlder = false := Bool.eq_false_iff.mpr fun h => ho.mp h rfl
        refine ⟨[page], (follows_last hread ho _).mpr rfl,
          fun pages' => (follows_last hread ho pages').mp, ?_, ?_⟩
        · rw [List.flatMap_singleton, hshown, htail, List.append_nil]
        · rintro _ (_ | ⟨_, ⟨⟩⟩)
          exact hlength
      | cons y tail =>
        have ho := ho.mpr (List.cons_ne_nil y tail)
        have hless : (y :: tail).length < n := by
          rw [← hn, htail, List.length_append, List.length_append]
          exact Nat.lt_add_of_pos_left (Nat.succ_pos _)
        have hrest : query.matching table = before ++ front ++ [x] ++ (y :: tail) :=
          hsplit.trans (by simp)
        have hnext : Page.entries (query.matching table) (.before x.id) =
            (y :: tail).take historyPageSize :=
          congrArg (List.take historyPageSize) hbelow
        obtain ⟨later, hfollows, honly, hall, hsizes⟩ := ih _ hless hrest hnext rfl
        have hlengths : ∀ p ∈ page :: later, p.rows.length ≤ historyPageSize :=
          List.forall_mem_cons.mpr ⟨hlength, hsizes⟩
        refine ⟨page :: later, (follows_older hread ho holdest _).mpr ⟨later, rfl, hfollows⟩,
          fun pages' hf => ?_,
          ?_, hlengths⟩
        · obtain ⟨later', rfl, hlater⟩ := (follows_older hread ho holdest pages').mp hf
          rw [honly later' hlater]
        · rw [List.flatMap_cons, hall, hshown, htail]
          exact List.map_append.symm

/-- Read from the newest page on, the entries that match come up once each, newest first; the page
after an entry holds those nearest to it; and each page says whether more lie beyond its ends. -/
theorem history_paged {parse : String → Option α} {recorded : StoredEntry → α} {table : List StoredEntry}
    (query : HistoryQuery) (hids : (table.map StoredEntry.id).Nodup)
    (hparse : ∀ e ∈ table, parse e.actions = some (recorded e)) :
    ((query.matching table).Pairwise fun a b => b.id < a.id) ∧
      (∀ e, e ∈ query.matching table ↔ e ∈ table ∧ query.Matches e) ∧
      (∃ pages, (∀ pages', Follows parse table query .newest pages' ↔ pages' = pages) ∧
        pages.flatMap HistoryPage.rows = (query.matching table).map (shown recorded) ∧
        ∀ page ∈ pages, page.rows.length ≤ historyPageSize) ∧
      (∀ id, ∃ page farther, readPage parse table { query with page := .after id } = some page ∧
        ((query.matching table).filter fun e => id < e.id).map (shown recorded) = farther ++ page.rows ∧
        page.rows.length = min historyPageSize ((query.matching table).filter fun e =>
          id < e.id).length) ∧
      ∀ position page, readPage parse table { query with page := position } = some page →
        (page.hasNewer = true ↔ ∃ newest, page.rows.head? = some newest ∧
          ∃ e ∈ query.matching table, newest.id < e.id) ∧
        (page.hasOlder = true ↔ ∃ oldest, page.rows.getLast? = some oldest ∧
          ∃ e ∈ query.matching table, e.id < oldest.id) := by
  refine ⟨matching_pairwise hids, fun e => mem_matching, ?_, fun id => ?_, fun position page h => ?_⟩
  · have hnone : query.matching table = [] ++ query.matching table := rfl
    have hnewest : Page.entries (query.matching table) .newest =
      (query.matching table).take historyPageSize := rfl
    obtain ⟨pages, hfollows, honly, hall, hsizes⟩ := follows_from hids hparse hnone hnewest
    exact ⟨pages, fun pages' => ⟨honly pages', fun h => h ▸ hfollows⟩, hall, hsizes⟩
  · obtain ⟨page, hread, hrows, -⟩ :=
      readPage_eq { query with page := .after id } hids hparse
    replace hrows : page.rows =
        (((query.matching table).filter fun e => id < e.id).reverse.take historyPageSize).reverse.map
          (shown recorded) := hrows
    generalize ((query.matching table).filter fun e => id < e.id) = newer at hrows
    rw [List.take_reverse, List.reverse_reverse] at hrows
    refine ⟨page, (newer.take (newer.length - historyPageSize)).map (shown recorded), hread, ?_, ?_⟩
    · rw [hrows, ← List.map_append, List.take_append_drop]
    · rw [hrows, List.length_map, List.length_drop, Nat.sub_sub_eq_min, Nat.min_comm]
  · obtain ⟨page', hread, -, hnewer, holder⟩ :=
      readPage_eq { query with page := position } hids hparse
    obtain rfl := Option.some.inj (h.symm.trans hread)
    exact ⟨hnewer, holder⟩

end

end

def plainEntry (id : Int) : StoredEntry where
  id := id
  occurredAtMs := 0
  processedAtMs := 0
  category := "MAM"
  summary := ""
  event := "{}"
  actions := "[]"
  routine := 0

def mamEntries : HistoryQuery where
  category := some "MAM"
  routine := false
  from' := none
  until' := none
  page := .newest

def manyEntries : List StoredEntry := (List.range 120).reverse.map fun n => plainEntry (n + 1)

def storedEntries : List StoredEntry :=
  { plainEntry 121 with routine := 1 } :: manyEntries ++ [{ plainEntry 122 with category := "VPN" }]

def emptyActions (actions : String) : Option Unit := if actions = "[]" then some () else none

/-- Of 120 entries that match, three pages at least are read, and the page after the
twentieth entry is full, with more on both sides. -/
theorem many_entries_paged :
    (∃ pages, (∀ pages', Follows emptyActions storedEntries mamEntries .newest pages' ↔ pages' = pages) ∧
      pages.flatMap HistoryPage.rows = manyEntries.map (shown fun _ => ()) ∧ 2 < pages.length) ∧
    ∃ page, readPage emptyActions storedEntries { mamEntries with page := .after 20 } = some page ∧
      page.rows = ((manyEntries.drop 50).take 50).map (shown fun _ => ()) ∧ page.hasNewer = true ∧
      page.hasOlder = true := by
  have hparse (e : StoredEntry) (he : e ∈ storedEntries) : emptyActions e.actions = some () := by
    revert e
    decide +kernel
  have hids : (storedEntries.map StoredEntry.id).Nodup := by decide +kernel
  have hmatching : mamEntries.matching storedEntries = manyEntries := by
    have hfilter : storedEntries.filter (fun e => meets e mamEntries.conditions mamEntries.values) =
        manyEntries := by
      decide +kernel
    unfold HistoryQuery.matching
    rw [hfilter]
    exact orderBy_unique (.refl _) (by decide +kernel)
  obtain ⟨-, -, ⟨pages, hfollows, hall, hsizes⟩, hafter, hends⟩ :=
    @history_paged Unit emptyActions (fun _ => ()) _ mamEntries hids hparse
  rw [hmatching] at hall hends
  constructor
  · refine ⟨pages, hfollows, hall, ?_⟩
    have hcount : 120 = (pages.map fun page => page.rows.length).sum := by
      rw [← List.length_flatMap, hall]
      rfl
    have hmost : (pages.map fun page => page.rows.length).sum ≤
        (pages.map fun page => page.rows.length).length • 50 :=
      List.sum_le_card_nsmul _ 50 (List.forall_mem_map.mpr hsizes)
    rw [List.length_map, smul_eq_mul] at hmost
    omega
  · obtain ⟨page, farther, hread, hrows, hlength⟩ := hafter 20
    rw [hmatching] at hrows hlength
    have hpage : page.rows = ((manyEntries.drop 50).take 50).map (shown fun _ => ()) := by
      have hsplit : (manyEntries.filter fun e => 20 < e.id).map (shown fun _ => ()) =
          (manyEntries.take 50).map (shown fun _ => ()) ++
          ((manyEntries.drop 50).take 50).map (shown fun _ => ()) := by
        decide +kernel
      refine (List.append_inj' (hrows.symm.trans hsplit) (hlength.trans ?_)).2
      decide +kernel
    obtain ⟨hnewer, holder⟩ := hends _ _ hread
    refine ⟨page, hread, hpage, hnewer.mpr ?_, holder.mpr ?_⟩
    · rw [hpage]
      exact ⟨shown (fun _ => ()) (plainEntry 70), rfl, plainEntry 71, by decide +kernel, by decide⟩
    · rw [hpage]
      exact ⟨shown (fun _ => ()) (plainEntry 21), rfl, plainEntry 20, by decide +kernel, by decide⟩

end Windlass
