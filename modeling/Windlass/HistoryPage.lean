import Windlass.Codec

/-!
# Pages of history

A page of the entries of the history table that a query matches, newest first. The
conditions of the query and their parameters are put together apart, and meet by
place.
-/

namespace Windlass

open Sqlite

/-- How many entries one history page shows. -/
def historyPageSize : Nat := 50

/-- A row of the history table. -/
structure StoredEntry where
  id : Int
  occurredAtMs : Int
  processedAtMs : Int
  category : String
  summary : String
  event : String
  actions : String
  routine : Int
deriving DecidableEq

/-- A position in history, newest first. -/
inductive Page
  | newest
  | before (id : Int)
  | after (id : Int)
deriving DecidableEq

/-- Which history entries to show. -/
structure HistoryQuery where
  category : Option String
  routine : Bool
  from' : Option SystemTime
  until' : Option SystemTime
  page : Page

structure HistoryRow (α : Type) where
  id : Int
  occurredAt : SystemTime
  processedAt : SystemTime
  category : String
  summary : String
  event : String
  actions : α
deriving DecidableEq

/-- A page of entries, newest first. -/
structure HistoryPage (α : Type) where
  rows : List (HistoryRow α)
  hasNewer : Bool
  hasOlder : Bool
deriving DecidableEq

def millis (time : SystemTime) : Int :=
  match time.durationSince 0 with
  | some since => integer (since / 1000000)
  | none => 0

def timeFromMillis (millis : Int) : SystemTime := (u64TryFrom millis).getD 0 * 1000000

/-! ## Conditions -/

inductive Clause
  | notRoutine
  | categoryIs
  | processedFrom
  | processedUntil
  | idBelow
  | idAbove

def Clause.parameters : Clause → Nat
  | .notRoutine => 0
  | _ => 1

def Clause.holds (entry : StoredEntry) : Clause → Value → Bool
  | .notRoutine, _ => entry.routine == 0
  | .categoryIs, value => (Value.text entry.category).same value
  | .processedFrom, value => value.le (.integer entry.processedAtMs)
  | .processedUntil, value => (Value.integer entry.processedAtMs).le value
  | .idBelow, value => (Value.integer entry.id).lt value
  | .idAbove, value => value.lt (.integer entry.id)

/-- Whether an entry meets all conditions, each taking its parameter off the list. -/
def meets (entry : StoredEntry) : List Clause → List Value → Bool
  | [], _ => true
  | clause :: clauses, values =>
    clause.holds entry (values.headD .null) && meets entry clauses (values.drop clause.parameters)

/-- The rows where the conditions hold; other than one parameter for each place is an error. -/
def select (table : List StoredEntry) (clauses : List Clause) (values : List Value) :
    Option (List StoredEntry) :=
  if (clauses.map Clause.parameters).sum =
    values.length then some (table.filter fun entry => meets entry clauses values)
  else none

def HistoryQuery.conditions (query : HistoryQuery) : List Clause :=
  (if !query.routine then [Clause.notRoutine] else []) ++
  (if query.category.isSome then [Clause.categoryIs] else []) ++
    (if query.from'.isSome then [Clause.processedFrom] else []) ++
    if query.until'.isSome then [Clause.processedUntil] else []

def HistoryQuery.values (query : HistoryQuery) : List Value :=
  (query.category.map Value.text).toList ++ (query.from'.map fun time => .integer (millis time)).toList ++
    (query.until'.map fun time => .integer (millis time)).toList

/-! ## The page -/

inductive SortOrder
  | desc | asc
deriving DecidableEq

def SortOrder.sort (rows : List StoredEntry) : SortOrder → List StoredEntry
  | .desc => orderBy (fun entry => -entry.id) rows
  | .asc => orderBy StoredEntry.id rows

section
variable {α : Type} (parse : String → Option α)

/-- An entry as it is shown, with its actions read from their text. -/
def historyRow (entry : StoredEntry) : Option (HistoryRow α) := do
  let actions ← parse entry.actions
  return { id := entry.id, occurredAt := timeFromMillis entry.occurredAtMs,
           processedAt := timeFromMillis entry.processedAtMs, category := entry.category, summary :=
             entry.summary,
           event := entry.event, actions }

/-- Whether a matching entry meets the condition on its id too. -/
def HistoryQuery.exists' (query : HistoryQuery) (table : List StoredEntry) (condition : Clause)
    (id : Int) :
    Option Bool :=
  (select table (query.conditions ++ [condition]) (query.values ++ [.integer id])).map fun found =>
  !found.isEmpty

/-- A page of these rows, and whether there are entries beyond its ends. -/
def HistoryQuery.around (query : HistoryQuery) (table : List StoredEntry) (rows : List (HistoryRow α)) :
    Option (HistoryPage α) :=
  match rows.head?, rows.getLast? with
  | some newest, some oldest => do
    let hasNewer ← query.exists' table .idAbove newest.id
    let hasOlder ← query.exists' table .idBelow oldest.id
    return { rows, hasNewer, hasOlder }
  | _, _ => some { rows, hasNewer := false, hasOlder := false }

/-- Read one page of history matching the query. -/
def readPage (table : List StoredEntry) (query : HistoryQuery) : Option (HistoryPage α) := do
  let (condition, order, anchor) : Option Clause × SortOrder × Option Int :=
    match query.page with
    | .newest => (none, .desc, none)
    | .before id => (some .idBelow, .desc, some id)
    | .after id => (some .idAbove, .asc, some id)
  let found ← select table (query.conditions ++ condition.toList) (query.values ++
    (anchor.map Value.integer).toList)
  let rows ← ((order.sort found).take historyPageSize).mapM (historyRow parse)
  query.around table (if order = .asc then rows.reverse else rows)

end

end Windlass
