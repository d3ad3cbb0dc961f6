import Windlass.Core

/-!
# The history writer

`shell/history.rs` and the loop of `runner.rs`: one writer works off a queue of
commands, in order, and its results reach the core in the order it sent them. The
runner hands it a step's entry before it dispatches that step's actions.
-/

namespace Windlass

/-- One handled event and the actions the core returned for it. -/
structure HistoryEntry where
  occurredAt : SystemTime
  processedAt : SystemTime
  event : Event
  actions : List Action

inductive HistoryCommand
  | record (entry : HistoryEntry)
  | open'
  | trim (keep : EntryCount)

inductive HistoryStore
  | buffering | open' | unavailable
deriving DecidableEq

structure Lost where
  count : Nat
  since : SystemTime
  until' : SystemTime
deriving DecidableEq

/-- The writer beside the rows of the history table, oldest first. -/
structure HistoryWriter where
  store : HistoryStore
  buffer : List HistoryEntry
  lost : Option Lost
  rows : List HistoryEntry

/-- Entries held in memory until the core opens history storage at startup. -/
def bufferLimit : Nat := 1000

/-- What the database does when asked: whether it opens, which inserts succeed, and
whether rows are deleted and counted. -/
structure Disk where
  opens : Bool
  inserts : List Bool
  deletes : Bool
  counts : Bool

/-! ## The writer -/

section
variable (w : HistoryWriter)

def HistoryWriter.lose (processedAt : SystemTime) : HistoryWriter :=
  { w with
    lost :=
      match w.lost with
      | some lost => some { lost with count := lost.count + 1, until' := processedAt }
      | none => some { count := 1, since := processedAt, until' := processedAt } }

def HistoryWriter.record (entry : HistoryEntry) (inserted : Bool) : HistoryWriter × List HistoryEvent :=
  if inserted then
    match w.lost with
    | some { count, since, until' } =>
      ({ w with rows := w.rows ++ [entry], lost := none }, [.entriesLost count since until'])
    | none => ({ w with rows := w.rows ++ [entry] }, [])
  else (w.lose entry.processedAt, [])

def HistoryWriter.recordAll :
    HistoryWriter → List HistoryEntry → List Bool → HistoryWriter × List HistoryEvent
  | w, [], _ => (w, [])
  | w, entry :: entries, inserts =>
    let recorded := w.record entry (inserts.headD false)
    let rest := recorded.1.recordAll entries inserts.tail
    (rest.1, recorded.2 ++ rest.2)

/-- The newest entries, as many as are kept. -/
def newest (keep : EntryCount) (rows : List HistoryEntry) : List HistoryEntry :=
  rows.drop (rows.length - keep)

def HistoryWriter.handle (disk : Disk) : HistoryCommand → HistoryWriter × List HistoryEvent
  | .record entry =>
    match w.store with
    | .open' => w.record entry (disk.inserts.headD false)
    | .buffering =>
      if w.buffer.length < bufferLimit then ({ w with buffer := w.buffer ++ [entry] }, [])
      else (w.lose entry.processedAt, [])
    | .unavailable => (w.lose entry.processedAt, [])
  | .open' =>
    if disk.opens then
      let recorded := ({ w with buffer := [] } : HistoryWriter).recordAll w.buffer disk.inserts
      if disk.counts then
        ({ recorded.1 with store := .open' }, recorded.2 ++ [.opened recorded.1.rows.length])
      else ({ recorded.1 with store := .unavailable }, recorded.2 ++ [.openFailed])
    else ({ w with store := .unavailable }, [.openFailed])
  | .trim keep =>
    match w.store with
    | .open' =>
      if disk.deletes then
        ({ w with rows := newest keep w.rows },
          [if disk.counts then .trimmed (newest keep w.rows).length else .trimFailed])
      else (w, [.trimFailed])
    | .buffering | .unavailable => (w, [.trimFailed])

end

/-! ## The runner and its writer -/

def Action.historyCommand? : Action → Option HistoryCommand
  | .openHistory => some .open'
  | .trimHistory keep => some (.trim keep)
  | _ => none

/-- The core, the commands the writer has not received, and the results the core has
not handled. -/
structure Recorder where
  core : Core
  commands : List HistoryCommand
  writer : HistoryWriter
  results : List HistoryEvent

/-- What happens next: the core handles an event that is not the writer's, or the
writer's oldest result, or the writer works off its oldest command. -/
inductive Recording
  | event (now : ClockReading) (processedAt : SystemTime) (event : Event)
  | result (now : ClockReading) (processedAt : SystemTime)
  | write (disk : Disk)

section
variable (r : Recorder)

def Recorder.take (now : ClockReading) (processedAt : SystemTime) (event : Event) : Recorder :=
  let handled := r.core.handle now event
  { r with
    core := handled.1
    commands := r.commands ++
      .record { occurredAt := now.wall, processedAt := processedAt, event := event,
                actions := handled.2 } ::
        handled.2.filterMap Action.historyCommand? }

def Recorder.step : Recording → Recorder
  | .event now processedAt event =>
    match event with
    | .history _ => r
    | event => r.take now processedAt event
  | .result now processedAt =>
    match r.results with
    | [] => r
    | result :: results =>
      ({ r with results := results } : Recorder).take now processedAt (.history result)
  | .write disk =>
    match r.commands with
    | [] => r
    | command :: commands =>
      { r with
        commands := commands
        writer := (r.writer.handle disk command).1
        results := r.results ++ (r.writer.handle disk command).2 }

end

/-- The recorder over the entries that earlier processes stored. -/
def recorder (rows : List HistoryEntry) : Reactive.Machine Recorder Recording Empty where
  init :=
    { core := Core.new
      commands := []
      writer := { store := .buffering, buffer := [], lost := none, rows := rows }
      results := [] }
  step r m := (r.step m, [])

end Windlass
