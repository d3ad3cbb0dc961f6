import Windlass.History

/-!
# The event ingress and the runner

`shell/ingress.rs`, the event loop of `shell/mod.rs` and `runner.rs` as tasks that
take turns: any number of calls of the senders, the tracked actions that work, the
timers and the history writer, and the runner. A step of a task is what it does
between two points at which another task can act: it waits for room in the queue,
borrows the ingress state, replaces it, or sends. The queue is first in, first out,
and nobody replaces the ingress state while it is borrowed.
-/

namespace Windlass

inductive IngressState
  | open' | closing
deriving DecidableEq

/-- Where an event comes from: a call of a sender, a tracked action, or a timer or
the history writer. -/
inductive Producer
  | call (k : Nat)
  | worker (n : Nat)
  | other
deriving DecidableEq

structure WorkerCompletion where
  event : TimedEvent
  storageError : Option String

/-- An input in the queue; a tracked action whose worker fails unexpectedly completes
without a result. -/
inductive Input
  | event (producer : Producer) (event : TimedEvent)
  | completed (worker : Nat) (result : Option WorkerCompletion)
  | shutdown

def eventQueueCapacity : Nat := 64

/-- How far a call of `send_timed` or of `shutdown` has come. -/
inductive Call
  | sending (event : TimedEvent)
  | permitted (event : TimedEvent)
  | borrowing (event : TimedEvent)
  | enqueued (event : TimedEvent)
  | accepted (event : TimedEvent)
  | rejected (event : TimedEvent)
  | stopping
  | stopPermitted
  | stopReplaced
  | stopped (ok : Bool)

/-- A slot of the queue is kept for the call. -/
def Call.holdsPermit : Call → Bool
  | .permitted _ | .borrowing _ | .stopPermitted | .stopReplaced => true
  | _ => false

def Call.holdsBorrow : Call → Bool
  | .borrowing _ | .enqueued _ => true
  | _ => false

/-- Where the runner's loop is. -/
inductive RunnerAt
  | checking
  | emptying
  | closing
  | receiving
  | stopping
  | handling (producer : Producer) (event : TimedEvent)
  | recording (event : TimedEvent) (actions : List Action)
  | dispatching (actions : List Action)
  | finishing
  | finished (ok : Bool)

/-- The runner's core and shell, the calls so far, the tracked actions dispatched and
those of them that work, what the core handled and what was handed to the history
writer. -/
structure Runtime where
  core : Core
  queue : List Input
  closed : Bool
  ingress : IngressState
  calls : List Call
  dispatched : List Action
  workers : List Nat
  activeWorkers : Nat
  latestStorageError : Option String
  runner : RunnerAt
  handled : List (Producer × TimedEvent)
  recorded : List HistoryEntry

/-- Every action but a timer returns its result as an event. -/
def Action.isTracked : Action → Bool
  | .startTimer .. => false
  | _ => true

section
variable (s : Runtime)

def Runtime.room : Bool := s.queue.length + s.calls.countP Call.holdsPermit < eventQueueCapacity

def Runtime.borrowed : Bool := s.calls.any Call.holdsBorrow

def Runtime.setCall (k : Nat) (call : Call) : Runtime := { s with calls := s.calls.set k call }

def Runtime.enqueue (input : Input) : Runtime := { s with queue := s.queue ++ [input] }

/-- The next step of a call: `send_timed` keeps the ingress state borrowed from its
acceptance until its event is enqueued. -/
def Runtime.call (k : Nat) : Runtime :=
  match s.calls[k]? with
  | some (.sending event) =>
    if s.closed then s.setCall k (.rejected event)
    else if s.room then s.setCall k (.permitted event)
    else s
  | some (.permitted event) =>
    if s.ingress = .closing then s.setCall k (.rejected event) else s.setCall k (.borrowing event)
  | some (.borrowing event) => (s.setCall k (.enqueued event)).enqueue (.event (.call k) event)
  | some (.enqueued event) => s.setCall k (.accepted event)
  | some .stopping =>
    if s.closed then s.setCall k (.stopped false)
    else if s.room then s.setCall k .stopPermitted
    else s
  | some .stopPermitted =>
    if s.borrowed then s else { s.setCall k .stopReplaced with ingress := .closing }
  | some .stopReplaced => (s.setCall k (.stopped true)).enqueue .shutdown
  | _ => s

/-- A tracked action ends. -/
def Runtime.work (n : Nat) (result : Option WorkerCompletion) : Runtime :=
  if n ∈ s.workers then
    if s.closed then { s with workers := s.workers.erase n }
    else if s.room then { s with workers := s.workers.erase n, queue := s.queue ++ [.completed n result] }
    else s
  else s

/-- A timer expires, or the history writer reports a loss. -/
def Runtime.report (event : TimedEvent) : Runtime :=
  if !s.closed && s.room then s.enqueue (.event .other event) else s

/-- `Shell::next_event` once an input is received. -/
def Runtime.receive : Input → Runtime
  | .event producer event => { s with runner := .handling producer event }
  | .completed n result =>
    let s : Runtime := { s with activeWorkers := s.activeWorkers - 1 }
    match result with
    | none => { s with closed := true, runner := .finished false }
    | some { event, storageError } =>
      { s with
        latestStorageError := storageError.or s.latestStorageError
        runner := .handling (.worker n) event }
  | .shutdown => { s with runner := .stopping }

/-- `Shell::dispatch` for one action. -/
def Runtime.dispatch (action : Action) : Runtime :=
  if action.isTracked then
    { s with
      activeWorkers := s.activeWorkers + 1
      workers := s.workers ++ [s.dispatched.length]
      dispatched := s.dispatched ++ [action] }
  else s

/-- The next step of `Runner::run`, with the time it reads and whether the history
writer ends as it should. -/
def Runtime.run (processedAt : SystemTime) (joined : Bool) : Runtime :=
  match s.runner with
  | .checking => { s with runner := if s.ingress = .closing then .emptying else .receiving }
  | .emptying =>
    { s with runner := if s.activeWorkers = 0 ∧ s.queue.isEmpty then .closing else .receiving }
  | .closing => { s with closed := true, runner := .finishing }
  | .receiving =>
    match s.queue with
    | [] => if s.closed then { s with runner := .finishing } else s
    | input :: queue => ({ s with queue := queue } : Runtime).receive input
  | .stopping => if s.borrowed then s else { s with ingress := .closing, runner := .checking }
  | .handling producer event =>
    let handled := s.core.handle event.occurredAt event.event
    { s with
      core := handled.1
      handled := s.handled ++ [(producer, event)]
      runner := .recording event handled.2 }
  | .recording event actions =>
    { s with
      recorded := s.recorded ++
        [{ occurredAt := event.occurredAt.wall, processedAt := processedAt, event := event.event,
           actions := actions }]
      runner := .dispatching actions }
  | .dispatching [] => { s with runner := .checking }
  | .dispatching (action :: actions) => { s.dispatch action with runner := .dispatching actions }
  | .finishing => { s with runner := .finished joined }
  | .finished _ => s

end

/-- Whose turn it is: a new call, the next step of a call, the end of a tracked action,
a timer or the history writer, or the runner. -/
inductive Scheduled
  | send (event : TimedEvent)
  | shutdown
  | call (k : Nat)
  | work (n : Nat) (result : Option WorkerCompletion)
  | report (event : TimedEvent)
  | run (processedAt : SystemTime) (joined : Bool)

def Runtime.turn (s : Runtime) : Scheduled → Runtime
  | .send event => { s with calls := s.calls ++ [.sending event] }
  | .shutdown => { s with calls := s.calls ++ [.stopping] }
  | .call k => s.call k
  | .work n result => s.work n result
  | .report event => s.report event
  | .run processedAt joined => s.run processedAt joined

def runtime : Reactive.Machine Runtime Scheduled Empty where
  init :=
    { core := Core.new
      queue := []
      closed := false
      ingress := .open'
      calls := []
      dispatched := []
      workers := []
      activeWorkers := 0
      latestStorageError := none
      runner := .checking
      handled := []
      recorded := [] }
  step s t := (s.turn t, [])

end Windlass
