import Windlass.Core
import Windlass.Workers
import Windlass.DatabaseSound

/-!
# The program and its database

`runner.rs` and `shell/mod.rs`: every action on durable state is work for a worker
of its own, which opens the database file, and reports back through the event
stream. All other events come from outside. The process may end at any moment; the
next one starts with the file as it was left. The program does the same over its
tables as over the values they hold, so what its runs are shown to do over the values
they do over the tables.
-/

namespace Windlass

def Action.operation? : Action → Option Operation
  | .openStorage mode => some (.openStorage mode)
  | .readMamRequestMode => some .readMamRequestMode
  | .writeMamRequestMode mode => some (.writeMamRequestMode mode)
  | .deleteMamRequestMode => some .deleteMamRequestMode
  | .readSettings => some .readSettings
  | .writeHistoryLimit limit => some (.writeHistoryLimit limit)
  | .writeApiCookie cookie => some (.writeApiCookie cookie)
  | .writeNtfyTopic topic => some (.writeNtfyTopic topic)
  | .readTorrentRegistry => some .readTorrentRegistry
  | .saveTorrents records => some (.saveTorrents records)
  | .readLastVpnSwitch => some .readLastVpnSwitch
  | .saveVpnSwitch switch => some (.saveVpnSwitch switch)
  | .writePointsReserve reserve => some (.writePointsReserve reserve)
  | .writeTorrentLimits limits => some (.writeTorrentLimits limits)
  | .writeRotatedApiCookie cookie => some (.writeRotatedApiCookie cookie)
  | .readMamState => some .readMamState
  | .saveRegistrationAttempt at' => some (.saveRegistrationAttempt at')
  | .saveReminder at' => some (.saveReminder at')
  | .saveRatioGuard guard => some (.saveRatioGuard guard)
  | .readNoticeLog => some .readNoticeLog
  | .saveNotice entry forgetThrough => some (.saveNotice entry forgetThrough)
  | .openHistory | .trimHistory _ | .startTimer .. | .requestPortMapping
      _ | .connectQbittorrent | .syncQbittorrent _
  | .readQbittorrentPreferences | .setQbittorrentListenPort _ | .setQbittorrentQueue
      _ | .qbittorrentCommand _
  | .checkExitIp | .switchVpnServer _ | .sendNotification .. | .mamRequest .. => none

/-- The events that report an operation on the database. -/
def Event.reportsStorage : Event → Bool
  | .startup (.start _) | .mamPause (.set _) | .mamPause .delete => false
  | .startup _ | .mamPause _ => true
  | .settings (.setHistoryLimit _) | .settings (.setApiCookie _) | .settings
      .clearApiCookie | .settings (.setNtfyTopic _)
  | .settings .clearNtfyTopic | .settings (.setPointsReserve _) | .settings (.setTorrentLimits _) => false
  | .settings _ => true
  | .registry (.redownload _) => false
  | .registry _ => true
  | .tunnel (.lastSwitchRead _) | .tunnel .lastSwitchReadFailed | .tunnel .switchSaved | .tunnel
      .switchSaveFailed => true
  | .tunnel _ => false
  | .notification .sendTest | .notification .delivered | .notification (.deliveryFailed _) => false
  | .notification _ => true
  | .mam .enable | .mam (.answered ..) | .mam (.purchaseChecked _) | .mam .ratioUseChecked => false
  | .mam _ => true
  | .history _ | .timerExpired .. | .portForwarding _ | .qbittorrent _ => false

/-- The core, and the workers it asks for what is stored. -/
def program : Workers.Crew Core TimedEvent Action Operation Event ClockReading where
  machine := core
  work? := Action.operation?
  failure := Operation.failure
  deliver at' event := { occurredAt := at', event := event }
  reserved i := i.event.reportsStorage

abbrev Happening := Workers.Act TimedEvent ClockReading

abbrev Running (σ : Type) := Workers.State TimedEvent σ Operation Event

/-- The whole program over the database file. -/
def system (message : Notice → Message) (file : Option Database) :
    Reactive.Machine (Running (Option Database)) Happening Action :=
  program.over (execute message) file

/-- The state of the core in the process under way. -/
def coreOf {σ : Type} (s : Running σ) : Core := core.last s.taken

/-! ## Over what is saved -/

/-- An operation on what is saved; there is nothing before storage is initialised. -/
def Saved.execute (saved : Option Saved) (operation : Operation) : Option Saved × Event :=
  match saved, operation with
  | none, .openStorage .initialise => (some .nothing, .startup .storageOpened)
  | none, operation => (none, operation.failure)
  | some s, operation => (some (s.after operation), s.report operation)

/-- The whole program over what is saved. -/
def ideal (saved : Option Saved) : Reactive.Machine (Running (Option Saved)) Happening Action :=
  program.over Saved.execute saved

/-- The file holds what is saved. -/
def FileHolds (message : Notice → Message) : Option Database → Option Saved → Prop
  | none, none => True
  | some db, some s => s.Held message db
  | _, _ => False

theorem execute_stands (message : Notice → Message) :
    Workers.Stands (execute message) Saved.execute Operation.Valid (FileHolds message) := by
  have hboth : ∀ file saved operation, FileHolds message file saved → operation.Valid →
      (execute message file operation).2 = (Saved.execute saved operation).2 ∧
        FileHolds message (execute message file operation).1 (Saved.execute saved operation).1 := by
    intro file saved operation h hv
    cases file with
    | none =>
      cases saved with
      | none =>
        by_cases hopen : operation = .openStorage .initialise
        · subst hopen
          obtain ⟨db, hexec, hheld⟩ := initialised_held message
          rw [hexec]
          exact ⟨rfl, hheld⟩
        · have hnone : execute message none operation = (none, operation.failure) := by
            cases operation with
            | openStorage mode =>
              cases mode with
              | initialise => exact absurd rfl hopen
              | resume => rfl
            | _ => rfl
          have hnone' : Saved.execute none operation = (none, operation.failure) := by
            cases operation with
            | openStorage mode =>
              cases mode with
              | initialise => exact absurd rfl hopen
              | resume => rfl
            | _ => rfl
          rw [hnone, hnone']
          exact ⟨rfl, trivial⟩
      | some s => exact h.elim
    | some db =>
      cases saved with
      | none => exact h.elim
      | some s =>
        obtain ⟨db', hexec, hheld⟩ := execute_held h hv
        rw [hexec]
        exact ⟨rfl, hheld⟩
  exact ⟨fun file saved operation h hv => (hboth file saved operation h hv).1,
    fun file saved operation h hv => (hboth file saved operation h hv).2⟩

/-- What holds of every operation that a run asks for. -/
def Asks (ok : Operation → Prop)
    (run : List (Reactive.Entry (Running (Option Database)) Happening Action)) : Prop :=
  ∀ e ∈ run, ∀ action ∈ e.out, ∀ operation ∈ action.operation?, ok operation

theorem asks_valid {run : List (Reactive.Entry (Running (Option Database)) Happening Action)}
    (h : run.all fun e => e.out.all fun action => action.operation?.all fun operation =>
      decide operation.Valid) :
    Asks Operation.Valid run := by
  intro e he action ha operation ho
  have hall := List.all_eq_true.mp (List.all_eq_true.mp h e he) action ha
  exact of_decide_eq_true ((Option.all_eq_true _ _).mp hall operation ho)

section
variable {message : Notice → Message} {file : Option Database} {saved : Option Saved}
  {acts : List Happening}

/-- Over the values, the program does at every step what it does over the tables. -/
theorem system_matches (h : FileHolds message file saved)
    (hv : Asks Operation.Valid ((system message file).run acts)) :
    (∀ e' ∈ (ideal saved).run acts, ∃ e ∈ (system message file).run acts,
        e'.after.taken = e.after.taken ∧ e'.out = e.out) ∧
      ((ideal saved).run acts).map Reactive.Entry.out =
      ((system message file).run acts).map Reactive.Entry.out ∧
      Workers.Matches Operation.Valid (FileHolds message) ((system message file).last acts)
      ((ideal saved).last acts) :=
  Workers.run_matches (execute_stands message) h acts hv

/-- From new storage on, the program takes the same steps over the tables of its database
as over the plain values they stand for: the same actions and events, whatever the order of
its workers, failures and restarts, and at every moment the tables hold those values. -/
theorem system_ideal (hv : Asks Operation.Valid ((system message none).run acts)) :
    ((system message none).run acts).map Reactive.Entry.out =
    ((ideal none).run acts).map Reactive.Entry.out ∧
      ∀ earlier, earlier <+: acts →
        ((system message none).last earlier).taken = ((ideal none).last earlier).taken ∧
        ((system message none).last earlier).jobs = ((ideal none).last earlier).jobs ∧
        FileHolds message ((system message none).last earlier).resource
        ((ideal none).last earlier).resource := by
  have h0 : FileHolds message none none := trivial
  obtain ⟨-, hout, -⟩ := system_matches h0 hv
  refine ⟨hout.symm, fun earlier hprefix => ?_⟩
  obtain ⟨later, rfl⟩ := hprefix
  have hv' : Asks Operation.Valid ((system message none).run earlier) := by
    have hsplit : (system message none).run (earlier ++ later) = (system message none).run earlier ++
        (system message none).trace ((system message none).last earlier) later := Reactive.trace_append ..
    intro e he
    exact hv e (hsplit ▸ List.mem_append_left _ he)
  obtain ⟨-, -, hmatch⟩ := system_matches h0 hv'
  exact ⟨hmatch.taken.symm, hmatch.jobs.symm, hmatch.resource⟩

end

/-- A process that opens storage, reads the log and saves the notice of a test. -/
def testedLife (mode : StartupMode) : List Happening :=
  let now : ClockReading := { monotonic := 0, wall := 0 }
  [.input { occurredAt := now, event := .startup (.start mode) }, .perform 0, .complete 0 now,
    .perform 5, .complete 5 now,
    .input { occurredAt := now, event := .notification .sendTest }, .perform 5]

/-- Two lives of the program, over the tables and over the values. -/
theorem tested_ideal :
    ((system (fun _ => noWords) none).run
        (testedLife .initialise ++ .restart :: testedLife .resume)).map Reactive.Entry.out =
      ((ideal none).run (testedLife .initialise ++ .restart :: testedLife .resume)).map
        Reactive.Entry.out := by
  have hvalid : ((system (fun _ => noWords) none).run
      (testedLife .initialise ++ .restart :: testedLife .resume)).all
      (fun e => e.out.all fun action => action.operation?.all fun operation =>
        decide operation.Valid) = true := by
    decide +kernel
  exact (system_ideal (asks_valid hvalid)).1

end Windlass
