import Windlass.Cell
import Windlass.GuardSound

/-!
# What is stored of the ratio guard

The shell runs every save of the guard, and the reading of it, as a task of its
own. The core does not wait for one save to end before it asks for the next, so
what is stored in the end depends on the order in which the tasks write.
-/

namespace Windlass

open Storage

/-! ## What one step saves -/

section
variable (c : Core) (now : ClockReading) (event : Event)

/-- What the guard is and what of it is saved after a step, the owner's check of a
ratio use included. -/
def Core.guardNext : RatioGuard × List SavedRatioGuard :=
  match event with
  | .mam .ratioUseChecked =>
    ((c.mam.ratioGuard.checked (c.mam.account.data.map (·.downloaded))).1,
      (c.mam.ratioGuard.checked (c.mam.account.data.map (·.downloaded))).2.toList)
  | event => c.guardAfter now event

theorem mam_checked_guard (m : Mam) (registry : Registry) :
    ((m.ratioUseChecked now registry).1.ratioGuard, guardsSaved (m.ratioUseChecked now registry).2.2) =
      ((m.ratioGuard.checked (m.account.data.map (·.downloaded))).1,
        (m.ratioGuard.checked (m.account.data.map (·.downloaded))).2.toList) := by
  unfold Mam.ratioUseChecked
  split
  · next guard saved hc =>
    obtain ⟨hg, ho⟩ := followDownloads_guard
      { m with ratioGuard := guard, notices := m.notices ++ [.ratioUseChecked] } now registry
    dsimp only
    rw [hg, hc]
    simp only [guardsSaved, List.filterMap_cons, Action.savesGuard?] at ho ⊢
    rw [ho]
    rfl
  · next guard hc =>
    unfold RatioGuard.checked at hc ⊢
    split at hc
    · cases hc
    · rfl

theorem handle_guardNext :
    ((c.handle now event).1.mam.ratioGuard,
      guardsSaved (c.handle now event).2) = c.guardNext now event := by
  by_cases he : event = .mam .ratioUseChecked
  · subst he
    have hm := mam_checked_guard now c.mam c.registry
    rw [handle_guard_received, received_mam]
    simp only [Core.dispatch, Core.handleMam, Mam.handle, guardsSaved_append]
    exact (congrArg (Prod.mk _) (List.append_nil _)).trans hm
  · have hn : c.guardNext now event = c.guardAfter now event := by
      unfold Core.guardNext
      split
      · exact absurd rfl he
      · rfl
    rw [hn]
    exact handle_guard c now event he

end

/-! ## What one step reads -/

def Action.readsState? : Action → Option Unit
  | .readMamState => some ()
  | _ => none

theorem readsState_mam (a : Action) (h : a.part ≠ .mam) : a.readsState? = none := by
  cases a <;> first | rfl | exact absurd rfl h

def stateReads (out : List Action) : Nat := (out.filterMap Action.readsState?).length

theorem mam_handle_unread (m : Mam) (now : ClockReading) (registry : Registry) (e : MamEvent) :
    (m.handle now e registry).2.2.1.filterMap Action.readsState? = [] := by
  by_cases he : e = .registrationAttemptSaved
  · subst he
    simp only [Mam.handle, Mam.registrationAttemptSaved]
    split
    · split <;> rfl
    · rfl
  · apply List.filterMap_eq_nil_iff.mpr
    intro a ha
    obtain hr | ⟨guard, rfl⟩ := mam_handle_books m now registry he _ ha
    · exact readsState_mam a (by rw [hr]; decide)
    · rfl

section
variable (c : Core) (now : ClockReading) (event : Event)

theorem dispatch_reads : stateReads (c.dispatch now event).2 = if c.opensStorage event then 1 else 0 := by
  unfold stateReads
  by_cases hs : ∃ e, event = .startup e
  · obtain ⟨e, rfl⟩ := hs
    have hopens : (c.state.isOpeningStorage && (c.state.handleStartup e).1.isReadingMamPreference) =
        c.opensStorage (.startup e) := rfl
    rw [Core.dispatch, handleStartup_mam_out readsState_mam, hopens]
    split <;> rfl
  · rw [dispatch_mam_out readsState_mam c now fun e h => hs ⟨e, h⟩]
    cases event with
    | startup e => exact absurd ⟨e, rfl⟩ hs
    | mam e =>
      dsimp only
      rw [mam_handle_unread]
      rfl
    | _ => rfl

theorem scheduleWake_unread (m : Mam) (early : Bool) (timers : Timers) :
    (m.scheduleWake now early timers).2.2.filterMap Action.readsState? = [] := by
  unfold Mam.scheduleWake
  split
  · rfl
  · split <;> rfl

theorem handle_reads : stateReads (c.handle now event).2 = if c.opensStorage event then 1 else 0 := by
  obtain ⟨hreminded, hsent⟩ :=
    @decision_out _ Action.readsState? (fun _ => rfl) (fun _ => rfl) (fun _ _ => rfl) c now event
  unfold stateReads
  rw [handle_mam_out readsState_mam, hreminded, hsent, scheduleWake_unread, List.append_nil,
    List.append_nil, List.append_nil]
  exact dispatch_reads (c.note event) now event

end

/-! ## The core and the tasks of the shell -/

def Event.endsGuardTask : Event → Bool
  | .mam (.stateRead ..) | .mam .stateReadFailed | .mam .ratioGuardSaved | .mam
      .ratioGuardSaveFailed => true
  | _ => false

/-- The core, the stored guard with the saves under way, and the readings under
way with what they have read. -/
structure Joint where
  core : Core
  cell : Cell SavedRatioGuard
  reads : List (Option SavedRatioGuard)
  failed : Bool

inductive Move
  | event (i : TimedEvent)
  | write (k : Nat)
  | saved (k : Nat) (now : ClockReading)
  | saveFailed (k : Nat) (now : ClockReading)
  | read (k : Nat)
  | stateRead (k : Nat) (lastRegistration lastReminder : Option SystemTime) (now : ClockReading)
  | stateReadFailed (k : Nat) (now : ClockReading)
  | restart

section
variable (j : Joint)

def Joint.handle (now : ClockReading) (event : Event) : Joint :=
  { j with
    core := (j.core.handle now event).1
    cell := j.cell.issue (guardsSaved (j.core.handle now event).2)
    reads := j.reads ++ List.replicate (stateReads (j.core.handle now event).2) none }

def Joint.brings : Move → Option (Joint × ClockReading × Event)
  | .event i => if i.event.endsGuardTask then none else some (j, i.occurredAt, i.event)
  | .saved k now =>
    if j.cell.isAt k true then some ({ j with cell := j.cell.remove k }, now, .mam .ratioGuardSaved)
    else none
  | .saveFailed k now =>
    if j.cell.isAt k false then
      some ({ j with cell := j.cell.remove k, failed := true }, now, .mam .ratioGuardSaveFailed)
    else none
  | .stateRead k lastRegistration lastReminder now =>
    match j.reads[k]? with
    | some (some guard) =>
      some ({ j with reads := j.reads.eraseIdx k }, now,
        .mam (.stateRead lastRegistration lastReminder guard))
    | _ => none
  | .stateReadFailed k now =>
    match j.reads[k]? with
    | some _ => some ({ j with reads := j.reads.eraseIdx k }, now, .mam .stateReadFailed)
    | none => none
  | .write _ | .read _ | .restart => none

def Joint.step (move : Move) : Joint :=
  match j.brings move, move with
  | some (j, now, event), _ => j.handle now event
  | none, .write k => { j with cell := j.cell.write k }
  | none, .read k => { j with reads := j.reads.modify k fun read => some (read.getD j.cell.stored) }
  | none, .restart =>
    { core := Core.new, cell := { j.cell with tasks := [] }, reads := [], failed := false }
  | none, _ => j

end

def joint (stored : SavedRatioGuard) : Reactive.Machine Joint Move Unit where
  init := { core := Core.new, cell := { stored := stored, tasks := [] }, reads := [], failed := false }
  step j move := (j.step move, [])

/-- No save of another guard is still to be written when the step saves one. -/
def Joint.Clear (j : Joint) (move : Move) : Prop :=
  ∀ brought ∈ j.brings move, ∀ saved ∈ (j.core.guardNext brought.2.1 brought.2.2).2, j.cell.Awaits saved

instance (cell : Cell SavedRatioGuard) (saved : SavedRatioGuard) : Decidable (cell.Awaits saved) :=
  inferInstanceAs (Decidable (∀ task ∈ cell.tasks, task.written = false → task.value = saved))

instance (j : Joint) (move : Move) : Decidable (j.Clear move) :=
  inferInstanceAs (Decidable (∀ brought ∈ j.brings move,
    ∀ saved ∈ (j.core.guardNext brought.2.1 brought.2.2).2, j.cell.Awaits saved))

/-- With no save under way and none failed, the core's guard is stored, once the
core has read it. -/
def Joint.Settled (j : Joint) : Prop :=
  j.cell.tasks = [] → j.failed = false → j.core.mam.ratioGuard ≠ .reading →
  j.core.mam.ratioGuard ≠ .readFailed →
    RatioGuard.restored j.cell.stored = j.core.mam.ratioGuard

/-! ## What a step of the core does to the guard -/

def State.isStarting : State → Bool
  | .notStarted | .openingStorage _ => true
  | _ => false

theorem restored_injective : Function.Injective RatioGuard.restored := by
  intro a b h
  cases a <;> cases b <;> cases h <;> rfl

section
variable {c : Core} {now : ClockReading} {event : Event}

theorem handleMamPause_starting (s : State) (e : MamPauseEvent) :
    (s.handleMamPause e).1.isStarting = true → s.isStarting := by
  cases s with
  | readingMamPreference requested =>
    intro h
    cases e with
    | read mode => cases requested <;> cases h
    | _ => cases h
  | failed => intro h; cases e <;> cases h
  | ready p => intro h; cases e <;> cases h
  | notStarted => exact fun _ => rfl
  | openingStorage requested => exact fun _ => rfl

theorem handleStartup_starting (s : State) (e : StartupEvent) :
    (s.handleStartup e).1.isStarting = true → s.isStarting := by
  cases s with
  | notStarted => exact fun _ => rfl
  | openingStorage requested => exact fun _ => rfl
  | _ => intro h; cases e <;> cases h

theorem dispatch_startup_state (c : Core) (e : StartupEvent) :
    (c.dispatch now (.startup e)).1.state = (c.state.handleStartup e).1 := by
  simp only [Core.dispatch, Core.handleStartup]
  split <;> split <;> rfl

theorem starting_before (h : (c.handle now event).1.state.isStarting = true) : c.state.isStarting := by
  rw [(handle_frame c now event).1, received_state] at h
  cases event with
  | startup e =>
    rw [dispatch_startup_state] at h
    exact handleStartup_starting c.state e h
  | mamPause e => exact handleMamPause_starting c.state e h
  | timerExpired name id => cases name <;> exact h
  | _ => exact h

theorem opensStorage_state (h : c.opensStorage event) :
    c.state.isStarting ∧ (c.handle now event).1.state.isStarting = false := by
  rw [(handle_frame c now event).1, received_state]
  cases event with
  | startup e =>
    simp only [Core.opensStorage, Bool.and_eq_true] at h
    rw [dispatch_startup_state]
    constructor
    · cases hs : c.state <;> rw [hs] at h <;> first | rfl | cases h.1
    · change (c.state.handleStartup e).1.isStarting = false
      cases hs : (c.state.handleStartup e).1 <;> rw [hs] at h <;> first | rfl | cases h.2
  | _ => cases h

theorem after_next (guard : RatioGuard) (figure : Option ByteSize) :
    guard.after now figure = (guard, []) ∨ (guard ≠ .reading ∧ guard ≠ .readFailed) ∧
      ∃ saved, guard.after now figure = (RatioGuard.restored saved, [saved]) := by
  cases figure with
  | none => exact .inl rfl
  | some downloaded =>
    by_cases hu : guard = .reading ∨ guard = .readFailed
    · left
      rw [RatioGuard.after, observe_unknown hu]
      rfl
    · obtain ⟨hg, hs⟩ | ⟨saved, hs, hg⟩ := observe_saved guard downloaded now.wall
      · exact .inl (Prod.ext hg hs)
      · exact .inr ⟨not_or.mp hu, saved, Prod.ext hg.symm hs⟩

theorem checked_next (guard : RatioGuard) (latest : Option ByteSize) :
    ((guard.checked latest).1, (guard.checked latest).2.toList) = (guard, []) ∨
      (guard ≠ .reading ∧ guard ≠ .readFailed) ∧ ∃ saved,
        ((guard.checked latest).1, (guard.checked latest).2.toList) =
          (RatioGuard.restored saved, [saved]) := by
  cases guard with
  | tripped used => exact .inr ⟨⟨nofun, nofun⟩, .watching (latest.getD used.after), rfl⟩
  | _ => exact .inl rfl

/-- A step that neither reads the guard nor asks for it leaves it, or changes it
and saves what it is then. -/
theorem guardNext_cases (he : event.endsGuardTask = false) (ho : c.opensStorage event = false) :
    c.guardNext now event = (c.mam.ratioGuard, []) ∨
      (c.mam.ratioGuard ≠ .reading ∧ c.mam.ratioGuard ≠ .readFailed) ∧
        ∃ saved, c.guardNext now event = (RatioGuard.restored saved, [saved]) := by
  unfold Core.guardNext
  split
  · exact checked_next _ _
  · next event hn =>
    unfold Core.guardAfter
    split
    · next e =>
      unfold RatioGuard.received
      split
      · cases he
      · cases he
      · exact after_next _ _
    · rw [ho]
      exact .inl rfl

end

/-! ## Whole runs -/

structure JointInv (j : Joint) : Prop where
  starting : j.core.state.isStarting → j.core.mam.ratioGuard = .reading ∧ j.reads = []
  unknown : j.core.mam.ratioGuard = .reading ∨ j.core.mam.ratioGuard = .readFailed → j.cell.tasks = []
  reading : j.reads ≠ [] → j.core.mam.ratioGuard = .reading
  once : j.reads.length ≤ 1
  read : ∀ guard, some guard ∈ j.reads → guard = j.cell.stored
  awaits : ∀ saved, RatioGuard.restored saved = j.core.mam.ratioGuard → j.cell.Awaits saved
  tends : ∀ saved, RatioGuard.restored saved = j.core.mam.ratioGuard → j.failed = false →
    j.cell.Tends saved

theorem jointInv_started (stored : SavedRatioGuard) :
    JointInv { core := Core.new, cell := { stored := stored, tasks := [] }, reads := [],
               failed := false } where
  starting _ := ⟨rfl, rfl⟩
  unknown _ := rfl
  reading h := absurd rfl h
  once := Nat.zero_le _
  read _ h := nomatch h
  awaits _ _ := awaits_nil rfl
  tends saved h := by cases saved <;> cases h

section
variable {j : Joint} {now : ClockReading} {event : Event} (h : JointInv j)
include h

theorem JointInv.keep {c : Core} (hs : c.state.isStarting = true → j.core.state.isStarting)
    (hg : c.mam.ratioGuard = j.core.mam.ratioGuard) : JointInv { j with core := c } where
  starting hc := by rw [hg]; exact h.starting (hs hc)
  unknown := by rw [hg]; exact h.unknown
  reading := by rw [hg]; exact h.reading
  once := h.once
  read := h.read
  awaits := by rw [hg]; exact h.awaits
  tends := by rw [hg]; exact h.tends

theorem JointInv.handle_kept (ho : j.core.opensStorage event = false)
    (hg : j.core.guardNext now event = (j.core.mam.ratioGuard, [])) : JointInv (j.handle now event) := by
  obtain ⟨hguard, hsaved⟩ := Prod.mk.inj ((handle_guardNext j.core now event).trans hg)
  have hreads := handle_reads j.core now event
  rw [ho, if_neg Bool.false_ne_true] at hreads
  have hs : (j.core.handle now event).1.state.isStarting = true → j.core.state.isStarting :=
    starting_before
  unfold Joint.handle
  rw [hsaved, hreads, List.replicate_zero, List.append_nil, issue_nil]
  exact h.keep hs hguard

theorem JointInv.handle_saved {saved : SavedRatioGuard} (ho : j.core.opensStorage event = false)
    (hk : j.core.mam.ratioGuard ≠ .reading)
    (hg : j.core.guardNext now event = (RatioGuard.restored saved, [saved]))
    (ha : j.cell.Awaits saved) : JointInv (j.handle now event) := by
  obtain ⟨hguard, hsaved⟩ := Prod.mk.inj ((handle_guardNext j.core now event).trans hg)
  have hreads := handle_reads j.core now event
  rw [ho, if_neg Bool.false_ne_true] at hreads
  have hnone : j.reads = [] := not_not.mp fun hr => hk (h.reading hr)
  have hstarted : (j.core.handle now event).1.state.isStarting = true → False := fun hs =>
    hk (h.starting (starting_before hs)).1
  unfold Joint.handle
  rw [hsaved, hreads, List.replicate_zero, List.append_nil]
  constructor
  case starting => exact fun hs => (hstarted hs).elim
  case unknown =>
    rw [hguard]
    rintro (hn | hn) <;> cases saved <;> cases hn
  case reading => exact fun hr => absurd hnone hr
  case once => exact h.once
  case read =>
    intro guard hr
    rw [hnone] at hr
    cases hr
  case awaits =>
    rw [hguard]
    intro saved' hs
    rw [restored_injective hs]
    exact ha.issue
  case tends =>
    rw [hguard]
    intro saved' hs _
    rw [restored_injective hs]
    exact issue_tends

theorem JointInv.handle_opening (ho : j.core.opensStorage event) : JointInv (j.handle now event) := by
  obtain ⟨hbefore, hafter⟩ := @opensStorage_state _ now _ ho
  obtain ⟨hread, hnone⟩ := h.starting hbefore
  have hempty := h.unknown (.inl hread)
  have hg : j.core.guardNext now event = (.reading, []) := by
    cases event with
    | startup e =>
      simp only [Core.guardNext, Core.guardAfter]
      rw [if_pos ho]
    | _ => cases ho
  obtain ⟨hguard, hsaved⟩ := Prod.mk.inj ((handle_guardNext j.core now event).trans hg)
  have hreads := handle_reads j.core now event
  rw [if_pos ho] at hreads
  unfold Joint.handle
  rw [hsaved, hreads, hnone, issue_nil]
  constructor
  case starting => exact fun hs => absurd hs (by rw [hafter]; exact Bool.false_ne_true)
  case unknown => exact fun _ => hempty
  case reading => exact fun _ => hguard
  case once => exact le_rfl
  case read => simp
  case awaits => exact fun _ _ => awaits_nil hempty
  case tends =>
    rw [hguard]
    intro saved hs
    cases saved <;> cases hs

theorem JointInv.event_step (he : event.endsGuardTask = false)
    (hc : ∀ saved ∈ (j.core.guardNext now event).2, j.cell.Awaits saved) :
    JointInv (j.handle now event) := by
  cases ho : j.core.opensStorage event with
  | true => exact h.handle_opening ho
  | false =>
    obtain hg | ⟨hk, saved, hg⟩ := @guardNext_cases j.core now event he ho
    · exact h.handle_kept ho hg
    · exact h.handle_saved ho hk.1 hg (hc saved (by rw [hg]; exact List.mem_singleton_self _))

/-- A save writes its value; none is under way while the guard is being read. -/
theorem JointInv.write (k : Nat) : JointInv { j with cell := j.cell.write k } where
  starting := h.starting
  unknown hu := by
    rw [write_idle (h.unknown hu)]
    exact h.unknown hu
  reading := h.reading
  once := h.once
  read guard hr := by
    rw [write_idle (h.unknown (.inl (h.reading (List.ne_nil_of_mem hr))))]
    exact h.read guard hr
  awaits saved hs := (h.awaits saved hs).write k
  tends saved hs hf := (h.tends saved hs hf).write (h.awaits saved hs) k

theorem JointInv.remove {k : Nat} {failed : Bool}
    (hf : j.cell.isAt k true ∧ failed = j.failed ∨ failed = true) :
    JointInv { j with cell := j.cell.remove k, failed := failed } where
  starting := h.starting
  unknown hu := remove_idle (h.unknown hu) k
  reading := h.reading
  once := h.once
  read := h.read
  awaits saved hs := (h.awaits saved hs).remove k
  tends saved hs hn := by
    obtain ⟨hk, rfl⟩ | rfl := hf
    · exact (h.tends saved hs hn).remove hk
    · cases hn

omit h in
theorem ended_guardNext (he : event = .mam .ratioGuardSaved ∨ event = .mam .ratioGuardSaveFailed) :
    j.core.opensStorage event = false ∧ j.core.guardNext now event = (j.core.mam.ratioGuard, []) := by
  have hnone : j.core.mam.accepted event = none := accepted_none event (by obtain rfl | rfl := he <;> rfl)
  obtain rfl | rfl := he
  · refine ⟨rfl, ?_⟩
    simp only [Core.guardNext, Core.guardAfter, RatioGuard.received, hnone]
    rfl
  · refine ⟨rfl, ?_⟩
    simp only [Core.guardNext, Core.guardAfter, RatioGuard.received, hnone]
    rfl

theorem JointInv.read_step (k : Nat) :
    JointInv { j with reads := j.reads.modify k fun read => some (read.getD j.cell.stored) } where
  starting hs := by
    obtain ⟨hg, hr⟩ := h.starting hs
    exact ⟨hg, by simp [hr]⟩
  unknown := h.unknown
  reading hr := h.reading fun hn => hr (by simp [hn])
  once := by
    rw [List.length_modify]
    exact h.once
  read guard hg := by
    obtain ⟨n, hn⟩ := List.mem_iff_getElem?.mp hg
    rw [List.getElem?_modify] at hn
    obtain ⟨read, hr, hval⟩ := Option.map_eq_some_iff.mp hn
    have hmem := List.mem_of_getElem? hr
    split at hval
    · cases read with
      | none => exact (Option.some.inj hval).symm
      | some old => exact h.read _ (hval ▸ hmem)
    · rw [hval] at hmem
      exact h.read guard hmem
  awaits := h.awaits
  tends := h.tends

theorem JointInv.ended {k : Nat} {read : Option SavedRatioGuard} (hk : j.reads[k]? = some read) :
    j.reads.eraseIdx k = [] ∧ j.core.mam.ratioGuard = .reading ∧ j.cell.tasks = [] ∧
      j.core.state.isStarting = false := by
  have hmem := List.mem_of_getElem? hk
  have hguard := h.reading (List.ne_nil_of_mem hmem)
  refine ⟨?_, hguard, h.unknown (.inl hguard), ?_⟩
  · obtain ⟨only, hr⟩ := List.length_eq_one_iff.mp (le_antisymm h.once (List.length_pos_of_mem hmem))
    rw [hr] at hk ⊢
    cases k with
    | zero => rfl
    | succ k => cases hk
  · refine Bool.eq_false_iff.mpr fun hs => ?_
    rw [(h.starting hs).2] at hmem
    cases hmem

theorem JointInv.handle_read {k : Nat} {read : Option SavedRatioGuard} (hk : j.reads[k]? = some read)
    (ho : j.core.opensStorage event = false) {guard : RatioGuard}
    (hg : j.core.guardNext now event = (guard, []))
    (hr : guard = .readFailed ∨ guard = RatioGuard.restored j.cell.stored) :
    JointInv (Joint.handle { j with reads := j.reads.eraseIdx k } now event) := by
  obtain ⟨hnone, -, hempty, hnot⟩ := h.ended hk
  obtain ⟨hguard, hsaved⟩ := Prod.mk.inj ((handle_guardNext j.core now event).trans hg)
  have hreads := handle_reads j.core now event
  rw [ho, if_neg Bool.false_ne_true] at hreads
  have hstarted : (j.core.handle now event).1.state.isStarting = true → False := fun hs => by
    rw [starting_before hs] at hnot
    cases hnot
  unfold Joint.handle
  rw [hsaved, hreads, hnone, List.replicate_zero, List.append_nil, issue_nil]
  constructor
  case starting => exact fun hs => (hstarted hs).elim
  case unknown => exact fun _ => hempty
  case reading => exact fun hr => absurd rfl hr
  case once => exact Nat.zero_le _
  case read => exact fun _ hr => nomatch hr
  case awaits => exact fun _ _ => awaits_nil hempty
  case tends =>
    rw [hguard]
    intro saved hs _
    obtain rfl | rfl := hr
    · cases saved <;> cases hs
    · exact .inl (restored_injective hs.symm)

theorem jointInv_step {move : Move} (hc : j.Clear move) : JointInv (j.step move) := by
  -- a move that brings the core no event only moves storage along
  cases hb : j.brings move with
  | none =>
    unfold Joint.step
    rw [hb]
    cases move with
    | write k => exact h.write k
    | read k => exact h.read_step k
    | restart => exact jointInv_started _
    | _ => exact h
  | some brought =>
    obtain ⟨j', now, event⟩ := brought
    have hclear := hc _ hb
    have hstep : j.step move = j'.handle now event := by
      unfold Joint.step
      rw [hb]
    rw [hstep]
    cases move with
    | event i =>
      simp only [Joint.brings] at hb
      split at hb
      · cases hb
      · next he =>
        cases hb
        exact h.event_step (Bool.eq_false_iff.mpr he) hclear
    | saved k at' =>
      simp only [Joint.brings] at hb
      split at hb
      · next hk =>
        cases hb
        obtain ⟨ho, hg⟩ := ended_guardNext (.inl rfl)
        exact (h.remove (.inl ⟨hk, rfl⟩)).handle_kept ho hg
      · cases hb
    | saveFailed k at' =>
      simp only [Joint.brings] at hb
      split at hb
      · cases hb
        obtain ⟨ho, hg⟩ := ended_guardNext (.inr rfl)
        exact (h.remove (.inr rfl)).handle_kept ho hg
      · cases hb
    | stateRead k lastRegistration lastReminder at' =>
      simp only [Joint.brings] at hb
      split at hb
      · next guard hk =>
        cases hb
        -- what was read is still what is stored
        have hstored : guard = j.cell.stored := h.read guard (List.mem_of_getElem? hk)
        exact h.handle_read hk rfl rfl (.inr (hstored ▸ rfl))
      · cases hb
    | stateReadFailed k at' =>
      simp only [Joint.brings] at hb
      split at hb
      · next hk =>
        cases hb
        exact h.handle_read hk rfl rfl (.inl rfl)
      · cases hb
    | _ => cases hb

end

/-- Where no guard is saved while a save of another one is still to be written,
the core's guard is what is stored whenever no save is under way and none failed. -/
theorem guard_stored {stored : SavedRatioGuard} {moves : List Move}
    (h : ∀ e ∈ (joint stored).run moves, e.before.Clear e.input) :
    ((joint stored).last moves).Settled := by
  have hinv : JointInv ((joint stored).last moves) := by
    refine Reactive.run_invariant (joint stored) (I := fun _ j => JointInv j)
      (H := fun tr => ∀ e ∈ tr, e.before.Clear e.input) ?_ (jointInv_started stored) ?_ moves h
    · exact fun tr e hall x hx => hall x (List.mem_append_left _ hx)
    · exact fun tr j move hj hall =>
        jointInv_step hj (hall _ (List.mem_append_right _ (List.mem_singleton_self _)))
  intro hn hf hr hrf
  have hknown : ∃ saved, RatioGuard.restored saved = ((joint stored).last moves).core.mam.ratioGuard := by
    cases hg : ((joint stored).last moves).core.mam.ratioGuard with
    | reading => exact absurd hg hr
    | readFailed => exact absurd hg hrf
    | watching figure =>
      cases figure with
      | none => exact ⟨.unset, rfl⟩
      | some downloaded => exact ⟨.watching downloaded, rfl⟩
    | tripped used => exact ⟨.tripped used, rfl⟩
  obtain ⟨saved, hs⟩ := hknown
  rw [(hinv.tends saved hs hf).stored hn, hs]

def clockAt (seconds : Nat) : ClockReading :=
  { monotonic := Duration.fromSecs seconds, wall := 1700000000000000000 + Duration.fromSecs seconds }

def risenMoves : List Move :=
  -- the saved guard is read, and the downloaded figure has risen since
  (usedRatioEvents.take 4).map .event ++ [.read 0, .stateRead 0 none none (clockAt 0)] ++
    (usedRatioEvents.drop 5).map .event ++
    [.write 0, .saved 0 (clockAt 64)]

theorem rise_stored : ∃ used : RatioUse, used.after = 2000 ∧
    ((joint (.watching 1000)).last risenMoves).cell.stored = .tripped used := by
  have hclear : ∀ e ∈ (joint (.watching 1000)).run risenMoves, e.before.Clear e.input := by decide +kernel
  have hguard : ((joint (.watching 1000)).last risenMoves).core.mam.ratioGuard =
      .tripped { before := 1000, after := 2000, at' := 1700000064000000000 } := by decide +kernel
  have hstored :=
    guard_stored hclear (by decide +kernel) (by decide +kernel) (by rw [hguard]; nofun)
      (by rw [hguard]; nofun)
  rw [hguard] at hstored
  exact ⟨_, rfl, restored_injective hstored⟩

def checkedMoves : List Move :=
  -- the owner checks the ratio use while the account is being read, the figure has risen
  -- again, and the two saves are written in the other order
  risenMoves ++
    [.event (replyAt 65 noBookmarks), .event (replyAt 66 (.torrent (some (listing 7 .forEveryone)))),
      .event (.after 364 (.timerExpired .mam 6)),
      .event (replyAt 365 (.ip { ip := .v4 1, asn := 1, provider := none })),
      .event (.after 366 (.mam .ratioUseChecked)),
      .event (replyAt 366 (.userData { accountData with downloaded := 3000 })),
      .write 1, .write 0, .saved 0 (clockAt 367),
      .saved 0 (clockAt 367)]

theorem rise_forgotten :
    ((joint (.watching 1000)).last checkedMoves).cell = { stored := .watching 2000, tasks := [] } ∧
    ((joint (.watching 1000)).last checkedMoves).failed = false ∧
    ((joint (.watching 1000)).last checkedMoves).core.mam.ratioGuard =
      .tripped { before := 2000, after := 3000, at' := 1700000366000000000 } ∧
    ¬ ((joint (.watching 1000)).last checkedMoves).Settled := by
  have hcell : ((joint (.watching 1000)).last checkedMoves).cell =
    { stored := .watching 2000, tasks := [] } := by
    decide +kernel
  have hfailed : ((joint (.watching 1000)).last checkedMoves).failed = false := by decide +kernel
  have hguard : ((joint (.watching 1000)).last checkedMoves).core.mam.ratioGuard =
      .tripped { before := 2000, after := 3000, at' := 1700000366000000000 } := by decide +kernel
  refine ⟨hcell, hfailed, hguard, ?_⟩
  intro hs
  have hequal := hs (by rw [hcell]) hfailed (by rw [hguard]; nofun) (by rw [hguard]; nofun)
  rw [hcell, hguard] at hequal
  cases hequal

end Windlass
