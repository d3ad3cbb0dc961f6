import Windlass.Store
import Windlass.Steps

/-!
# The pause preference and what is stored

Pausing takes effect at once, resuming once it is stored. Commands that come while
storage is opened, read or written wait, and the newest of them is the one that is
stored in the end.
-/

namespace Windlass

open Reactive Storage

/-! ## The owner's commands and the operations that ended -/

/-- The owner's latest command since startup began, and whether the last storage
operation succeeded. -/
structure Told where
  started : Bool
  latest : Option MamPreferenceUpdate
  succeeded : Option Bool
deriving DecidableEq

def Told.command (t : Told) (change : MamPreferenceUpdate) : Told :=
  if t.started then { t with latest := some change } else t

def Told.next (t : Told) (_ : Core) (i : TimedEvent) : Told :=
  match i.event with
  | .startup (.start _) => { t with started := true }
  | .mamPause (.set mode) => t.command (.set mode)
  | .mamPause .delete => t.command .delete
  | .mamPause .written | .mamPause .deleted => { t with succeeded := some true }
  | .mamPause .writeFailed | .mamPause .deleteFailed => { t with succeeded := some false }
  | _ => t

def Action.preference? : Action → Option MamPreferenceUpdate
  | .writeMamRequestMode mode => some (.set mode)
  | .deleteMamRequestMode => some .delete
  | _ => none

def MamPreferenceUpdate.result : MamPreferenceUpdate → Bool → MamPauseEvent
  | .set _, true => .written
  | .set _, false => .writeFailed
  | .delete, true => .deleted
  | .delete, false => .deleteFailed

def MamPauseEvent.fromStorage : MamPauseEvent → Bool
  | .read _ | .written | .writeFailed | .deleted | .deleteFailed => true
  | .set _ | .delete | .readFailed => false

/-- The core and what it was told, over the stored preference. -/
def preference :
    Client (Core × Told) TimedEvent Action (Option MamRequestMode) MamPreferenceUpdate ClockReading where
  machine := core.noting Told.next { started := false, latest := none, succeeded := none }
  task? := Action.preference?
  effect change _ := change.stored
  answer now change succeeded := { occurredAt := now, event := .mamPause (change.result succeeded) }
  read now stored := { occurredAt := now, event := .mamPause (.read stored) }
  reserved i :=
    match i.event with
    | .mamPause event => event.fromStorage
    | _ => false

/-! ## A preference and its operations -/

/-- A preference with nothing outstanding, with the operation it waits for, or after
one that failed. -/
inductive MamPreferenceState.Kept (p : MamPreferenceState) (t : Told) (stored : Option MamRequestMode) :
    List (Storage.Task MamPreferenceUpdate) → Prop
  | idle (hp : p.persistence = .idle) (hs : p.saved = stored) (he : p.effective = p.requested.mode)
      (hr : p.requested.stored = p.saved ∨ t.latest = none ∧ p.requested = .set .paused)
      (hl : t.latest = none → t.succeeded = none) : MamPreferenceState.Kept p t stored []
  | writing (task : Storage.Task MamPreferenceUpdate) (hp : p.persistence = .pending task.value)
      (hs : stored = if task.written then task.value.stored else p.saved) (hl : t.latest.isSome) :
      MamPreferenceState.Kept p t stored [task]
  | failed (hp : p.persistence = .failed) (hs : p.saved = stored) (hf : t.succeeded = some false)
      (hl : t.latest.isSome) : MamPreferenceState.Kept p t stored []

abbrev Preferences := Store (Option MamRequestMode) MamPreferenceUpdate

def Told.Follows (t : Told) (s : State) (store : Preferences) : Prop :=
  match s with
  | .notStarted => t = { started := false, latest := none, succeeded := none } ∧ store.tasks = []
  | .openingStorage requested | .readingMamPreference requested =>
    t.started ∧ t.latest = requested ∧ t.succeeded = none ∧ store.tasks = []
  | .failed => t.started ∧ t.succeeded = none ∧ store.tasks = []
  | .ready p =>
    t.started ∧ (∀ change, t.latest = some change → change = p.requested) ∧
    p.Kept t store.stored store.tasks

section
variable {p : MamPreferenceState} {t : Told} {stored : Option MamRequestMode}
  {tasks : List (Storage.Task MamPreferenceUpdate)} {task : Storage.Task MamPreferenceUpdate}

def issued (out : List Action) : List (Storage.Task MamPreferenceUpdate) :=
  (out.filterMap Action.preference?).map fun change => { value := change, written := false }

theorem issued_action (change : MamPreferenceUpdate) :
    issued [change.action] = [{ value := change, written := false }] := by
  cases change <;> rfl

theorem update_pending {pending : MamPreferenceUpdate} (hp : p.persistence = .pending pending)
    (change : MamPreferenceUpdate) : p.updateMamPreference change =
      ({ p with requested := change,
                effective := if change.mode = .paused then .paused else p.effective }, []) := by
  simp [MamPreferenceState.updateMamPreference, hp]

theorem update_free (hp : ∀ pending, p.persistence ≠ .pending pending) (change : MamPreferenceUpdate) :
    p.updateMamPreference change =
      if change.stored = p.saved then
        ({ p with requested := change, effective := change.mode, persistence := .idle }, [])
      else
        ({ p with
           requested := change
           effective := if change.mode = .paused then .paused else p.effective
           persistence := .pending change }, [change.action]) := by
  unfold MamPreferenceState.updateMamPreference
  dsimp only
  split
  · next pending h => exact absurd h (hp pending)
  · rfl

@[simp] theorem update_requested (change : MamPreferenceUpdate) :
    (p.updateMamPreference change).1.requested = change := by
  by_cases hp : ∃ pending, p.persistence = .pending pending
  · obtain ⟨pending, hp⟩ := hp
    rw [update_pending hp]
  · rw [update_free fun pending h => hp ⟨pending, h⟩]
    split
    · rfl
    · rfl

theorem update_kept (hp : ∀ pending, p.persistence ≠ .pending pending) (hs : p.saved = stored)
    {change : MamPreferenceUpdate} (hl : t.latest.isSome) :
    (p.updateMamPreference change).1.Kept t stored (issued (p.updateMamPreference change).2) := by
  rw [update_free hp]
  by_cases hc : change.stored = p.saved
  · rw [if_pos hc]
    refine .idle rfl hs rfl (.inl hc) fun hn => ?_
    rw [hn] at hl
    cases hl
  · rw [if_neg hc]
    change MamPreferenceState.Kept _ t stored (issued [change.action])
    rw [issued_action]
    exact .writing _ rfl hs.symm hl

theorem MamPreferenceState.Kept.command (h : p.Kept t stored tasks) (ht : t.started)
    (change : MamPreferenceUpdate) :
    (p.updateMamPreference change).1.Kept (t.command change) stored
      (tasks ++ issued (p.updateMamPreference change).2) := by
  have hl : (t.command change).latest.isSome := by
    simp [Told.command, ht]
  cases h with
  | idle hp hs => exact update_kept (by simp [hp]) hs hl
  | failed hp hs => exact update_kept (by simp [hp]) hs hl
  | writing task hp hs =>
    rw [update_pending hp]
    exact .writing task hp hs hl

def MamPreferenceState.ended (p : MamPreferenceState) (pending : MamPreferenceUpdate) (success : Bool) :
    MamPreferenceState :=
  { p with
    saved := if success then pending.stored else p.saved
    persistence := if success then .idle else .failed
    effective := if success && pending == p.requested then pending.mode else .paused }

theorem complete_result {pending : MamPreferenceUpdate} (hp : p.persistence = .pending pending)
    (success : Bool)
    {completion : MamPreferenceCompletion}
    (hc : MamPreferenceState.succeeds pending completion = some success) :
    p.complete completion =
      if pending ≠ p.requested then (p.ended pending success).updateMamPreference p.requested
      else (p.ended pending success, []) := by
  simp only [MamPreferenceState.complete, hp, hc]
  rfl

theorem MamPreferenceState.Kept.complete (h : p.Kept t stored [task])
    {completion : MamPreferenceCompletion}
    (hc : MamPreferenceState.succeeds task.value completion = some task.written) :
    (p.complete completion).1.Kept { t with succeeded := some task.written } stored
      (issued (p.complete completion).2) := by
  cases h with
  | writing _ hp hs hl =>
    have hended : (p.ended task.value task.written).saved = stored := hs.symm
    have hfree : ∀ pending, (p.ended task.value task.written).persistence ≠ .pending pending := by
      intro pending
      cases hw : task.written <;> simp [MamPreferenceState.ended]
    rw [complete_result hp task.written hc]
    by_cases hr : task.value = p.requested
    · rw [if_neg (not_not.mpr hr)]
      cases hw : task.written with
      | true =>
        rw [hw] at hended
        refine .idle rfl hended ?_ (.inl (congrArg MamPreferenceUpdate.stored hr.symm)) fun hn => ?_
        · simp [MamPreferenceState.ended, hr]
        · rw [hn] at hl
          cases hl
      | false =>
        rw [hw] at hended
        exact .failed rfl hended rfl hl
    · rw [if_pos hr]
      exact update_kept hfree hended hl

end

/-! ## What a step does to the preference -/

section
variable (c : Core) (now : ClockReading)

theorem step_pause (event : MamPauseEvent) :
    (c.handle now (.mamPause event)).1.state = (c.state.handleMamPause event).1 ∧
      (c.handle now (.mamPause event)).2.filterMap Action.preference? =
        (c.state.handleMamPause event).2.filterMap Action.preference? := by
  rw [(handle_frame c now _).1, received_state]
  refine ⟨rfl, ?_⟩
  exact handle_dispatched_out c now _ fun a ha => by cases a <;> first | rfl | simp [Action.part] at ha

theorem step_idle {event : Event} (h : ∀ e, event ≠ .mamPause e) :
    (c.handle now event).2.filterMap Action.preference? = [] ∧
      ((∀ e, event ≠ .startup e) ∧ (c.handle now event).1.state = c.state ∨
        ∃ e, event = .startup e ∧ (c.handle now event).1.state = (c.state.handleStartup e).1) := by
  constructor
  · refine List.filterMap_eq_nil_iff.mpr fun a ha => ?_
    have hne : a.part ≠ .mamPause := by
      intro hp
      have hd := dispatch_parts _ now (handle_dispatched c now event ha (by simp [hp]))
      rw [hp] at hd
      cases event with
      | mamPause e => exact h e rfl
      | timerExpired name id => cases name <;> simp [Event.parts, TimerName.part] at hd
      | _ => simp [Event.parts] at hd
    cases a <;> first | rfl | exact absurd rfl hne
  · rw [(handle_frame c now _).1, received_state]
    cases event with
    | mamPause e => exact absurd rfl (h e)
    | startup e => exact .inr ⟨e, rfl, handleStartup_state _ e⟩
    | timerExpired name id => cases name <;> exact .inl ⟨fun _ h => (by cases h), rfl⟩
    | _ => exact .inl ⟨fun _ h => (by cases h), rfl⟩

theorem told_idle (t : Told) {event : Event} (hs : ∀ e, event ≠ .startup e)
    (hp : ∀ e, event ≠ .mamPause e) :
    t.next c { occurredAt := now, event := event } = t := by
  cases event with
  | startup e => exact absurd rfl (hs e)
  | mamPause e => exact absurd rfl (hp e)
  | _ => rfl

end

/-! ## The preference over what is stored -/

section
variable {s : State} {t : Told} {store : Preferences}

theorem follows_start (h : t.Follows s store) (event : StartupEvent) (c : Core) (now : ClockReading) :
    (t.next c { occurredAt := now,
                event := .startup event }).Follows (s.handleStartup event).1 store := by
  cases event with
  | start mode =>
    cases s with
    | notStarted =>
      obtain ⟨rfl, hn⟩ := h
      exact ⟨rfl, rfl, rfl, hn⟩
    | openingStorage | readingMamPreference | failed | ready =>
      have ht : ({ t with started := true } : Told) = t := by
        rw [← h.1]
      change ({ t with started := true } : Told).Follows _ store
      rw [ht]
      exact h
  | storageOpened => cases s <;> exact h
  | storageOpenFailed =>
    cases s with
    | openingStorage requested => exact ⟨h.1, h.2.2.1, h.2.2.2⟩
    | _ => exact h

theorem issue_issued (out : List Action) :
    (store.issue (out.filterMap Action.preference?)).tasks = store.tasks ++ issued out := rfl

theorem follows_command (h : t.Follows s store) (change : MamPreferenceUpdate) :
    (t.command change).Follows (s.updateMamPreference change).1
      (store.issue ((s.updateMamPreference change).2.filterMap Action.preference?)) := by
  cases s with
  | notStarted =>
    obtain ⟨rfl, hn⟩ := h
    exact ⟨rfl, by rw [issue_issued, hn]; rfl⟩
  | openingStorage requested | readingMamPreference requested =>
    obtain ⟨ht, -, hs, hn⟩ := h
    refine ⟨?_, ?_, ?_, ?_⟩ <;> simp [Told.command, ht, hs, State.updateMamPreference, hn]
  | failed =>
    obtain ⟨ht, hs, hn⟩ := h
    refine ⟨?_, ?_, ?_⟩ <;> simp [Told.command, ht, hs, State.updateMamPreference, hn]
  | ready p =>
    obtain ⟨ht, hl, hk⟩ := h
    refine ⟨?_, ?_, hk.command ht change⟩
    · simp [Told.command, ht]
    · intro change' hc
      simp only [Told.command, ht, if_true, Option.some.injEq] at hc
      exact hc.symm.trans (update_requested change).symm

theorem result_completes (change : MamPreferenceUpdate) (success : Bool) : ∃ completion,
    MamPreferenceState.succeeds change completion = some success ∧
      (∀ s : State, s.handleMamPause (change.result success) = s.completeMamPreference completion) ∧
      ∀ (t : Told) (c : Core) (now : ClockReading),
        t.next c { occurredAt := now, event := .mamPause (change.result success) } =
          { t with succeeded := some success } := by
  cases change with
  | set mode =>
    cases success with
    | true => exact ⟨.written, rfl, fun _ => rfl, fun _ _ _ => rfl⟩
    | false => exact ⟨.writeFailed, rfl, fun _ => rfl, fun _ _ _ => rfl⟩
  | delete =>
    cases success with
    | true => exact ⟨.deleted, rfl, fun _ => rfl, fun _ _ _ => rfl⟩
    | false => exact ⟨.deleteFailed, rfl, fun _ => rfl, fun _ _ _ => rfl⟩

theorem completion_requested {p : MamPreferenceState} (completion : MamPreferenceCompletion) :
    (p.complete completion).1.requested = p.requested := by
  unfold MamPreferenceState.complete
  split
  · split
    · rfl
    · dsimp only
      split
      · exact update_requested _
      · rfl
  · rfl

theorem follows_busy (h : t.Follows s store) :
    store.tasks = [] ∨ ∃ p task, s = .ready p ∧ store.tasks = [task] ∧
    p.persistence = .pending task.value := by
  cases s with
  | ready p =>
    have hk := h.2.2
    generalize store.tasks = tasks at hk ⊢
    cases hk with
    | writing task hp => exact .inr ⟨p, task, rfl, rfl, hp⟩
    | _ => exact .inl rfl
  | notStarted => exact .inl h.2
  | failed => exact .inl h.2.2
  | _ => exact .inl h.2.2.2

theorem follows_result {task : Storage.Task MamPreferenceUpdate} (h : t.Follows s store) {k : Nat}
    (hk : store.tasks[k]? = some task) (c : Core) (now : ClockReading) :
    (t.next c { occurredAt := now, event := .mamPause (task.value.result task.written) }).Follows
      (s.handleMamPause (task.value.result task.written)).1
      ((store.remove k).issue ((s.handleMamPause (task.value.result task.written)).2.filterMap
        Action.preference?)) := by
  obtain hn | ⟨p, task', rfl, ht, -⟩ := follows_busy h
  · rw [hn] at hk
    cases hk
  · obtain ⟨rfl, hn⟩ := store_remove_one ht hk
    obtain ⟨hstarted, hl, hkept⟩ := h
    rw [ht] at hkept
    obtain ⟨completion, hc, hhandle, hnext⟩ := result_completes task.value task.written
    rw [hhandle, hnext]
    refine ⟨hstarted, ?_, ?_⟩
    · intro change hchange
      rw [completion_requested]
      exact hl change hchange
    · change (p.complete completion).1.Kept _ store.stored ((store.remove k).tasks ++
        issued (p.complete completion).2)
      rw [hn, List.nil_append]
      exact hkept.complete hc

theorem follows_read (h : t.Follows s store) (c : Core) (now : ClockReading) :
    (t.next c { occurredAt := now, event := .mamPause (.read store.stored) }).Follows
      (s.handleMamPause (.read store.stored)).1
      (store.issue ((s.handleMamPause (.read store.stored)).2.filterMap Action.preference?)) := by
  change t.Follows (s.loaded store.stored).1
    (store.issue ((s.loaded store.stored).2.filterMap Action.preference?))
  cases s with
  | readingMamPreference requested =>
    obtain ⟨ht, hl, hs, hn⟩ := h
    cases requested with
    | none =>
      refine ⟨ht, ?_, ?_⟩
      · intro change hc
        rw [hl] at hc
        cases hc
      · rw [issue_issued, hn]
        refine .idle rfl rfl rfl ?_ fun _ => hs
        cases hm : store.stored with
        | none => exact .inr ⟨hl, rfl⟩
        | some mode => exact .inl rfl
    | some change =>
      refine ⟨ht, ?_, ?_⟩
      · intro change' hc
        rw [hl] at hc
        exact (Option.some.inj hc).symm.trans (update_requested change).symm
      · rw [issue_issued, hn]
        exact update_kept (by simp) rfl (by simp [hl])
  | notStarted =>
    exact ⟨h.1, by rw [issue_issued, h.2]; rfl⟩
  | failed => exact ⟨h.1, h.2.1, by rw [issue_issued, h.2.2]; rfl⟩
  | openingStorage requested => exact ⟨h.1, h.2.1, h.2.2.1, by rw [issue_issued, h.2.2.2]; rfl⟩
  | ready p =>
    change t.Follows (.ready p) (store.issue [])
    rw [store_issue_nil]
    exact h

theorem follows_write (h : t.Follows s store) (k : Nat) :
    t.Follows s (store.write (fun change _ => change.stored) k) := by
  obtain hn | ⟨p, task, rfl, ht, hp⟩ := follows_busy h
  · rw [store_write_idle hn]
    exact h
  · obtain hw | ⟨-, hw⟩ := store_write_one ht (fun change _ => change.stored) k
    · rw [hw]
      exact h
    · rw [hw]
      refine ⟨h.1, h.2.1, ?_⟩
      have hkept := h.2.2
      rw [ht] at hkept
      cases hkept with
      | writing _ _ _ hl => exact .writing _ hp rfl hl

end

/-! ## Runs -/

section
variable (stored : Option MamRequestMode) (acts : List (Act TimedEvent ClockReading))

def preferenceAfter : Served (Core × Told) (Option MamRequestMode) MamPreferenceUpdate :=
  (preference.over' stored).last acts

theorem follows_input {c : Core} {t : Told} {store : Preferences} (h : t.Follows c.state store)
    {i : TimedEvent}
    (hi : preference.reserved i = false) :
    (t.next c i).Follows (core.step c i).1.state
    (store.issue ((core.step c i).2.filterMap Action.preference?)) := by
  obtain ⟨now, event⟩ := i
  change (t.next c { occurredAt := now, event := event }).Follows (c.handle now event).1.state
    (store.issue ((c.handle now event).2.filterMap Action.preference?))
  by_cases hp : ∃ e, event = .mamPause e
  · obtain ⟨e, rfl⟩ := hp
    obtain ⟨hstate, hout⟩ := step_pause c now e
    rw [hstate, hout]
    cases e with
    | set mode => exact follows_command h (.set mode)
    | delete => exact follows_command h .delete
    | readFailed =>
      change t.Follows _ _
      cases hs : c.state with
      | readingMamPreference requested =>
        rw [hs] at h
        exact ⟨h.1, h.2.2.1, by rw [issue_issued, h.2.2.2]; rfl⟩
      | _ =>
        rw [hs] at h
        change t.Follows _ (store.issue [])
        rw [store_issue_nil]
        exact h
    | _ => cases hi
  · obtain ⟨hout, ⟨hs, hstate⟩ | ⟨e, rfl, hstate⟩⟩ := step_idle c now fun e he => hp ⟨e, he⟩
    · rw [hout, hstate, store_issue_nil, told_idle c now t hs fun e he => hp ⟨e, he⟩]
      exact h
    · rw [hout, hstate, store_issue_nil]
      exact follows_start h e c now

theorem preference_follows :
    (preferenceAfter stored acts).core.2.Follows (preferenceAfter stored acts).core.1.state
    (preferenceAfter stored acts).store := by
  refine @served_invariant _ _ _ _ _ _ preference
    (fun c store => c.2.Follows c.1.state store) stored ⟨rfl, rfl⟩
    ?_ ?_ ?_ ?_ acts
  · rintro ⟨c, t⟩ store i h hi
    exact follows_input h hi
  · rintro ⟨c, t⟩ store k h
    exact follows_write h k
  · rintro ⟨c, t⟩ store k task now h hk
    obtain ⟨hstate, hout⟩ := step_pause c now (task.value.result task.written)
    change (t.next c { occurredAt := now, event := .mamPause (task.value.result task.written) }).Follows
      (c.handle now (.mamPause (task.value.result task.written))).1.state
      ((store.remove k).issue ((c.handle now
        (.mamPause (task.value.result task.written))).2.filterMap Action.preference?))
    rw [hstate, hout]
    exact follows_result h hk c now
  · rintro ⟨c, t⟩ store now h
    obtain ⟨hstate, hout⟩ := step_pause c now (.read store.stored)
    change (t.next c { occurredAt := now, event := .mamPause (.read store.stored) }).Follows
      (c.handle now (.mamPause (.read store.stored))).1.state
      (store.issue ((c.handle now (.mamPause (.read store.stored))).2.filterMap Action.preference?))
    rw [hstate, hout]
    exact follows_read h c now

theorem update_paused (p : MamPreferenceState) {change : MamPreferenceUpdate}
    (hc : change.mode = .paused) :
    (p.updateMamPreference change).1.status ≠ .running := by
  by_cases hp : ∃ pending, p.persistence = .pending pending
  · obtain ⟨pending, hp⟩ := hp
    rw [update_pending hp]
    simp [MamPreferenceState.status, hc, hp]
  · rw [update_free fun pending h => hp ⟨pending, h⟩]
    split
    · simp [MamPreferenceState.status, hc]
    · simp [MamPreferenceState.status, hc]

theorem running_idle {p : MamPreferenceState} (h : p.status = .running) :
    p.persistence = .idle ∧ p.effective = .enabled := by
  obtain ⟨saved, requested, effective, persistence⟩ := p
  cases persistence with
  | idle => cases requested with
    | delete => cases effective <;> simp_all [MamPreferenceState.status]
    | set mode => cases effective <;> simp_all [MamPreferenceState.status]
  | pending update => cases hm : requested.mode <;> simp [MamPreferenceState.status, hm] at h
  | failed => cases hm : requested.mode <;> simp [MamPreferenceState.status, hm] at h

section
variable {c : Core} {t : Told} {store : Preferences}

/-- Requests run only on a preference that is neither being written nor failed. -/
theorem running_stored (h : t.Follows c.state store) (hr : c.state.mamRequests = .running) :
    store.stored = some .enabled ∧
      (∀ change, t.latest = some change → change = .set .enabled) ∧ store.tasks = [] := by
  cases hc : c.state with
  | ready p =>
    rw [hc] at h hr
    obtain ⟨hp, heff⟩ := running_idle hr
    obtain ⟨-, hl, hkept⟩ := h
    generalize store.tasks = tasks at hkept ⊢
    cases hkept with
    | writing task hp' => simp [hp] at hp'
    | failed hp' => simp [hp] at hp'
    | idle _ hs he hreq =>
      have hmode : p.requested.mode = .enabled := he.symm.trans heff
      have hset : p.requested = .set .enabled := by
        cases hu : p.requested with
        | delete => rw [hu] at hmode; cases hmode
        | set mode => rw [hu] at hmode; exact congrArg _ hmode
      refine ⟨?_, fun change hc => (hl change hc).trans hset, rfl⟩
      obtain hreq | ⟨-, hpaused⟩ := hreq
      · rw [← hs, ← hreq, hset]
        rfl
      · rw [hset] at hpaused
        cases hpaused
  | _ =>
    rw [hc] at hr
    cases hr

theorem settled_stored (h : t.Follows c.state store) (hn : store.tasks = [])
    (hs : t.succeeded = some true) :
    ∃ change, t.latest = some change ∧ store.stored = change.stored := by
  cases hc : c.state with
  | ready p =>
    rw [hc] at h
    obtain ⟨-, hl, hkept⟩ := h
    rw [hn] at hkept
    cases hkept with
    | failed _ _ hf => simp [hs] at hf
    | idle _ hsaved _ hreq hnone =>
      cases hlatest : t.latest with
      | none => simp [hnone hlatest] at hs
      | some change =>
        refine ⟨change, rfl, ?_⟩
        obtain hreq | ⟨hno, -⟩ := hreq
        · rw [hl change hlatest, hreq, hsaved]
        · rw [hlatest] at hno
          cases hno
  | notStarted =>
    rw [hc] at h
    rw [h.1] at hs
    cases hs
  | failed =>
    rw [hc] at h
    simp [h.2.1] at hs
  | _ =>
    rw [hc] at h
    simp [h.2.2.1] at hs

theorem pause_stops {p : MamPreferenceState} (hp : c.state = .ready p) (t : Told) (store : Preferences)
    (now : ClockReading) {event : Event}
    (he : event = .mamPause (.set .paused) ∨ event = .mamPause .delete) :
    (preference.step ⟨(c, t), store⟩ (.input
      { occurredAt := now, event := event })).1.core.1.state.mamRequests ≠ .running := by
  have hb : preference.brings ⟨(c, t), store⟩ (.input { occurredAt := now, event := event }) =
      some (store, { occurredAt := now, event := event }) := by
    obtain rfl | rfl := he <;> rfl
  unfold Client.step
  rw [hb]
  change (c.handle now event).1.state.mamRequests ≠ .running
  obtain rfl | rfl := he
  · rw [(step_pause c now _).1, hp]
    exact update_paused p rfl
  · rw [(step_pause c now _).1, hp]
    exact update_paused p rfl

end

/-- Over every interleaving of commands and storage: MAM requests run only while the
stored preference is enabled, the owner's latest command, if any, enabled them, and
nothing is outstanding; a command to pause handled by a loaded preference stops them
in the same step; one operation at most is outstanding; and once none is and the last
one succeeded, the latest command is what is stored. -/
theorem preference_is_stored :
    ((preferenceAfter stored acts).core.1.state.mamRequests = .running →
      (preferenceAfter stored acts).store.stored = some .enabled ∧
      (∀ change, (preferenceAfter stored acts).core.2.latest = some change → change = .set .enabled) ∧
      (preferenceAfter stored acts).store.tasks = []) ∧
    (∀ now event p, event = .mamPause (.set .paused) ∨ event = .mamPause .delete →
      (preferenceAfter stored acts).core.1.state = .ready p →
      (preference.step (preferenceAfter stored acts) (.input
        { occurredAt := now, event := event })).1.core.1.state.mamRequests
        ≠ .running) ∧
    (preferenceAfter stored acts).store.tasks.length ≤ 1 ∧
    ((preferenceAfter stored acts).store.tasks = [] →
      (preferenceAfter stored acts).core.2.succeeded = some true →
      ∃ change, (preferenceAfter stored acts).core.2.latest = some change ∧
        (preferenceAfter stored acts).store.stored = change.stored) := by
  have h := preference_follows stored acts
  generalize preferenceAfter stored acts = j at h
  obtain ⟨⟨c, t⟩, store⟩ := j
  refine ⟨running_stored h, fun now event p he hp => pause_stops hp t store now he, ?_, settled_stored h⟩
  obtain hn | ⟨p, task, -, ht, -⟩ := follows_busy h
  · rw [hn]
    exact Nat.zero_le 1
  · rw [ht]
    exact le_refl 1

end

end Windlass
