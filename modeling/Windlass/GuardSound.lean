import Windlass.SpacingSound

/-!
# The watch over ratio use

The guard compares each reading of the account with the one before it. Every
change of it is saved, so over any number of restarts it is what one pass over
all counted readings makes of it: tripped by the first rise, and watching from
the last figure until then. While it does not watch, nothing new is downloaded;
when it trips, every download that runs is held.
-/

namespace Windlass

/-! ## One pass over the readings -/

abbrev Figure := ByteSize × SystemTime

def watchOver (figures : List Figure) : RatioGuard :=
  figures.foldl (fun guard figure => (guard.observe figure.1 figure.2).1) (.watching none)

def NoRise (figures : List Figure) : Prop := figures.IsChain fun a b => b.1 ≤ a.1

/-- The first figure that exceeds the one before it, with that one. -/
def FirstRise (figures : List Figure) (used : RatioUse) : Prop :=
  ∃ pre a b post, figures = pre ++ a :: b :: post ∧ NoRise (pre ++ [a]) ∧ a.1 < b.1 ∧
    used = { before := a.1, after := b.1, at' := b.2 }

section
variable {figures : List Figure} {figure : Figure} {used : RatioUse}

theorem watchOver_snoc :
    watchOver (figures ++ [figure]) = ((watchOver figures).observe figure.1 figure.2).1 := by
  simp [watchOver]

theorem FirstRise.snoc (h : FirstRise figures used) : FirstRise (figures ++ [figure]) used := by
  obtain ⟨pre, a, b, post, rfl, hpre, hlt, hused⟩ := h
  exact ⟨pre, a, b, post ++ [figure], by simp, hpre, hlt, hused⟩

theorem noRise_snoc {a : Figure} (h : NoRise (figures ++ [a])) (hle : figure.1 ≤ a.1) :
    NoRise (figures ++ [a] ++ [figure]) := by
  rw [List.append_assoc]
  exact List.isChain_append_cons_cons.mpr ⟨h, hle, List.isChain_singleton _⟩

theorem watchOver_cases (figures : List Figure) :
    (NoRise figures ∧ watchOver figures = .watching (figures.getLast?.map Prod.fst)) ∨
      ∃ used, FirstRise figures used ∧ watchOver figures = .tripped used := by
  -- on the figures from the last one back, as the guard only knows the latest
  induction figures using List.reverseRecOn with
  | nil => exact .inl ⟨List.isChain_nil, rfl⟩
  | append_singleton figures figure ih =>
    rw [watchOver_snoc]
    obtain ⟨hno, hwatch⟩ | ⟨used, hrise, htrip⟩ := ih
    · rw [hwatch]
      rcases List.eq_nil_or_concat figures with rfl | ⟨pre, a, rfl⟩
      · exact .inl ⟨List.isChain_singleton _, rfl⟩
      · rw [List.concat_eq_append] at hno ⊢
        simp only [List.getLast?_append, List.getLast?_singleton, Option.some_or, Option.map_some,
          RatioGuard.observe]
        by_cases hlt : a.1 < figure.1
        · rw [if_pos hlt]
          exact .inr ⟨_, ⟨pre, a, figure, [], by simp, hno, hlt, rfl⟩, rfl⟩
        · rw [if_neg hlt]
          left
          refine ⟨noRise_snoc hno (not_lt.mp hlt), ?_⟩
          split
          · next heq => rw [heq]
          · rfl
    · right
      rw [htrip]
      exact ⟨used, hrise.snoc, rfl⟩

end

/-- The guard of a history is tripped when some figure exceeds the one before it,
and by the first that does. -/
theorem watchOver_tripped {figures : List Figure} :
    ((∃ used, watchOver figures = .tripped used) ↔
      ∃ pre a b post, figures = pre ++ a :: b :: post ∧ a.1 < b.1) ∧
      ∀ used, watchOver figures = .tripped used → FirstRise figures used := by
  obtain ⟨hno, hwatch⟩ | ⟨used, hrise, htrip⟩ := watchOver_cases figures
  · rw [hwatch]
    refine ⟨⟨nofun, ?_⟩, nofun⟩
    rintro ⟨pre, a, b, post, rfl, hlt⟩
    exact absurd (List.isChain_append_cons_cons.mp hno).2.1 (not_le.mpr hlt)
  · rw [htrip]
    refine ⟨⟨fun _ => ?_, fun _ => ⟨used, rfl⟩⟩, ?_⟩
    · obtain ⟨pre, a, b, post, hsplit, -, hlt, -⟩ := hrise
      exact ⟨pre, a, b, post, hsplit, hlt⟩
    · intro used' heq
      cases heq
      exact hrise

/-! ## The guard through a step -/

def figureRead : Answer → Option ByteSize
  | some (.loadUserData _, .ok (.userData data)) => some data.downloaded
  | _ => none

def Action.savesGuard? : Action → Option SavedRatioGuard
  | .saveRatioGuard guard => some guard
  | _ => none

def guardsSaved (out : List Action) : List SavedRatioGuard := out.filterMap Action.savesGuard?

def Seen.saved : Seen → List SavedRatioGuard
  | .unchanged => []
  | .rebased guard => [guard]
  | .tripped used => [.tripped used]

theorem guardsSaved_append (out out' : List Action) :
    guardsSaved (out ++ out') = guardsSaved out ++ guardsSaved out' :=
  List.filterMap_append

theorem savesGuard_mam (a : Action) (h : a.part ≠ .mam) : a.savesGuard? = none := by
  cases a <;> first | rfl | exact absurd rfl h

theorem guardsSaved_emits {part : Part} {out : List Action} (h : Emits part out) (hp : part ≠ .mam) :
    guardsSaved out = [] := emits_mam_none savesGuard_mam h hp

theorem guardsSaved_seen (seen : Seen) : guardsSaved seen.actions = seen.saved := by
  cases seen <;> rfl

section
variable (m : Mam) (now : ClockReading) (registry : Registry)

theorem followDownloads_guard : (m.followDownloads now registry).1.ratioGuard = m.ratioGuard ∧
    guardsSaved (m.followDownloads now registry).2.2 = [] := by
  refine ⟨?_, guardsSaved_emits (followDownloads_emits m now registry) (by decide)⟩
  rw [followDownloads_frame]

/-- What a figure that is read, if any, makes of the guard. -/
def RatioGuard.after (guard : RatioGuard) (figure : Option ByteSize) :
    RatioGuard × List SavedRatioGuard :=
  match figure with
  | some downloaded =>
    ((guard.observe downloaded now.wall).1, (guard.observe downloaded now.wall).2.saved)
  | none => (guard, [])

theorem applyAnswer_guard (request : MamRequest) (result : Except MamFailure MamReply) (current : Bool) :
    ((m.applyAnswer now request result current registry).1.ratioGuard,
        guardsSaved (m.applyAnswer now request result current registry).2.2) =
      m.ratioGuard.after now (figureRead (if current ∨
        request.recordsSpend then some (request, result) else none)) := by
  have hsame {m' : Mam} {out : List Action} (hg : m'.ratioGuard =
    m.ratioGuard) (ho : Emits .registry out) :
      (m'.ratioGuard, guardsSaved out) = (m.ratioGuard, []) := by
    rw [hg, guardsSaved_emits ho (by decide)]
  cases request with
  | fetchTorrent id wedge =>
    simp only [MamRequest.recordsSpend, or_true, if_true]
    refine hsame ?_ (fetched_emits m now registry id wedge result)
    simp only [Mam.applyAnswer]
    rw [fetched_frame]
  | buy purchase =>
    simp only [MamRequest.recordsSpend, or_true, if_true]
    rfl
  | lookUpIp =>
    cases current
    · rfl
    · refine hsame ?_ (by simp [Mam.applyAnswer])
      simp only [Mam.applyAnswer, Mam.ipAnswered]
      split <;> rfl
  | registerSeedbox =>
    cases current
    · rfl
    · refine hsame ?_ (by simp [Mam.applyAnswer])
      simp only [Mam.applyAnswer, Mam.registrationAnswered]
      split <;> rfl
  | loadUserData clients =>
    cases current
    · rfl
    · simp only [Mam.applyAnswer, Mam.userDataAnswered]
      split
      · next data =>
        obtain ⟨hg, ho⟩ := followDownloads_guard (m.userDataRead now data).1 now registry
        rw [guardsSaved_append, ho, List.append_nil, guardsSaved_seen, hg]
        rfl
      · rfl
      · next hok _ =>
        unfold figureRead
        split
        · next heq =>
          cases heq
          exact absurd rfl (hok _)
        · rfl
  | wedgeHistory =>
    cases current
    · rfl
    · simp only [Mam.applyAnswer, Mam.historyAnswered]
      split
      · exact hsame (by rw [followDownloads_frame]) (followDownloads_emits _ now registry)
      · rfl
      · rfl
  | lookUpTorrent id =>
    cases current
    · rfl
    · refine hsame ?_ (torrentAnswered_emits m now registry id result)
      simp only [Mam.applyAnswer, Mam.torrentAnswered]
      split
      · rw [followDownloads_frame]
      · rfl
      · rfl
  | listBookmarks start =>
    cases current
    · rfl
    · simp only [Mam.applyAnswer, Mam.bookmarksAnswered]
      split
      · exact hsame (by rw [listed_frame]) (listed_emits m now registry _)
      · rfl
      · rfl

theorem requestAnswered_guard (result : Except MamFailure MamReply) (rotated : Option ApiCookie) :
    ((m.requestAnswered now result rotated registry).1.ratioGuard,
        guardsSaved (m.requestAnswered now result rotated registry).2.2.1) =
      m.ratioGuard.after now (figureRead (m.accepted (.mam (.answered result rotated)))) := by
  cases ho : m.outstanding with
  | none => simp [Mam.requestAnswered, Mam.accepted, ho, figureRead, RatioGuard.after, guardsSaved]
  | some slot =>
    cases slot with
    | savingRegistration at' k epoch =>
      simp [Mam.requestAnswered, Mam.accepted, ho, figureRead, RatioGuard.after, guardsSaved]
    | request request sent epoch =>
      obtain ⟨session, issued, hm, -, hout⟩ := requestAnswered_eq ho now result rotated registry
      rw [hm, hout, accepted_answered m ho]
      simpa using applyAnswer_guard
        { m with outstanding := none, session := session } now registry request result
        (epoch == m.epoch)

/-- What the guard is and what of it is saved after an event of MAM work. -/
def RatioGuard.received (guard : RatioGuard) (answer : Answer) :
    MamEvent → RatioGuard × List SavedRatioGuard
  | .stateRead _ _ saved => (RatioGuard.restored saved, [])
  | .stateReadFailed => (.readFailed, [])
  | _ => guard.after now (figureRead answer)

theorem mam_handle_guard {e : MamEvent} (he : e ≠ .ratioUseChecked) :
    ((m.handle now e registry).1.ratioGuard, guardsSaved (m.handle now e registry).2.2.1) =
      m.ratioGuard.received now (m.accepted (.mam e)) e := by
  cases e with
  | answered result rotated => exact requestAnswered_guard m now registry result rotated
  | ratioUseChecked => exact absurd rfl he
  | registrationAttemptSaved =>
    simp only [Mam.handle, Mam.registrationAttemptSaved]
    split
    · split <;> rfl
    · rfl
  | registrationAttemptSaveFailed =>
    simp only [Mam.handle, Mam.registrationAttemptSaveFailed]
    split <;> rfl
  | _ => rfl

end

section
variable (c : Core) (now : ClockReading) (event : Event)

def Core.opensStorage : Bool :=
  match event with
  | .startup e => c.state.isOpeningStorage && (c.state.handleStartup e).1.isReadingMamPreference
  | _ => false

def Core.guardAfter : RatioGuard × List SavedRatioGuard :=
  match event with
  | .mam e => c.mam.ratioGuard.received now (c.mam.accepted event) e
  | _ => (if c.opensStorage event then .reading else c.mam.ratioGuard, [])

theorem handleStartup_guard (e : StartupEvent) :
    ((c.handleStartup e).1.mam.ratioGuard,
      guardsSaved (c.handleStartup e).2) = c.guardAfter now (.startup e) := by
  have hsaved : guardsSaved (c.handleStartup e).2 = [] := by
    rw [guardsSaved, handleStartup_mam_out savesGuard_mam]
    split <;> rfl
  rw [hsaved]
  unfold Core.handleStartup Core.guardAfter Core.opensStorage
  dsimp only
  by_cases h : (c.state.isOpeningStorage && (c.state.handleStartup e).1.isReadingMamPreference) = true
  · rw [if_pos h, if_pos h]
    split <;> rfl
  · rw [if_neg h, if_neg h]
    split <;> rfl

theorem dispatch_guard (he : event ≠ .mam .ratioUseChecked) :
    ((c.dispatch now event).1.mam.ratioGuard,
      guardsSaved (c.dispatch now event).2) = c.guardAfter now event := by
  by_cases hs : ∃ e, event = .startup e
  · obtain ⟨e, rfl⟩ := hs
    exact handleStartup_guard c now e
  · have hout := dispatch_mam_out savesGuard_mam c now fun e h => hs ⟨e, h⟩
    rw [guardsSaved, hout]
    cases event with
    | startup e => exact absurd ⟨e, rfl⟩ hs
    | timerExpired name id =>
      cases name with
      | mam =>
        simp only [Core.dispatch, Core.timerExpired, Mam.timerExpired]
        split <;> rfl
      | _ => rfl
    | tunnel e =>
      simp only [Core.dispatch, Core.handleTunnel]
      split <;> rfl
    | mam e => exact mam_handle_guard c.mam now c.registry (e := e) fun h => he (h ▸ rfl)
    | _ => rfl

theorem surveyed_guard : (c.surveyed now event).ratioGuard = (c.received now event).mam.ratioGuard := by
  unfold Core.surveyed
  rw [survey_frame, connect_frame]

theorem scheduleWake_guardsSaved (m : Mam) (early : Bool) (timers : Timers) :
    guardsSaved (m.scheduleWake now early timers).2.2 = [] := by
  unfold Mam.scheduleWake
  split
  · rfl
  · split <;> rfl

/-- A step changes the guard, and saves it, while it handles the event. -/
theorem handle_guard_received :
    ((c.handle now event).1.mam.ratioGuard, guardsSaved (c.handle now event).2) =
    ((c.received now event).mam.ratioGuard, guardsSaved ((c.note event).dispatch now event).2) := by
  obtain ⟨hreminded, hsent⟩ :=
    @decision_out _ Action.savesGuard? (fun _ => rfl) (fun _ => rfl) (fun _ _ => rfl) c now event
  have hwoken := scheduleWake_guardsSaved now (c.sending now event).1 (c.planned now event).early
    (c.received now event).timers
  rw [handle_decided.2.2, surveyed_guard, guardsSaved, handle_mam_out savesGuard_mam]
  unfold guardsSaved at hwoken ⊢
  rw [hreminded, hsent, hwoken, List.append_nil, List.append_nil, List.append_nil]

theorem handle_guard (he : event ≠ .mam .ratioUseChecked) :
    ((c.handle now event).1.mam.ratioGuard,
      guardsSaved (c.handle now event).2) = c.guardAfter now event := by
  rw [handle_guard_received, received_mam]
  exact dispatch_guard (c.note event) now event he

end

/-! ## The guard over restarts -/

/-- The counted readings, and whether the saved guard was read since the process
started or opened its storage. -/
structure GuardLog where
  known : Bool
  figures : List Figure

def Handled.figure (e : Handled) : Option Figure :=
  (figureRead e.answer).map fun downloaded => (downloaded, e.wall)

def Handled.guardKnown (e : Handled) (known : Bool) : Bool :=
  match e.input.event with
  | .mam (.stateRead ..) => true
  | .mam .stateReadFailed => false
  | event => !e.before.opensStorage event && known

def GuardLog.next (log : GuardLog) (e : Handled) : GuardLog where
  known := e.guardKnown log.known
  figures := log.figures ++ if log.known then e.figure.toList else []

def GuardLog.renew (log : GuardLog) : GuardLog := { log with known := false }

/-- The log of the runs that ended and of the one under way. -/
def guardLog (runs : List (List TimedEvent)) (is : List TimedEvent) : GuardLog :=
  core.log GuardLog.next GuardLog.renew { known := false, figures := [] } runs is

def lastGuard (history : List Handled) : SavedRatioGuard :=
  (history.flatMap fun e => guardsSaved e.out).getLast?.getD .unset

def Event.readGuard : Event → Option SavedRatioGuard
  | .mam (.stateRead _ _ guard) => some guard
  | _ => none

def RestoresGuard (pre : List Handled) (e : Handled) : Prop :=
  ∀ guard ∈ e.input.event.readGuard, guard = lastGuard pre

instance (pre : List Handled) (e : Handled) : Decidable (RestoresGuard pre e) :=
  inferInstanceAs (Decidable (∀ guard ∈ e.input.event.readGuard, _))

structure GuardInv (history : List Handled) (log : GuardLog) (c : Core) : Prop where
  saved : RatioGuard.restored (lastGuard history) = watchOver log.figures
  known : log.known = true → c.mam.ratioGuard = watchOver log.figures
  unknown : log.known = false → c.mam.ratioGuard = .reading ∨ c.mam.ratioGuard = .readFailed

section
variable {history : List Handled} {log : GuardLog} {c : Core} {i : TimedEvent}

theorem lastGuard_snoc (e : Handled) :
    lastGuard (history ++ [e]) = (guardsSaved e.out).getLast?.getD (lastGuard history) := by
  unfold lastGuard
  rw [List.flatMap_append, List.getLast?_append]
  simp only [List.flatMap_cons, List.flatMap_nil, List.append_nil]
  cases (guardsSaved e.out).getLast? <;> rfl

theorem observe_saved (guard : RatioGuard) (downloaded : ByteSize) (at' : SystemTime) :
    ((guard.observe downloaded at').1 = guard ∧ (guard.observe downloaded at').2.saved = []) ∨
      ∃ saved, (guard.observe downloaded at').2.saved = [saved] ∧
        RatioGuard.restored saved = (guard.observe downloaded at').1 := by
  unfold RatioGuard.observe
  split
  · split
    · exact .inr ⟨_, rfl, rfl⟩
    · split
      · exact .inl ⟨rfl, rfl⟩
      · exact .inr ⟨_, rfl, rfl⟩
  · exact .inr ⟨_, rfl, rfl⟩
  · exact .inl ⟨rfl, rfl⟩

theorem observe_unknown {guard : RatioGuard} (h : guard = .reading ∨ guard = .readFailed)
    (downloaded : ByteSize)
    (at' : SystemTime) : guard.observe downloaded at' = (guard, .unchanged) := by
  rcases h with rfl | rfl
  · rfl
  · rfl

inductive GuardStep (c : Core) (i : TimedEvent) (known : Bool) : Prop
  | read (saved : SavedRatioGuard) (hr : ∀ pre,
      RestoresGuard pre (core.entry c i) → saved = lastGuard pre)
      (hk : Handled.guardKnown (core.entry c i) known =
        true) (hf : Handled.figure (core.entry c i) = none)
      (hs : guardsSaved (c.handle i.occurredAt i.event).2 = [])
      (hg : (c.handle i.occurredAt i.event).1.mam.ratioGuard = RatioGuard.restored saved)
  | lost (hk : Handled.guardKnown (core.entry c i) known =
      false) (hf : Handled.figure (core.entry c i) = none)
      (hs : guardsSaved (c.handle i.occurredAt i.event).2 = [])
      (hg : (c.handle i.occurredAt i.event).1.mam.ratioGuard = .reading ∨
        (c.handle i.occurredAt i.event).1.mam.ratioGuard = .readFailed)
  | kept (hk : Handled.guardKnown (core.entry c i) known = known)
      (hg : ((c.handle i.occurredAt i.event).1.mam.ratioGuard,
          guardsSaved (c.handle i.occurredAt i.event).2) =
        c.mam.ratioGuard.after i.occurredAt (figureRead (Handled.answer (core.entry c i))))

theorem guard_step {i : TimedEvent} (he : i.event ≠ .mam .ratioUseChecked) (known : Bool) :
    GuardStep c i known := by
  have h := handle_guard c i.occurredAt i.event he
  obtain ⟨now, event⟩ := i
  by_cases hm : ∃ e, event = .mam e
  · obtain ⟨e, rfl⟩ := hm
    cases e with
    | stateRead last reminder saved =>
      obtain ⟨hg, hs⟩ := Prod.mk.inj h
      exact .read saved (fun _ hr => hr saved rfl) rfl rfl hs hg
    | stateReadFailed =>
      obtain ⟨hg, hs⟩ := Prod.mk.inj h
      exact .lost rfl rfl hs (.inr hg)
    | _ => exact .kept rfl h
  · have hnone : c.mam.accepted event = none := by
      unfold Mam.accepted
      split
      · exact absurd ⟨_, rfl⟩ hm
      · rfl
    have hafter : c.guardAfter now event =
        (if c.opensStorage event then .reading else c.mam.ratioGuard, []) := by
      unfold Core.guardAfter
      split
      · exact absurd ⟨_, rfl⟩ hm
      · rfl
    have hknown : Handled.guardKnown (core.entry c ⟨now, event⟩) known =
        (!c.opensStorage event && known) := by
      unfold Handled.guardKnown
      split
      · next hev => exact absurd ⟨_, hev⟩ hm
      · next hev => exact absurd ⟨_, hev⟩ hm
      · rfl
    have hanswer : Handled.answer (core.entry c ⟨now, event⟩) = none := hnone
    rw [hafter] at h
    by_cases ho : c.opensStorage event = true
    · rw [if_pos ho] at h
      obtain ⟨hg, hs⟩ := Prod.mk.inj h
      refine .lost ?_ ?_ hs (.inl hg)
      · rw [hknown, ho]
        rfl
      · unfold Handled.figure
        rw [hanswer]
        rfl
    · rw [if_neg ho] at h
      refine .kept ?_ ?_
      · rw [hknown, Bool.eq_false_iff.mpr ho]
        rfl
      · rw [h, hanswer]
        rfl

theorem guardInv_init : GuardInv [] { known := false, figures := [] } Core.new where
  saved := rfl
  known h := by cases h
  unknown _ := .inl rfl

theorem guardInv_restart (h : GuardInv history log c) : GuardInv history log.renew Core.new where
  saved := h.saved
  known h := by cases h
  unknown _ := .inl rfl

/-- A reading counts when the guard is known, and is not looked at before. -/
theorem guardInv_figure {figure : Figure} (hk : (log.next (core.entry c i)).known = log.known)
    (hf : Handled.figure (core.entry c i) = some figure)
    (hg : (c.handle i.occurredAt i.event).1.mam.ratioGuard =
      (c.mam.ratioGuard.observe figure.1 figure.2).1)
    (hs : guardsSaved (c.handle i.occurredAt i.event).2 =
      (c.mam.ratioGuard.observe figure.1 figure.2).2.saved)
    (h : GuardInv history log c) :
    GuardInv (history ++ [core.entry c i]) (log.next (core.entry c i)) (core.step c i).1 := by
  cases hknown : log.known with
  | true =>
    have hfigures : (log.next (core.entry c i)).figures = log.figures ++ [figure] := by
      unfold GuardLog.next
      rw [hknown, hf]
      rfl
    have hguard := h.known hknown
    rw [hguard] at hg hs
    refine ⟨?_, fun _ => ?_, fun hu => ?_⟩
    · rw [lastGuard_snoc, entry_out, hs, hfigures, watchOver_snoc]
      obtain ⟨hsame, hnone⟩ | ⟨saved, hone, hsaved⟩ :=
        observe_saved (watchOver log.figures) figure.1 figure.2
      · rw [hnone, hsame]
        exact h.saved
      · rw [hone]
        exact hsaved
    · rw [core_step, hg, hfigures, watchOver_snoc]
    · rw [hk, hknown] at hu
      cases hu
  | false =>
    have hfigures : (log.next (core.entry c i)).figures = log.figures := by
      unfold GuardLog.next
      rw [hknown]
      exact List.append_nil _
    have hunknown := h.unknown hknown
    rw [observe_unknown hunknown] at hg hs
    refine ⟨?_, fun hu => ?_, fun _ => ?_⟩
    · rw [lastGuard_snoc, entry_out, hs, hfigures]
      exact h.saved
    · rw [hk, hknown] at hu
      cases hu
    · rw [core_step, hg]
      exact hunknown

theorem guardInv_step (he : i.event ≠ .mam .ratioUseChecked) (hr : RestoresGuard history (core.entry c i))
    (h : GuardInv history log c) :
    GuardInv (history ++ [core.entry c i]) (log.next (core.entry c i)) (core.step c i).1 := by
  have hsame (hf : Handled.figure (core.entry c i) = none) :
      (log.next (core.entry c i)).figures = log.figures := by
    unfold GuardLog.next
    rw [hf]
    simp
  -- the saved guard is read, cannot be read, or the step follows the one in memory
  cases guard_step (c := c) he log.known with
  | read saved hsaved hk hf hs hg =>
    have hlast := h.saved
    refine ⟨?_, fun _ => ?_, fun hu => ?_⟩
    · rw [lastGuard_snoc, entry_out, hs, hsame hf]
      exact hlast
    · rw [core_step, hg, hsaved history hr, hsame hf]
      exact hlast
    · rw [show (log.next (core.entry c i)).known = _ from hk] at hu
      cases hu
  | lost hk hf hs hg =>
    refine ⟨?_, fun hu => ?_, fun _ => hg⟩
    · rw [lastGuard_snoc, entry_out, hs, hsame hf]
      exact h.saved
    · rw [show (log.next (core.entry c i)).known = _ from hk] at hu
      cases hu
  | kept hk hg =>
    have hknown : (log.next (core.entry c i)).known = log.known := hk
    cases hread : figureRead (Handled.answer (core.entry c i)) with
    | none =>
      have hf : Handled.figure (core.entry c i) = none := by
        unfold Handled.figure
        rw [hread]
        rfl
      rw [hread] at hg
      obtain ⟨hg, hs⟩ := Prod.mk.inj hg
      refine ⟨?_, fun hu => ?_, fun hu => ?_⟩
      · rw [lastGuard_snoc, entry_out, hs, hsame hf]
        exact h.saved
      · rw [core_step, hg, hsame hf]
        exact h.known (hknown ▸ hu)
      · rw [core_step, hg]
        exact h.unknown (hknown ▸ hu)
    | some downloaded =>
      have hf : Handled.figure (core.entry c i) = some (downloaded, i.occurredAt.wall) := by
        unfold Handled.figure
        rw [hread]
        rfl
      rw [hread] at hg
      obtain ⟨hg, hs⟩ := Prod.mk.inj hg
      exact guardInv_figure hknown hf hg hs h

end

/-- Every history of runs that read back the guard they saved, with no use of
ratio checked by the owner: the guard is what one pass over the counted readings
makes of it. -/
theorem guardInv_history {runs : List (List TimedEvent)} {is : List TimedEvent}
    (hread : Reactive.Along RestoresGuard (core.lives runs ++ core.run is))
    (hchecked : ∀ e ∈ core.lives runs ++ core.run is, e.input.event ≠ .mam .ratioUseChecked) :
    GuardInv (core.lives runs ++ core.run is) (guardLog runs is) (core.last is) := by
  refine @Reactive.log_invariant _ _ _ core GuardLog GuardLog.next GuardLog.renew _ GuardInv
    (fun tr => Reactive.Along RestoresGuard tr ∧ ∀ e ∈ tr, e.input.event ≠ .mam .ratioUseChecked)
    ?_ guardInv_init ?_ ?_ runs is ⟨hread, hchecked⟩
  · intro tr tr' h
    exact ⟨h.1.left, fun e he => h.2 e (List.mem_append_left _ he)⟩
  · intro tr log c h
    exact guardInv_restart h
  · intro tr log c i hi h
    exact guardInv_step (h.2 (core.entry c i) (by simp)) h.1.last hi

/-! ## A trip holds every download that runs -/

/-- A row of a torrent of MAM that Windlass added, wants to run, and has not seen
finished. -/
structure TorrentRecord.Downloading (row : TorrentRecord) (mam : MamTorrentId)
    (hash : TorrentHash) : Prop where
  linked : row.identity = .linked mam hash
  active : row.desired = .active
  added : row.origin ≠ .adopted
  unfinished : (row.observation.any fun observation => observation.torrent.completedAt.isSome) = false

def Records.HeldRow (r : Records) (id : RecordId) (hash : TorrentHash) : Prop :=
  r.byHash[hash]? = some id ∧ ∃ entry, r.entries[id]? = some entry ∧ entry.record.desired = .held

section
variable {r : Records} {id : RecordId} {hash : TorrentHash} (now : Instant)

theorem save_getElem (id : RecordId) {entry : Entry} (h : r.entries[id]? = some entry) :
    ∃ entry', (r.save now).1.entries[id]? = some entry' ∧ entry'.record = entry.record := by
  unfold Records.save
  split
  · exact ⟨entry, h, rfl⟩
  · refine ⟨_, by dsimp only; rw [Std.ExtTreeMap.getElem?_map, h]; rfl, ?_⟩
    dsimp only
    split <;> rfl

theorem save_byHash : (r.save now).1.byHash = r.byHash := by
  unfold Records.save
  split <;> rfl

theorem hold_byHash (hash : TorrentHash) : (r.hold now hash).1.byHash = r.byHash := by
  unfold Records.hold
  rw [save_byHash now]
  split <;> rfl

theorem hold_held {entry : Entry} (hb : r.byHash[hash]? = some id) (he : r.entries[id]? = some entry) :
    (r.hold now hash).1.HeldRow id hash := by
  refine ⟨by rw [hold_byHash, hb], ?_⟩
  unfold Records.hold
  rw [hb]
  have hset : (r.setDesired id .held).entries[id]? =
      some { entry with record := { entry.record with desired := .held } } := by
    rw [setDesired_getElem, if_pos rfl, he]
    rfl
  obtain ⟨entry', he', hr⟩ := save_getElem now id hset
  exact ⟨entry', he', by rw [hr]⟩

/-- Holding a row leaves the others where they are, or holds them too. -/
theorem hold_other {entry : Entry} (he : r.entries[id]? = some entry) (hash' : TorrentHash) :
    ∃ entry', (r.hold now hash').1.entries[id]? = some entry' ∧
      (entry'.record.desired = entry.record.desired ∨ entry'.record.desired = .held) := by
  unfold Records.hold
  split
  · next id' _ =>
    have hset := setDesired_getElem (r := r) id' id .held
    rw [he] at hset
    split at hset
    · obtain ⟨entry', he', hr⟩ := save_getElem now id hset
      exact ⟨entry', he', .inr (by rw [hr])⟩
    · obtain ⟨entry', he', hr⟩ := save_getElem now id hset
      exact ⟨entry', he', .inl (by rw [hr])⟩
  · obtain ⟨entry', he', hr⟩ := save_getElem now id he
    exact ⟨entry', he', .inl (by rw [hr])⟩

theorem follow_tripped (noWedges : Bool) (watched : Download × DownloadWatch) :
    r.follow now false noWedges true watched =
      if watched.1.isDownloading then (r.hold now watched.1.hash).1 else r := by
  unfold Records.follow
  simp

theorem follow_keeps_held (noWedges : Bool) (watched : Download × DownloadWatch) (h : r.HeldRow id hash) :
    (r.follow now false noWedges true watched).HeldRow id hash := by
  rw [follow_tripped]
  split
  · obtain ⟨hb, entry, he, hd⟩ := h
    obtain ⟨entry', he', hheld⟩ := hold_other now he watched.1.hash
    refine ⟨by rw [hold_byHash, hb], entry', he', ?_⟩
    rcases hheld with hheld | hheld
    · exact hheld.trans hd
    · exact hheld
  · exact h

theorem follow_keeps_row (noWedges : Bool) (watched : Download × DownloadWatch)
    (hb : r.byHash[hash]? = some id)
    (he : ∃ entry, r.entries[id]? = some entry) :
    (r.follow now false noWedges true watched).byHash[hash]? = some id ∧
      ∃ entry, (r.follow now false noWedges true watched).entries[id]? = some entry := by
  rw [follow_tripped]
  split
  · obtain ⟨entry, he⟩ := he
    obtain ⟨entry', he', -⟩ := hold_other now he watched.1.hash
    exact ⟨by rw [hold_byHash, hb], entry', he'⟩
  · exact ⟨hb, he⟩

/-- Following the running downloads with the guard tripped holds each of them. -/
theorem followAll_held (noWedges : Bool) {watched : List (Download × DownloadWatch)} {download : Download}
    {watch : DownloadWatch} (hm : (download, watch) ∈ watched) (hd : download.isDownloading)
    (hb : r.byHash[download.hash]? = some id) (he : ∃ entry, r.entries[id]? = some entry) :
    (watched.foldl (fun r w => r.follow now false noWedges true w) r).HeldRow id download.hash := by
  have hkeep (ws : List (Download × DownloadWatch)) (r : Records) (h : r.HeldRow id download.hash) :
      (ws.foldl (fun r w => r.follow now false noWedges true w) r).HeldRow id download.hash := by
    induction ws generalizing r with
    | nil => exact h
    | cons w ws ih => exact ih _ (follow_keeps_held now noWedges w h)
  induction watched generalizing r with
  | nil => cases hm
  | cons w ws ih =>
    rcases List.mem_cons.mp hm with rfl | hm
    · refine hkeep ws _ ?_
      dsimp only
      rw [follow_tripped, if_pos hd]
      obtain ⟨entry, he⟩ := he
      exact hold_held now hb he
    · obtain ⟨hb', he'⟩ := follow_keeps_row now noWedges w hb he
      exact ih hm hb' he'

end

theorem downloading_download {row : TorrentRecord} {mam : MamTorrentId} {hash : TorrentHash}
    (h : row.Downloading mam hash) :
    ∃ download, row.download = some download ∧ download.hash = hash ∧ download.isDownloading := by
  have hseen : ((row.observation.map (·.torrent)).any fun torrent => torrent.completedAt.isSome) =
      false := by
    rw [Option.any_map]
    exact h.unfinished
  let download : Download :=
    { mam := mam
      hash := hash
      desired := .active
      completion := .incomplete
      addedAt := (row.observation.map (·.torrent)).bind (·.addedAt) }
  refine ⟨download, ?_, rfl, rfl⟩
  unfold TorrentRecord.download
  rw [h.linked]
  simp [h.active, h.added, hseen, download]

/-- With the guard tripped, following the running downloads holds every row that
downloads. -/
theorem following_held {r : Records} (hi : r.Indexed) {m : Mam} (now : ClockReading) {used : RatioUse}
    (hg : m.ratioGuard = .tripped used) {id : RecordId} {entry : Entry} (he : r.entries[id]? = some entry)
    {mam : MamTorrentId} {hash : TorrentHash} (hrow : entry.record.Downloading mam hash) :
    ∃ entry', (m.following now r).records.entries[id]? = some entry' ∧ entry'.record.desired = .held := by
  obtain ⟨download, hdown, hhash, hrun⟩ := downloading_download hrow
  have hmem : download ∈ r.downloads :=
    List.mem_filterMap.mpr ⟨entry.record, mem_records.mpr ⟨id, entry, he, rfl⟩, hdown⟩
  have hwatched : (download,
      m.acquisition.watch download m.account.data now.monotonic now.wall) ∈ m.watchAll now r := by
    refine List.mem_map.mpr ⟨download, List.mem_filter.mpr ⟨hmem, ?_⟩, rfl⟩
    unfold Download.isDownloading at hrun
    rw [Bool.and_eq_true] at hrun
    rw [hrun.2]
    rfl
  have hindex : r.byHash[download.hash]? = some id := by
    refine hi id download.hash ?_
    rw [hashIn, he, Option.bind_some, hrow.linked, hhash]
    rfl
  rw [following_records, hg]
  exact (followAll_held now.monotonic _ hwatched hrun hindex ⟨entry, he⟩).2

/-! ## Nothing is left to decide between steps -/

section
variable {now : ClockReading}

theorem setPreferences_settled {s s' : Session} {wanted : Wanted} {out : List Action}
    (h : s.setPreferences wanted = some (s', out)) : Qbittorrent.deciding (.connected s') = none := by
  unfold Session.setPreferences at h
  split at h
  · cases h
    rfl
  · split at h
    · cases h
      rfl
    · cases h

theorem decide_settled {ρ : Type} (q : Qbittorrent) (timers : Timers) (wanted : Wanted) (registry : ρ)
    (command : ρ → Session → ρ × Option TorrentCommand) :
    (q.decide now timers wanted registry command).1.deciding = none := by
  unfold Qbittorrent.decide
  split
  · next hd => exact hd
  · split
    · next hp => exact setPreferences_settled hp
    · split
      · rfl
      · split
        · rfl
        · split <;> rfl

theorem followPreferences_settled {q : Qbittorrent} (wanted : Wanted) (h : q.deciding = none) :
    (q.followPreferences wanted).1.deciding = none := by
  unfold Qbittorrent.followPreferences
  split
  · split
    · split
      · next hp => exact setPreferences_settled hp
      · exact h
    · exact h
  · exact h

theorem handle_settled (c : Core) (event : Event) :
    (c.handle now event).1.qbittorrent.deciding = none := by
  rw [handle_eq, decided_eq]
  exact followPreferences_settled _ (decide_settled _ _ _ _ _)

theorem settled_last (is : List TimedEvent) : (core.last is).qbittorrent.deciding = none :=
  Reactive.last_invariant core (I := fun c => c.qbittorrent.deciding = none) rfl
    (fun c i _ => handle_settled c i.event) is

end

/-! ## The step that trips the guard -/

theorem figureRead_answer {answer : Answer} {downloaded : ByteSize}
    (h : figureRead answer = some downloaded) :
    ∃ clients data, answer = some (.loadUserData clients, .ok (.userData data)) := by
  unfold figureRead at h
  split at h
  · next clients data => exact ⟨clients, data, rfl⟩
  · cases h

/-- An account that was read has the running downloads followed at once. -/
theorem read_registry {c : Core} {i : TimedEvent} (hq : c.qbittorrent.deciding = none)
    {clients : ClientListing}
    {data : UserData} (ha : c.mam.accepted i.event = some (.loadUserData clients, .ok (.userData data)))
    {records : Records} (hr : c.registry = .loaded records) :
    ∃ m : Mam, m.ratioGuard = (c.mam.ratioGuard.observe data.downloaded i.occurredAt.wall).1 ∧
      (c.received i.occurredAt i.event).registry =
      .loaded (m.following i.occurredAt records).records := by
  obtain ⟨sent, epoch, rotated, ho, hev⟩ := accepted_outstanding ha
  have hepoch : (epoch == c.mam.epoch) = true := by
    rw [hev, accepted_answered c.mam ho] at ha
    split at ha
    · next hcurrent => simpa [MamRequest.recordsSpend] using hcurrent
    · cases ha
  have hobserved : (c.received i.occurredAt i.event).registry =
      (c.mam.requestAnswered i.occurredAt (.ok (.userData data)) rotated c.registry).2.1 := by
    rw [hev]
    unfold Core.received Core.receive Core.observe
    have hsame : ((((c.note (.mam (.answered (.ok (.userData data)) rotated))).dispatch i.occurredAt
        (.mam (.answered (.ok (.userData data))
          rotated))).1.expireLease i.occurredAt).qbittorrent).deciding = none := hq
    dsimp only
    rw [hsame]
    rfl
  obtain ⟨session, issued, -, hregistry, -⟩ :=
    requestAnswered_eq ho i.occurredAt (.ok (.userData data)) rotated c.registry
  refine ⟨({ c.mam with outstanding := none, session := session }.userDataRead i.occurredAt data).1,
    rfl, ?_⟩
  rw [hobserved, hregistry, hepoch, hr]
  rfl

section
variable {history : List Handled} {log : GuardLog} {c : Core} {i : TimedEvent}

/-- A guard that goes from watching to tripped was tripped by a reading. -/
theorem trip_read (he : i.event ≠ .mam .ratioUseChecked) (hr : RestoresGuard history (core.entry c i))
    (h : GuardInv history log c) {figure : Option ByteSize} {used : RatioUse}
    (hbefore : c.mam.ratioGuard = .watching figure)
    (hafter : (c.handle i.occurredAt i.event).1.mam.ratioGuard = .tripped used) :
    ∃ clients data, c.mam.accepted i.event = some (.loadUserData clients, .ok (.userData data)) ∧
      (c.mam.ratioGuard.observe data.downloaded i.occurredAt.wall).1 = .tripped used := by
  have hknown : log.known = true := by
    by_contra hno
    rcases h.unknown (Bool.eq_false_iff.mpr hno) with hu | hu
    · rw [hu] at hbefore
      cases hbefore
    · rw [hu] at hbefore
      cases hbefore
  cases guard_step (c := c) he log.known with
  | read saved hsaved hk hf hs hg =>
    rw [hg, hsaved history hr, h.saved, ← h.known hknown, hbefore] at hafter
    cases hafter
  | lost hk hf hs hg =>
    rcases hg with hg | hg
    · rw [hg] at hafter
      cases hafter
    · rw [hg] at hafter
      cases hafter
  | kept hk hg =>
    cases hread : figureRead (Handled.answer (core.entry c i)) with
    | none =>
      rw [hread] at hg
      rw [(Prod.mk.inj hg).1, hbefore] at hafter
      cases hafter
    | some downloaded =>
      obtain ⟨clients, data, ha⟩ := figureRead_answer hread
      rw [ha] at hg
      rw [(Prod.mk.inj hg).1] at hafter
      exact ⟨clients, data, ha, hafter⟩

theorem trip_holds (hq : c.qbittorrent.deciding = none) (hi : c.registry.Indexed)
    {clients : ClientListing}
    {data : UserData} {used : RatioUse}
    (ha : c.mam.accepted i.event = some (.loadUserData clients, .ok (.userData data)))
    (hused : (c.mam.ratioGuard.observe data.downloaded i.occurredAt.wall).1 = .tripped used)
    {records : Records}
    (hrec : c.registry = .loaded records) :
    ∃ records', (c.handle i.occurredAt i.event).1.registry = .loaded records' ∧
      ∀ (id : RecordId) (entry : Entry) mam hash, records.entries[id]? = some entry →
      entry.record.Downloading mam hash →
        ∃ entry', records'.entries[id]? = some entry' ∧ entry'.record.desired = .held := by
  obtain ⟨m, hm, hregistry⟩ := read_registry hq ha hrec
  have hheld (id : RecordId) (entry : Entry) mam hash (he : records.entries[id]? = some entry)
      (hrow : entry.record.Downloading mam hash) :=
        following_held (hi records hrec) i.occurredAt (hm.trans hused) he hrow
  obtain hsame | ⟨r, last, hr, hcommand⟩ := handle_commanded c i.occurredAt i.event
  · exact ⟨_, hsame.trans hregistry, hheld⟩
  · rw [hregistry] at hr
    cases hr
    exact ⟨_, hcommand, hheld⟩

theorem unwatched_admits_none (hs : (c.received i.occurredAt i.event).registry.Sound)
    (hg : ∀ figure, (c.handle i.occurredAt i.event).1.mam.ratioGuard ≠ .watching figure)
    (id : MamTorrentId) :
    ¬ Handled.AdmitsRow (core.entry c i) id := by
  rintro ⟨hqueued, wedge, hsends⟩
  obtain ⟨records, bookmark, data, hrec, hadmits⟩ := admission_of_queued hs hqueued hsends
  obtain ⟨summary, hadmitting⟩ := admits_admitting hrec hadmits
  obtain ⟨figure, hwatching⟩ := hadmitting.guard
  exact hg figure hwatching

theorem unwatched_permits_none {m : Mam} (hg : ∀ figure, m.ratioGuard ≠ .watching figure)
    (id : MamTorrentId) :
    m.permitsDownload id = false := by
  have hpermits : m.ratioGuard.permitsDownloads = false := by
    cases h : m.ratioGuard with
    | watching figure => exact absurd h (hg figure)
    | _ => rfl
  unfold Mam.permitsDownload
  split
  · rfl
  · rw [hpermits]
    simp

end

/-! ## The guard as a whole -/

/-- The second history goes on from the first: in the same run, or through
restarts. -/
def GoesOn (runs : List (List TimedEvent)) (is : List TimedEvent) (runs' : List (List TimedEvent))
    (is' : List TimedEvent) : Prop :=
  (runs' = runs ∧ is <+: is') ∨ ∃ js more, is <+: js ∧ runs' = runs ++ js :: more

theorem figures_foldl (log : GuardLog) (tr : List Handled) :
    log.figures <+: (tr.foldl GuardLog.next log).figures := by
  induction tr generalizing log with
  | nil => exact List.prefix_rfl
  | cons e tr ih => exact (List.prefix_append _ _).trans (ih (log.next e))

theorem figures_runs (log : GuardLog) (runs : List (List TimedEvent)) :
    log.figures <+: (runs.foldl (fun g is => (core.run is).foldl GuardLog.next g.renew) log).figures := by
  induction runs generalizing log with
  | nil => exact List.prefix_rfl
  | cons is runs ih => exact (figures_foldl log.renew (core.run is)).trans (ih _)

theorem GoesOn.figures {runs runs' : List (List TimedEvent)} {is is' : List TimedEvent}
    (h : GoesOn runs is runs' is') :
    (guardLog runs is).figures <+: (guardLog runs' is').figures := by
  have hrun {js : List TimedEvent} (hp : is <+: js) :
      (guardLog runs is).figures <+: (guardLog runs js).figures := by
    obtain ⟨ks, rfl⟩ := hp
    have happ : core.run (is ++ ks) = core.run is ++ core.trace (core.last is) ks :=
      Reactive.trace_append core core.init is ks
    unfold guardLog Reactive.Machine.log
    rw [happ, List.foldl_append]
    exact figures_foldl _ _
  obtain ⟨rfl, hp⟩ | ⟨js, more, hp, rfl⟩ := h
  · exact hrun hp
  · refine (hrun hp).trans ?_
    unfold guardLog Reactive.Machine.log
    rw [List.foldl_append]
    exact (figures_runs _ more).trans (figures_foldl (GuardLog.renew _) (core.run is'))

theorem GoesOn.history {runs runs' : List (List TimedEvent)} {is is' : List TimedEvent}
    (h : GoesOn runs is runs' is') :
    core.lives runs ++ core.run is <+: core.lives runs' ++ core.run is' := by
  have hrun {js : List TimedEvent} (hp : is <+: js) : core.run is <+: core.run js := by
    obtain ⟨ks, rfl⟩ := hp
    exact ⟨_, (Reactive.trace_append core core.init is ks).symm⟩
  obtain ⟨rfl, hp⟩ | ⟨js, more, hp, rfl⟩ := h
  · exact (List.prefix_append_right_inj _).mpr (hrun hp)
  · have hlives : core.lives (runs ++ js :: more) = core.lives runs ++
      (core.run js ++ core.lives more) := by
      simp [Reactive.Machine.lives]
    rw [hlives, List.append_assoc]
    exact (List.prefix_append_right_inj _).mpr ((hrun hp).trans (by simp))

theorem watchOver_stays {figures figures' : List Figure} {used : RatioUse}
    (h : watchOver figures = .tripped used)
    (hp : figures <+: figures') : watchOver figures' = .tripped used := by
  obtain ⟨more, rfl⟩ := hp
  induction more using List.reverseRecOn with
  | nil => rwa [List.append_nil]
  | append_singleton more figure ih =>
    rw [← List.append_assoc, watchOver_snoc, ih]
    rfl

/-- The guard over restarts. It is tripped when it is known and some counted
reading exceeds the one before it, by the first that does, and for good; while it
does not watch nothing queued is fetched and no download may run; and the step
that trips it holds every row that downloads. -/
theorem ratio_guard_kept {runs : List (List TimedEvent)} {is : List TimedEvent}
    (hread : Reactive.Along RestoresGuard (core.lives runs ++ core.run is))
    (hchecked : ∀ e ∈ core.lives runs ++ core.run is, e.input.event ≠ .mam .ratioUseChecked)
    (hstored : ReadsStored is) :
    ((∃ used, (core.last is).mam.ratioGuard = .tripped used) ↔ (guardLog runs is).known = true ∧
      ∃ pre a b post, (guardLog runs is).figures = pre ++ a :: b :: post ∧ a.1 < b.1) ∧
    (∀ used, (core.last is).mam.ratioGuard = .tripped used → FirstRise (guardLog runs is).figures used) ∧
    (∀ past js, GoesOn past js runs is → (guardLog runs is).known = true →
      ∀ used, (core.last js).mam.ratioGuard = .tripped used →
      (core.last is).mam.ratioGuard = .tripped used) ∧
    (∀ e ∈ core.run is, (∀ figure, e.after.mam.ratioGuard ≠ .watching figure) →
      ∀ id, ¬ Handled.AdmitsRow e id ∧ e.after.mam.permitsDownload id = false) ∧
    ∀ e ∈ core.run is, ∀ figure used records, e.before.mam.ratioGuard = .watching figure →
      e.after.mam.ratioGuard = .tripped used → e.before.registry = .loaded records →
      ∃ records', e.after.registry = .loaded records' ∧
        ∀ (id : RecordId) (entry : Entry) mam hash, records.entries[id]? = some entry →
          entry.record.Downloading mam hash →
          ∃ entry', records'.entries[id]? = some entry' ∧ entry'.record.desired = .held := by
  have hinv := guardInv_history hread hchecked
  have hknown {past : List (List TimedEvent)} {js : List TimedEvent} {used : RatioUse}
      (h : GuardInv (core.lives past ++ core.run js) (guardLog past js) (core.last js))
      (hg : (core.last js).mam.ratioGuard = .tripped used) :
      (guardLog past js).known = true ∧ watchOver (guardLog past js).figures = .tripped used := by
    -- a guard whose saved state was not read never trips
    cases hk : (guardLog past js).known with
    | true => exact ⟨rfl, (h.known hk).symm.trans hg⟩
    | false =>
      rcases h.unknown hk with hu | hu
      · rw [hu] at hg
        cases hg
      · rw [hu] at hg
        cases hg
  refine ⟨⟨?_, ?_⟩, ?_, ?_, ?_, ?_⟩
  · rintro ⟨used, hg⟩
    obtain ⟨hk, hw⟩ := hknown hinv hg
    exact ⟨hk, watchOver_tripped.1.mp ⟨used, hw⟩⟩
  · rintro ⟨hk, hrise⟩
    rw [hinv.known hk]
    exact watchOver_tripped.1.mpr hrise
  · intro used hg
    exact watchOver_tripped.2 used (hknown hinv hg).2
  · intro past js hon hk used hg
    obtain ⟨rest, hrest⟩ := hon.history
    have hpast : GuardInv (core.lives past ++ core.run js) (guardLog past js) (core.last js) := by
      refine guardInv_history (Reactive.Along.left (hrest ▸ hread)) fun e he => hchecked e ?_
      rw [← hrest]
      exact List.mem_append_left _ he
    rw [hinv.known hk]
    exact watchOver_stays (hknown hpast hg).2 hon.figures
  · intro e he hg id
    obtain ⟨pre, post, hsplit⟩ := List.append_of_mem he
    obtain ⟨js, i, ks, rfl, -, rfl, -⟩ := Reactive.run_split core hsplit
    have hsound : (core.last js).registry.Sound := registry_sound fun j hj => hstored j (by simp [hj])
    exact ⟨unwatched_admits_none (received_sound hsound (hstored i (by simp))) hg id,
      unwatched_permits_none hg id⟩
  · intro e he figure used records hbefore hafter hrec
    obtain ⟨pre, post, hsplit⟩ := List.append_of_mem he
    obtain ⟨js, i, ks, rfl, rfl, rfl, -⟩ := Reactive.run_split core hsplit
    have hsound : (core.last js).registry.Sound := registry_sound fun j hj => hstored j (by simp [hj])
    rw [hsplit, ← List.append_assoc] at hread hchecked
    have hpast := @guardInv_history runs js hread.left
      (fun e he => hchecked e (List.mem_append_left _ he))
    obtain ⟨clients, data, ha, hused⟩ := trip_read (hchecked (core.entry (core.last js) i) (by simp))
      (hread _ _ post rfl) hpast hbefore hafter
    exact trip_holds (settled_last js) hsound.indexed ha hused hrec

def usedRatioEvents : List TimedEvent :=
  -- Windlass starts with a row that downloads and the guard it saved, and reads that the
  -- account downloaded more
  startedEvents.take 4 ++ [.after 0 (.mam (.stateRead none none (.watching 1000)))] ++
    ((admittingEvents [someRow]).drop 5).dropLast ++
    [replyAt 64 (.userData { accountData with downloaded := 2000 })]

def Event.isRatioUseChecked : Event → Bool
  | .mam .ratioUseChecked => true
  | _ => false

theorem ratio_used_after_restart : ∃ used, (core.last usedRatioEvents).mam.ratioGuard = .tripped used ∧
    used.before = 1000 ∧ used.after = 2000 ∧
    FirstRise (guardLog [admittingEvents []] usedRatioEvents).figures used ∧
    ((core.last usedRatioEvents).registry.records?.bind fun r =>
      r.entries[(1 : RecordId)]?).map (·.record.desired) =
      some .held := by
  have hread : Reactive.Along RestoresGuard (core.lives [admittingEvents []] ++
      core.run usedRatioEvents) := by
    decide +kernel
  have hchecked : ∀ e ∈ core.lives [admittingEvents []] ++ core.run usedRatioEvents,
      e.input.event ≠ .mam .ratioUseChecked := by
    have hno : ∀ e ∈ core.lives [admittingEvents []] ++ core.run usedRatioEvents,
        e.input.event.isRatioUseChecked = false := by decide +kernel
    intro e he hev
    have hne := hno e he
    rw [hev] at hne
    cases hne
  have hstored : ReadsStored usedRatioEvents := readsStored_of_short (by decide +kernel)
  have hguard : (core.last usedRatioEvents).mam.ratioGuard =
      .tripped { before := 1000, after := 2000, at' := 1700000064000000000 } := by decide +kernel
  exact ⟨_, hguard, rfl, rfl, (ratio_guard_kept hread hchecked hstored).2.1 _ hguard, by decide +kernel⟩

end Windlass
