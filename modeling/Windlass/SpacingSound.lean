import Windlass.RateSound
import Windlass.Spacing
import Windlass.Codec

/-!
# Registrations and VPN switches, an hour apart

Both are decided on, saved, and done once saved, and both are spaced from the
time they were decided on, which storage keeps in whole seconds. The steps that
send them are spaced too as long as none leaves sooner after its decision than an
earlier one did.
-/

namespace Windlass

/-! ## What storage makes of a time -/

theorem stored_mono : Monotone SystemTime.stored := by
  intro a b h
  unfold SystemTime.stored
  apply Int.mul_le_mul_of_nonneg_right _ (by decide)
  rw [seconds_eq, seconds_eq]
  exact min_le_min_right _ (Int.ediv_le_ediv (by decide) (max_le_max_right 0 h))

theorem stored_le (t : SystemTime) : t.stored ≤ max t 0 := by
  unfold SystemTime.stored
  rw [seconds_eq]
  exact (Int.mul_le_mul_of_nonneg_right (min_le_left _ _) (by decide)).trans
    (Int.ediv_mul_le _ (by decide))

theorem stored_late {t : SystemTime} {d : Duration} (hd : (d : Int) ≤ SystemTime.latest)
    (h : t + d ≤ SystemTime.latest) : t.stored + d ≤ SystemTime.latest := by
  have hle := stored_le t
  rcases le_total 0 t with ht | ht
  · rw [max_eq_left ht] at hle
    exact (Int.add_le_add_right hle _).trans h
  · rw [max_eq_right ht] at hle
    refine (Int.add_le_add_right hle _).trans ?_
    rwa [Int.zero_add]

/-! ## Registrations -/

section
variable (c : Core) (now : ClockReading) (event : Event)

def Mam.savedAttempt (m : Mam) (event : Event) : Option SystemTime :=
  match event, m.outstanding with
  | .mam .registrationAttemptSaved, some (.savingRegistration at' _ _) => some at'
  | _, _ => none

def Mam.waitingAttempt (m : Mam) : Option SystemTime :=
  match m.outstanding with
  | some (.savingRegistration at' _ _) => some at'
  | _ => none

def LastAttempt.toKnown : LastAttempt → Option (Option SystemTime)
  | .known last => some last
  | _ => none

def Event.readAttempt : Event → Option (Option SystemTime)
  | .mam (.stateRead last _ _) => some last
  | _ => none

theorem seedbox_answered_lastAttempt (s : Seedbox) (answer : Answer) :
    (s.answered now answer).lastAttempt = s.lastAttempt := by
  unfold Seedbox.answered
  split <;> rfl

theorem mam_handle_lastAttempt (m : Mam) (registry : Registry) (e : MamEvent) {x : Option SystemTime}
    (h : (m.handle now e registry).1.seedbox.lastAttempt.toKnown = some x) :
    (m.savedAttempt (.mam e) = none ∧ m.seedbox.lastAttempt.toKnown = some x) ∨
    (m.savedAttempt (.mam e) = none ∧ Event.readAttempt (.mam e) = some x) ∨
    ∃ d, m.savedAttempt (.mam e) = some d ∧ x = some d := by
  cases e with
  | stateRead last reminder guard => exact .inr (.inl ⟨rfl, h⟩)
  | stateReadFailed => cases h
  | answered result rotated =>
    have hs := (requestAnswered_answered m now registry result rotated).seedbox
    simp only [Mam.handle] at h
    rw [hs, seedbox_answered_lastAttempt] at h
    exact .inl ⟨rfl, h⟩
  | ratioUseChecked =>
    simp only [Mam.handle] at h
    rw [ratioUseChecked_frame] at h
    exact .inl ⟨rfl, h⟩
  | registrationAttemptSaved =>
    simp only [Mam.handle, Mam.registrationAttemptSaved] at h
    unfold Mam.savedAttempt
    split at h
    · next hm =>
      rw [hm]
      right
      right
      split at h
      · exact ⟨_, rfl, (Option.some.inj h).symm⟩
      · exact ⟨_, rfl, (Option.some.inj h).symm⟩
    · next hm =>
      left
      refine ⟨?_, h⟩
      split
      · next hs => exact absurd hs (hm _ _ _)
      · rfl
  | registrationAttemptSaveFailed =>
    simp only [Mam.handle, Mam.registrationAttemptSaveFailed] at h
    split at h
    · exact .inl ⟨rfl, h⟩
    · exact .inl ⟨rfl, h⟩
  | _ => exact .inl ⟨rfl, h⟩

theorem received_lastAttempt {x : Option SystemTime}
    (h : (c.received now event).mam.seedbox.lastAttempt.toKnown = some x) :
    (c.mam.savedAttempt event = none ∧ c.mam.seedbox.lastAttempt.toKnown = some x) ∨
    (c.mam.savedAttempt event = none ∧ event.readAttempt = some x) ∨
    ∃ d, c.mam.savedAttempt event = some d ∧ x = some d := by
  rw [received_mam] at h
  by_cases hm : ∃ e, event = .mam e
  · obtain ⟨e, rfl⟩ := hm
    rw [dispatch_mam_eq] at h
    exact mam_handle_lastAttempt now c.mam c.registry e h
  · have hsaved : c.mam.savedAttempt event = none := by
      unfold Mam.savedAttempt
      split
      · exact absurd ⟨_, rfl⟩ hm
      · rfl
    left
    refine ⟨hsaved, ?_⟩
    have hn := dispatch_nudged (c.note event) now fun e he => hm ⟨e, he⟩
    generalize ((c.note event).dispatch now event).1.mam = m at hn h
    cases hn with
    | same => exact h
    | switched => exact h
    | reading => cases h
    | woken id =>
      unfold Mam.timerExpired at h
      split at h <;> exact h

theorem handle_lastAttempt : (c.handle now event).1.mam.seedbox.lastAttempt =
    (c.received now event).mam.seedbox.lastAttempt := by
  rw [handle_decided.1]
  exact (surveyed_seedbox c now event).1

/-- An attempt is decided on only when the last one is known, and an hour after
it. -/
theorem allowance_now {s : Seedbox} {wall : SystemTime} (h : s.allowance wall = .now) :
    ∃ x, s.lastAttempt.toKnown = some x ∧
      ∀ last, x = some last → last + registrationSpacing ≤ SystemTime.latest →
      last + registrationSpacing ≤ wall := by
  unfold Seedbox.allowance at h
  split at h
  · next x hx =>
    rw [hx]
    refine ⟨x, rfl, ?_⟩
    rintro last rfl hlate
    simp only [Option.bind_some, SystemTime.checkedAdd, if_pos hlate] at h
    cases hb : s.notBefore with
    | none =>
      rw [hb] at h
      simp only [laterOf] at h
      split at h
      · cases h
      · next hle => exact not_lt.mp hle
    | some later =>
      rw [hb] at h
      simp only [laterOf] at h
      split at h
      · cases h
      · next hle => exact (le_max_left _ _).trans (not_lt.mp hle)
  · cases h
  · cases h
  · cases h

theorem handle_waitingAttempt {d : SystemTime} (h : (c.handle now event).1.mam.waitingAttempt = some d) :
    (c.mam.savedAttempt event = none ∧ c.mam.waitingAttempt = some d) ∨
    d = now.wall ∧ ∃ x, (c.handle now event).1.mam.seedbox.lastAttempt.toKnown = some x ∧
      ∀ last, x = some last → last + registrationSpacing ≤ SystemTime.latest →
      last + registrationSpacing ≤ d := by
  unfold Mam.waitingAttempt at h
  rw [handle_outstanding] at h
  obtain hq | ⟨-, -, ⟨cookie, budget, hw, -, hq⟩ | ⟨request, budget, -, hq⟩⟩ :=
    send_cases (c.prepared now event) now (c.received now event).context (c.planned now event)
  · have hq' : c.sending now event = _ := hq
    rw [hq', prepared_outstanding, received_outstanding] at h
    split at h
    · next hslot =>
      cases h
      have hbefore := slotAfter_saving now event hslot
      left
      constructor
      · unfold Mam.savedAttempt
        split
        · next hm =>
          simp only [Mam.slotAfter, hm] at hslot
          split at hslot
          · cases hslot
          · cases hslot
        · rfl
      · unfold Mam.waitingAttempt
        rw [hbefore]
    · cases h
  · have hq' : c.sending now event = _ := hq
    rw [hq'] at h
    cases h
    right
    refine ⟨rfl, ?_⟩
    have hwanted := wanted_register hw
    have hallowed : (c.surveyed now event).seedbox.allowance now.wall = .now := by
      unfold Seedbox.wanted at hwanted
      simp only [Bool.and_eq_true, beq_iff_eq] at hwanted
      exact hwanted.2
    obtain ⟨x, hx, hspaced⟩ := allowance_now hallowed
    rw [handle_lastAttempt, ← (surveyed_seedbox c now event).1]
    exact ⟨x, hx, hspaced⟩
  · have hq' : c.sending now event = _ := hq
    rw [hq'] at h
    cases h

def registrations (out : List Action) : ℕ := (requests out).countP fun p => p.1 = .registerSeedbox

theorem handle_registrations :
    registrations (c.handle now event).2 = (c.mam.sentAtOnce event).length := by
  have hsending : (requests (c.sending now event).2).countP (fun p => p.1 = .registerSeedbox) = 0 := by
    obtain hq | ⟨-, -, ⟨cookie, budget, -, -, hq⟩ | ⟨request, budget, hw, hq⟩⟩ :=
      send_cases (c.prepared now event) now (c.received now event).context (c.planned now event)
    · have hq' : c.sending now event = _ := hq
      rw [hq']
      rfl
    · have hq' : c.sending now event = _ := hq
      rw [hq']
      rfl
    · have hq' : c.sending now event = _ := hq
      rw [hq']
      have hne := wanted_ne_register hw
      simp [requests, Action.request?, hne]
  unfold registrations
  rw [handle_requests, dispatch_requests, List.countP_append, hsending, Nat.add_zero]
  unfold Mam.sentAtOnce
  split
  · split
    · rfl
    · rfl
  · rfl

theorem attempts_now {d : SystemTime} (h : d ∈ attempts (c.handle now event).2) : d = now.wall := by
  cases hslot : c.mam.slotAfter now event with
  | none =>
    obtain ⟨-, -, ha⟩ | ⟨k, -, -, -, -, ha⟩ | ⟨r, -, -, -, -, ha⟩ := slot_empty c now event hslot
    · rw [ha] at h
      cases h
    · rw [ha] at h
      exact List.mem_singleton.mp h
    · rw [ha] at h
      cases h
  | some slot =>
    rw [(slot_taken c now event hslot).2.2] at h
    cases h

theorem savedAttempt_waiting {d : SystemTime} (h : c.mam.savedAttempt event = some d) :
    c.mam.waitingAttempt = some d := by
  unfold Mam.savedAttempt at h
  unfold Mam.waitingAttempt
  split at h
  · next hm =>
    rw [hm]
    exact h
  · cases h

theorem sentAtOnce_once : (c.mam.sentAtOnce event).length ≤ 1 := by
  unfold Mam.sentAtOnce
  split
  · split <;> simp
  · simp

theorem sentAtOnce_savedAttempt (h : (c.mam.sentAtOnce event).length ≠ 0) :
    ∃ d, c.mam.savedAttempt event = some d := by
  unfold Mam.sentAtOnce at h
  split at h
  · next hm =>
    unfold Mam.savedAttempt
    rw [hm]
    exact ⟨_, rfl⟩
  · exact absurd rfl h

end

/-- Registrations of the seedbox, as actions kept an hour apart. -/
def spacedRegistrations : Reactive.Spaced core where
  spacing := registrationSpacing
  latest := SystemTime.latest
  time i := i.occurredAt.wall
  store := SystemTime.stored
  known c := c.mam.seedbox.lastAttempt.toKnown
  waiting c := c.mam.waitingAttempt
  started e := attempts e.out
  saved e := e.before.mam.savedAttempt e.input.event
  read e := e.input.event.readAttempt
  does e := registrations e.out
  spacing_nonneg := by decide
  store_mono := stored_mono
  store_late _ := stored_late (by decide)
  known_init := rfl
  waiting_init := rfl
  started_now c i _ hd := attempts_now c i.occurredAt i.event hd
  saved_waiting c i _ hd := savedAttempt_waiting c i.event hd
  known_step c i x hx := by
    rw [core_step, handle_lastAttempt] at hx
    exact received_lastAttempt c i.occurredAt i.event hx
  waiting_step c i d hd := handle_waitingAttempt c i.occurredAt i.event hd
  does_once c i := by
    rw [entry_out, handle_registrations]
    exact sentAtOnce_once c i.event
  does_saved c i h := by
    rw [entry_out, handle_registrations] at h
    exact sentAtOnce_savedAttempt c i.event h

def Apart (spacing : Duration) (times : List SystemTime) : Prop :=
  times.Pairwise fun (a b : SystemTime) => a + spacing ≤ b

instance (spacing : Duration) (times : List SystemTime) : Decidable (Apart spacing times) :=
  inferInstanceAs (Decidable (times.Pairwise _))

def Handled.wall (e : Handled) : SystemTime := e.input.occurredAt.wall

def registrationTimes (history : List Handled) : List SystemTime :=
  history.flatMap fun e => List.replicate (registrations e.out) e.wall

/-- Over every sequence of runs that restore the last attempt as storage saved it,
registrations are sent an hour apart when none leaves sooner after its decision
than an earlier one did. -/
theorem registrations_spaced {runs : List (List TimedEvent)}
    (hread : Reactive.Along spacedRegistrations.Restores (core.lives runs))
    (hend : ∀ e ∈ core.lives runs, Handled.wall e + registrationSpacing ≤ SystemTime.latest)
    (hprompt : Reactive.Along spacedRegistrations.Prompt (core.lives runs)) :
    Apart registrationSpacing (registrationTimes (core.lives runs)) :=
  Reactive.done_apart spacedRegistrations runs hread hend hprompt

def TimedEvent.later (seconds : Nat) (i : TimedEvent) : TimedEvent :=
  { i with
    occurredAt :=
      { monotonic := i.occurredAt.monotonic, wall := i.occurredAt.wall + Duration.fromSecs seconds } }

def registeredTwice : List (List TimedEvent) :=
  [startedEvents ++ [attemptSaved],
    (startedEvents.take 4 ++ [TimedEvent.after 0
      (.mam (.stateRead (some 1700000061000000000) none .unset))] ++
      startedEvents.drop 5 ++ [attemptSaved]).map (TimedEvent.later 3600)]

theorem registered_an_hour_later : registrationTimes (core.lives registeredTwice) =
      [1700000062000000000, 1700003662000000000] ∧
    Apart registrationSpacing (registrationTimes (core.lives registeredTwice)) := by
  have hread : Reactive.Along spacedRegistrations.Restores (core.lives registeredTwice) := by
    decide +kernel
  have hend : ∀ e ∈ core.lives registeredTwice,
      Handled.wall e + registrationSpacing ≤ SystemTime.latest := by
    decide +kernel
  have hprompt : Reactive.Along spacedRegistrations.Prompt (core.lives registeredTwice) := by
    decide +kernel
  exact ⟨by decide +kernel, registrations_spaced hread hend hprompt⟩

def hurriedRegistration : List (List TimedEvent) :=
  [startedEvents ++ [.after 71 (.mam .registrationAttemptSaved), failureAt 72 .unreachable,
    failureAt 3660 .unreachable, shownAt 3661 (.v4 1) 1, .after 3661 (.mam .registrationAttemptSaved)]]

theorem registered_too_soon :
    (core.lives hurriedRegistration).Pairwise (fun e f => Handled.wall e ≤ Handled.wall f) ∧
    Reactive.Along spacedRegistrations.Restores (core.lives hurriedRegistration) ∧
    ¬ Apart registrationSpacing (registrationTimes (core.lives hurriedRegistration)) :=
  ⟨by decide +kernel, by decide +kernel, by decide +kernel⟩

/-! ## VPN switches -/

def Tunnel.savingSwitch (t : Tunnel) : Option VpnSwitch :=
  match t.watch.bind Watch.failover with
  | some (.saving switch) => some switch
  | _ => none

def Tunnel.savedSwitch (t : Tunnel) (event : Event) : Option VpnSwitch :=
  match event with
  | .tunnel .switchSaved => t.savingSwitch
  | _ => none

def Tunnel.readSwitch (t : Tunnel) (event : Event) : Option (Option VpnSwitch) :=
  match event with
  | .tunnel (.lastSwitchRead last) => if t.lastSwitch = .reading then some last else none
  | _ => none

def LastSwitch.toKnown : LastSwitch → Option (Option VpnSwitch)
  | .known last => some last
  | _ => none

def Action.savesSwitch? : Action → Option VpnSwitch
  | .saveVpnSwitch switch => some switch
  | _ => none

def Action.switches : Action → Bool
  | .switchVpnServer _ => true
  | _ => false

def switchActions (out : List Action) : List VpnSwitch × ℕ :=
  (out.filterMap Action.savesSwitch?, out.countP Action.switches)

theorem switchActions_append {out out' : List Action} (h : switchActions out' = ([], 0)) :
    switchActions (out ++ out') = switchActions out ∧
    switchActions (out' ++ out) = switchActions out := by
  obtain ⟨hs, hn⟩ := Prod.mk.inj h
  unfold switchActions
  rw [List.filterMap_append, List.filterMap_append, List.countP_append, List.countP_append, hs, hn]
  exact ⟨by rw [List.append_nil, Nat.add_zero], by rw [List.nil_append, Nat.zero_add]⟩

theorem switchActions_other {out : List Action} (h : ∀ a ∈ out, a.part ≠ .tunnel) :
    switchActions out = ([], 0) := by
  have hne : ∀ a ∈ out, a.savesSwitch? = none ∧ a.switches = false := by
    intro a ha
    have hpart := h a ha
    cases a <;> first | exact ⟨rfl, rfl⟩ | exact absurd rfl hpart
  unfold switchActions
  rw [List.filterMap_eq_nil_iff.mpr fun a ha => (hne a ha).1,
    List.countP_eq_zero.mpr fun a ha => by simp [(hne a ha).2]]

theorem switchActions_emits {part : Part} {out : List Action} (h : Emits part out) (hp : part ≠ .tunnel) :
    switchActions out = ([], 0) :=
  switchActions_other fun a ha => h a ha ▸ hp

section
variable (t : Tunnel) (now : ClockReading) (timers : Timers)

inductive Tunnel.Switches (event : Event) (t' : Tunnel) (out : List Action) : Prop
  | saved (switch : VpnSwitch) (hs : t.savedSwitch event = some switch) (hk : t'.lastSwitch =
      .known (some switch))
      (hn : t'.savingSwitch = none) (ho : switchActions out = ([], 1))
  | decided (server : VpnServer) (hs : t.savedSwitch event = none) (hk : t'.lastSwitch = t.lastSwitch)
      (ha : t.switchAllowance now.wall = .now)
      (hn : t'.savingSwitch = some { server := server, at' := now.wall })
      (ho : switchActions out = ([{ server := server, at' := now.wall }], 0))
  | other (hs : t.savedSwitch event = none)
      (hk : ∀ x, t'.lastSwitch.toKnown = some x →
        t.lastSwitch.toKnown = some x ∨ t.readSwitch event = some x)
      (hn : ∀ switch, t'.savingSwitch = some switch → t.savingSwitch = some switch)
      (ho : switchActions out = ([], 0))

theorem Tunnel.Switches.of_actions {event : Event} {t t' : Tunnel} {out out' : List Action}
    (h : t.Switches now event t' out) (he : switchActions out' = switchActions out) :
    t.Switches now event t' out' := by
  cases h with
  | saved switch hs hk hn ho => exact .saved switch hs hk hn (he.trans ho)
  | decided server hs hk ha hn ho => exact .decided server hs hk ha hn (he.trans ho)
  | other hs hk hn ho => exact .other hs hk hn (he.trans ho)

theorem checkFailed_switches {watch : Watch} (hw : t.watch = some watch) (reason : ExitIpFailure) :
    t.Switches now (.tunnel (.exitIpCheckFailed reason)) (t.checkFailed watch now reason timers).1
      (t.checkFailed watch now reason timers).2.2 := by
  unfold Tunnel.checkFailed
  dsimp only
  split
  · next server hserver =>
    split at hserver
    · next hallowed => exact .decided server rfl rfl hallowed.2 rfl rfl
    · cases hserver
  · refine .other rfl (fun x hx => .inl hx) (fun switch hs => ?_) ?_
    · simpa [Tunnel.savingSwitch, Watch.wait, hw] using hs
    · rfl

theorem switches_same {event : Event} (h : t.savedSwitch event = none) : t.Switches now event t [] :=
  .other h (fun _ hx => .inl hx) (fun _ hs => hs) rfl

theorem tunnel_handle_switches (event : TunnelEvent) :
    t.Switches now (.tunnel event) (t.handle now event timers).1 (t.handle now event timers).2.2 := by
  unfold Tunnel.handle
  split
  · next hw =>
    exact .other rfl (fun x hx => .inl hx) (by simp [Tunnel.savingSwitch])
      rfl
  · next last =>
    by_cases h : t.lastSwitch = .reading
    · simp only [if_pos h]
      refine .other rfl (fun x hx => .inr ?_) (fun _ hs => hs) rfl
      simp only [Tunnel.readSwitch, if_pos h]
      exact hx
    · simp only [if_neg h]
      exact switches_same t now rfl
  · by_cases h : t.lastSwitch = .reading
    · simp only [if_pos h]
      exact .other rfl nofun (fun _ hs => hs) rfl
    · simp only [if_neg h]
      exact switches_same t now rfl
  · next watch ip hw =>
    split
    · refine .other rfl (fun x hx => .inl hx) (fun switch hs => ?_)
        rfl
      simpa [Tunnel.savingSwitch, Watch.wait, hw] using hs
    · exact switches_same t now rfl
  · next watch reason hw =>
    split
    · exact checkFailed_switches t now timers hw reason
    · exact switches_same t now rfl
  · next watch hw =>
    -- the switch reported saved is the one the watch is saving
    have hsaving : t.savedSwitch (.tunnel .switchSaved) =
        match watch.failover with
        | some (.saving switch) => some switch
        | _ => none := by
      simp only [Tunnel.savedSwitch, Tunnel.savingSwitch, hw, Option.bind_some]
    split
    · next switch hf =>
      rw [hf] at hsaving
      exact .saved switch hsaving rfl rfl rfl
    · next hf =>
      apply switches_same
      rw [hsaving]
      split
      · next hs => exact absurd hs (hf _)
      · rfl
  · next watch hw =>
    split
    · exact .other rfl (fun x hx => .inl hx) (by simp [Tunnel.savingSwitch, Watch.checkNow])
        rfl
    · exact switches_same t now rfl
  · next watch hw =>
    split
    · exact .other rfl (fun x hx => .inl hx) (by simp [Tunnel.savingSwitch, Watch.wait])
        rfl
    · exact switches_same t now rfl
  · next watch hw =>
    split
    · exact .other rfl (fun x hx => .inl hx) (by simp [Tunnel.savingSwitch, Watch.wait])
        rfl
    · exact switches_same t now rfl
  · next hsaved _ _ _ =>
    apply switches_same
    unfold Tunnel.savedSwitch
    split
    · next he =>
      cases he
      unfold Tunnel.savingSwitch
      cases hw : t.watch with
      | none => rfl
      | some watch => exact (hsaved watch hw rfl).elim
    · rfl

theorem timerExpired_switches {event : Event} (h : t.savedSwitch event = none) (id : TimerId) :
    t.Switches now event (t.timerExpired now id).1 (t.timerExpired now id).2 := by
  unfold Tunnel.timerExpired
  split
  · next watch hw =>
    split
    · refine .other h (fun x hx => .inl hx) (fun switch hs => ?_)
        rfl
      simpa [Tunnel.savingSwitch, Watch.checkNow, hw] using hs
    · exact switches_same t now h
  · exact switches_same t now h

theorem suspect_switches {event : Event} (h : t.savedSwitch event = none) :
    t.Switches now event (t.suspect now).1 (t.suspect now).2 := by
  unfold Tunnel.suspect
  split
  · next watch hw =>
    split
    · split
      · refine .other h (fun x hx => .inl hx) (fun switch hs => ?_)
          rfl
        simpa [Tunnel.savingSwitch, Watch.checkNow, hw] using hs
      · exact switches_same t now h
    · exact switches_same t now h
  · exact switches_same t now h

end

section
variable (c : Core) (now : ClockReading) (event : Event)

theorem handleStartup_switches (e : StartupEvent) :
    c.tunnel.Switches now (.startup e) (c.handleStartup e).1.tunnel (c.handleStartup e).2 := by
  have hstarted := switchActions_emits (startup_emits c.state e) (by decide)
  unfold Core.handleStartup
  dsimp only
  by_cases h : (c.state.isOpeningStorage && (c.state.handleStartup e).1.isReadingMamPreference) = true
  · rw [if_pos h]
    have ho : switchActions ((c.state.handleStartup e).2 ++
        { c with state := (c.state.handleStartup e).1 }.startReading.2) = ([], 0) :=
      (switchActions_append hstarted).2.trans rfl
    split
    · exact .other rfl nofun (fun _ hs => hs) ho
    · exact .other rfl nofun (fun _ hs => hs) ho
  · rw [if_neg h]
    have ho : switchActions ((c.state.handleStartup e).2 ++ []) = ([], 0) :=
      (switchActions_append hstarted).2.trans rfl
    split
    · exact (switches_same c.tunnel now rfl).of_actions now ho
    · exact (switches_same c.tunnel now rfl).of_actions now ho

theorem dispatch_switches :
    c.tunnel.Switches now event (c.dispatch now event).1.tunnel (c.dispatch now event).2 := by
  have hsame (out : List Action) (hs : c.tunnel.savedSwitch event = none) (ho : switchActions out =
    ([], 0)) :
      c.tunnel.Switches now event c.tunnel out := (switches_same c.tunnel now hs).of_actions now ho
  cases event with
  | startup e => exact handleStartup_switches c now e
  | mamPause e => exact hsame _ rfl (switchActions_emits (mamPause_emits c.state e) (by decide))
  | settings e => exact hsame _ rfl (switchActions_emits (settings_handle_emits c.settings e) (by decide))
  | history e => exact hsame _ rfl rfl
  | timerExpired name id =>
    cases name with
    | tunnelCheck => exact timerExpired_switches c.tunnel now rfl id
    | portLease =>
      exact hsame _ rfl (switchActions_emits (portForwarding_timerExpired_emits c.portForwarding id)
        (by decide))
    | qbittorrentPoll =>
      exact hsame _ rfl (switchActions_emits (qbittorrent_timerExpired_emits c.qbittorrent id)
        (by decide))
    | _ => exact hsame _ rfl rfl
  | portForwarding e =>
    have hp := switchActions_emits (portForwarding_handle_emits c.portForwarding now e c.timers)
      (by decide)
    simp only [Core.dispatch, Core.handlePortForwarding]
    split
    · exact (suspect_switches c.tunnel now rfl).of_actions now (switchActions_append hp).2
    · exact hsame _ rfl ((switchActions_append hp).2.trans rfl)
  | qbittorrent e =>
    exact hsame _ rfl (switchActions_emits (qbittorrent_handle_emits c.qbittorrent now e c.timers)
      (by decide))
  | registry e =>
    exact hsame _ rfl (switchActions_emits (registry_handle_emits c.registry now.monotonic e) (by decide))
  | tunnel e =>
    simp only [Core.dispatch, Core.handleTunnel]
    refine (tunnel_handle_switches c.tunnel now c.timers e).of_actions now (switchActions_append ?_).1
    split
    · exact switchActions_emits (renew_emits c.portForwarding) (by decide)
    · rfl
  | notification e =>
    exact hsame _ rfl (switchActions_emits
      (notifications_handle_emits c.notifications now e c.timers) (by decide))
  | mam e =>
    refine hsame _ rfl (switchActions_other fun a ha hpart => ?_)
    have hparts := handleMam_parts c now e ha
    simp [Event.parts, hpart] at hparts

theorem handle_switches :
    c.tunnel.Switches now event (c.handle now event).1.tunnel (c.handle now event).2 := by
  rw [(handle_frame c now event).2.2, received_tunnel]
  have hd : c.tunnel.Switches now event _ _ := dispatch_switches (c.note event) now event
  refine hd.of_actions now ?_
  have hn {part : Part} {out out' : List Action} (h : Emits part out') (hp : part ≠ .tunnel) :
      switchActions (out ++ out') = switchActions out :=
        (switchActions_append (switchActions_emits h hp)).1
  rw [handle_out, ← List.append_assoc, ← List.append_assoc, ← List.append_assoc,
    hn (notify_emits now _ _ _) (by decide),
    hn (trimHistory_emits _) (by decide), hn (decideQbittorrent_emits now _) (by decide),
    hn (renewLease_emits _) (by decide), hn (decideMam_emits c now event) (by decide),
    hn (observe_emits now _) (by decide)]

theorem switchAllowance_now {t : Tunnel} {wall : SystemTime} (h : t.switchAllowance wall = .now) :
    ∃ x, t.lastSwitch.toKnown = some x ∧
      ∀ last, x = some last → last.at' + switchSpacing ≤ SystemTime.latest →
      last.at' + switchSpacing ≤ wall := by
  unfold Tunnel.switchAllowance at h
  split at h
  · cases h
  · split at h
    · next hx =>
      rw [hx]
      exact ⟨none, rfl, nofun⟩
    · next last hx =>
      rw [hx]
      refine ⟨some last, rfl, ?_⟩
      intro last' hlast hlate
      cases hlast
      simp only [SystemTime.checkedAdd, if_pos hlate, Option.getD_some] at h
      split at h
      · next hle => exact hle
      · cases h
    · cases h
    · cases h
    · cases h

end

/-- Switches of the VPN server, as actions kept an hour apart. -/
def spacedSwitches : Reactive.Spaced core where
  spacing := switchSpacing
  latest := SystemTime.latest
  time i := i.occurredAt.wall
  store := SystemTime.stored
  known c := c.tunnel.lastSwitch.toKnown.map fun last => last.map VpnSwitch.at'
  waiting c := c.tunnel.savingSwitch.map VpnSwitch.at'
  started e := (switchActions e.out).1.map VpnSwitch.at'
  saved e := (e.before.tunnel.savedSwitch e.input.event).map VpnSwitch.at'
  read e := (e.before.tunnel.readSwitch e.input.event).map fun last => last.map VpnSwitch.at'
  does e := (switchActions e.out).2
  spacing_nonneg := by decide
  store_mono := stored_mono
  store_late _ := stored_late (by decide)
  known_init := rfl
  waiting_init := rfl
  started_now c i d hd := by
    rw [entry_out] at hd
    cases handle_switches c i.occurredAt i.event with
    | saved switch hs hk hn ho =>
      rw [ho] at hd
      cases hd
    | decided server hs hk ha hn ho =>
      rw [ho] at hd
      exact List.mem_singleton.mp hd
    | other hs hk hn ho =>
      rw [ho] at hd
      cases hd
  saved_waiting c i d hd := by
    obtain ⟨switch, hs, rfl⟩ := Option.map_eq_some_iff.mp hd
    unfold Tunnel.savedSwitch at hs
    split at hs
    · rw [entry_before] at hs
      rw [hs]
      rfl
    · cases hs
  known_step c i x hx := by
    obtain ⟨y, hy, rfl⟩ := Option.map_eq_some_iff.mp hx
    rw [core_step] at hy
    rw [entry_before, entry_input]
    cases handle_switches c i.occurredAt i.event with
    | saved switch hs hk hn ho =>
      rw [hk] at hy
      cases hy
      rw [hs]
      exact .inr (.inr ⟨switch.at', rfl, rfl⟩)
    | decided server hs hk ha hn ho =>
      rw [hk] at hy
      rw [hs, hy]
      exact .inl ⟨rfl, rfl⟩
    | other hs hk hn ho =>
      rw [hs]
      obtain hk | hr := hk y hy
      · rw [hk]
        exact .inl ⟨rfl, rfl⟩
      · rw [hr]
        exact .inr (.inl ⟨rfl, rfl⟩)
  waiting_step c i d hd := by
    obtain ⟨switch, hw, rfl⟩ := Option.map_eq_some_iff.mp hd
    rw [core_step] at hw
    rw [entry_before, entry_input, core_step]
    cases handle_switches c i.occurredAt i.event with
    | saved switch' hs hk hn ho =>
      rw [hn] at hw
      cases hw
    | decided server hs hk ha hn ho =>
      rw [hn] at hw
      cases hw
      obtain ⟨x, hx, hspaced⟩ := switchAllowance_now ha
      rw [hk, hx]
      refine .inr ⟨rfl, x.map VpnSwitch.at', rfl, fun last hlast hlate => ?_⟩
      obtain ⟨last', rfl, rfl⟩ := Option.map_eq_some_iff.mp hlast
      exact hspaced last' rfl hlate
    | other hs hk hn ho =>
      rw [hs, hn switch hw]
      exact .inl ⟨rfl, rfl⟩
  does_once c i := by
    rw [entry_out]
    cases handle_switches c i.occurredAt i.event with
    | saved switch hs hk hn ho => rw [ho]
    | decided server hs hk ha hn ho =>
      rw [ho]
      exact Nat.zero_le _
    | other hs hk hn ho =>
      rw [ho]
      exact Nat.zero_le _
  does_saved c i h := by
    rw [entry_out] at h
    cases handle_switches c i.occurredAt i.event with
    | saved switch hs hk hn ho =>
      rw [entry_before, entry_input, hs]
      exact ⟨switch.at', rfl⟩
    | decided server hs hk ha hn ho =>
      rw [ho] at h
      exact absurd rfl h
    | other hs hk hn ho =>
      rw [ho] at h
      exact absurd rfl h

def switchTimes (history : List Handled) : List SystemTime :=
  history.flatMap fun e => List.replicate (switchActions e.out).2 e.wall

/-- Over every sequence of runs that restore the last switch as storage saved it,
switches are made an hour apart when none is made sooner after its decision than
an earlier one was. -/
theorem switches_spaced {runs : List (List TimedEvent)}
    (hread : Reactive.Along spacedSwitches.Restores (core.lives runs))
    (hend : ∀ e ∈ core.lives runs, Handled.wall e + switchSpacing ≤ SystemTime.latest)
    (hprompt : Reactive.Along spacedSwitches.Prompt (core.lives runs)) :
    Apart switchSpacing (switchTimes (core.lives runs)) :=
  Reactive.done_apart spacedSwitches runs hread hend hprompt

def checkFailedAt (seconds : Nat) : TimedEvent :=
  .after seconds (.tunnel (.exitIpCheckFailed .unreachable))

def checkDueAt (seconds : Nat) (id : TimerId) : TimedEvent :=
  .after seconds (.timerExpired .tunnelCheck id)

def failoverEvents (last : Option VpnSwitch) : List TimedEvent :=
  -- the tunnel fails three checks, and Windlass decides to switch to the other server
  [.after 0 (.startup (.start .resume)), .after 0 (.startup .storageOpened),
    .after 0 (.tunnel (.lastSwitchRead last)),
    .after 0 (.tunnel (.enable [serverOne, serverTwo] (some serverOne))), checkFailedAt 0,
    checkDueAt 60 0, checkFailedAt 60,
    checkDueAt 120 1, checkFailedAt 120]

def switchedTwice : List (List TimedEvent) :=
  [failoverEvents none ++ [.after 121 (.tunnel .switchSaved)],
    (failoverEvents (some { server := serverTwo, at' := 1700000120000000000 }) ++
      [TimedEvent.after 121 (.tunnel .switchSaved)]).map (TimedEvent.later 3600)]

theorem switched_an_hour_later : switchTimes (core.lives switchedTwice) =
      [1700000121000000000, 1700003721000000000] ∧
    Apart switchSpacing (switchTimes (core.lives switchedTwice)) := by
  have hread : Reactive.Along spacedSwitches.Restores (core.lives switchedTwice) := by decide +kernel
  have hend : ∀ e ∈ core.lives switchedTwice, Handled.wall e + switchSpacing ≤ SystemTime.latest :=
    by decide +kernel
  have hprompt : Reactive.Along spacedSwitches.Prompt (core.lives switchedTwice) := by decide +kernel
  exact ⟨by decide +kernel, switches_spaced hread hend hprompt⟩

def hurriedSwitch : List (List TimedEvent) :=
  [failoverEvents none ++ [.after 130 (.tunnel .switchSaved), .after 131 (.tunnel .switched),
    checkFailedAt 131,
    checkDueAt 191 2, checkFailedAt 191, checkDueAt 251 3, checkFailedAt 251, checkDueAt 3720 4,
    checkFailedAt 3720,
    .after 3720 (.tunnel .switchSaved)]]

theorem switched_too_soon :
    (core.lives hurriedSwitch).Pairwise (fun e f => Handled.wall e ≤ Handled.wall f) ∧
    Reactive.Along spacedSwitches.Restores (core.lives hurriedSwitch) ∧
    ¬ Apart switchSpacing (switchTimes (core.lives hurriedSwitch)) :=
  ⟨by decide +kernel, by decide +kernel, by decide +kernel⟩

end Windlass
