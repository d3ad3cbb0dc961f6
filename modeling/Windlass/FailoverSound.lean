import Windlass.GuardSound
import Windlass.RotationSound

/-!
# The failover protocol

A log of the events and actions alone says which checks ran, how they ended, how many
failed in a row and how far a switch has come. The tunnel's own state agrees with the
log after every step, so each action can be read against what the log says of the
steps before it.
-/

namespace Windlass

open Reactive

/-! ## What a step does to the tunnel -/

def actionsOf (part : Part) (out : List Action) : List Action := out.filter fun a => a.part = part

section
variable {part part' : Part} {out out' : List Action}

@[simp] theorem actionsOf_nil : actionsOf part [] = [] := rfl

@[simp] theorem actionsOf_append :
    actionsOf part (out ++ out') = actionsOf part out ++ actionsOf part out' :=
  List.filter_append out out'

theorem actionsOf_cons (a : Action) :
    actionsOf part (a :: out) =
      if a.part = part then a :: actionsOf part out else actionsOf part out := by
  simp [actionsOf, List.filter_cons]

theorem mem_actionsOf {a : Action} : a ∈ actionsOf part out ↔ a ∈ out ∧ a.part = part := by
  simp [actionsOf]

theorem Emits.actionsOf_self (h : Emits part out) : actionsOf part out = out :=
  List.filter_eq_self.mpr fun a ha => decide_eq_true (h a ha)

theorem Emits.actionsOf_other (h : Emits part' out) (hp : part' ≠ part) : actionsOf part out = [] :=
  List.filter_eq_nil_iff.mpr fun a ha hpart => hp ((h a ha).symm.trans (of_decide_eq_true hpart))

end

section
variable (c : Core) (now : ClockReading)

theorem actionsOf_dispatch {event : Event} {part : Part} (hp : part ∉ event.parts) :
    actionsOf part (c.dispatch now event).2 = [] :=
  List.filter_eq_nil_iff.mpr fun _ ha hpart => hp (of_decide_eq_true hpart ▸ dispatch_parts c now ha)

def Core.tunnelAfter : Event → Tunnel × List Action
  | .tunnel event => ((c.tunnel.handle now event c.timers).1, (c.tunnel.handle now event c.timers).2.2)
  | .timerExpired .tunnelCheck id => c.tunnel.timerExpired now id
  | .portForwarding (.mappingFailed _) => c.tunnel.suspect now
  | .startup event => if c.opensStorage (.startup event) then c.tunnel.startReading else (c.tunnel, [])
  | _ => (c.tunnel, [])

theorem handleStartup_tunnel (event : StartupEvent) :
    ((c.handleStartup event).1.tunnel, actionsOf .tunnel (c.handleStartup event).2) =
      c.tunnelAfter now (.startup event) := by
  have hstarted := @Emits.actionsOf_other .tunnel _ _ (startup_emits c.state event) (by decide)
  unfold Core.handleStartup Core.tunnelAfter Core.opensStorage
  dsimp only
  rw [actionsOf_append, hstarted, List.nil_append]
  by_cases h : (c.state.isOpeningStorage && (c.state.handleStartup event).1.isReadingMamPreference) = true
  · rw [if_pos h, if_pos h]
    split <;> rfl
  · rw [if_neg h, if_neg h]
    split <;> rfl

theorem dispatch_tunnel (event : Event) :
    ((c.dispatch now event).1.tunnel,
      actionsOf .tunnel (c.dispatch now event).2) = c.tunnelAfter now event := by
  cases event with
  | startup e => exact handleStartup_tunnel c now e
  | tunnel e =>
    have hrenew : actionsOf .tunnel (if e = .switched ∧
      (c.tunnel.handle now e c.timers).1.current ≠ c.tunnel.current then
        c.portForwarding.renew.2 else []) = [] := by
      split
      · exact (renew_emits c.portForwarding).actionsOf_other (by decide)
      · rfl
    simp only [Core.dispatch, Core.handleTunnel, actionsOf_append, hrenew,
      (tunnel_handle_emits c.tunnel now e c.timers).actionsOf_self, List.append_nil]
    rfl
  | timerExpired name id =>
    cases name with
    | tunnelCheck => exact congrArg _ (tunnel_timerExpired_emits c.tunnel now id).actionsOf_self
    | _ => exact congrArg _ (actionsOf_dispatch c now (by simp [Event.parts, TimerName.part]))
  | portForwarding e =>
    have hhandle :=
      @Emits.actionsOf_other .tunnel _ _
      (portForwarding_handle_emits c.portForwarding now e c.timers) (by decide)
    cases e with
    | mappingFailed reason =>
      simp only [Core.dispatch, Core.handlePortForwarding, actionsOf_append, hhandle, List.nil_append]
      exact congrArg _ (tunnel_suspect_emits c.tunnel now).actionsOf_self
    | _ =>
      simp only [Core.dispatch, Core.handlePortForwarding, actionsOf_append, hhandle, List.nil_append]
      rfl
  | _ => exact congrArg _ (actionsOf_dispatch c now (by simp [Event.parts]))

theorem handle_tunnel (event : Event) :
    ((c.handle now event).1.tunnel,
      actionsOf .tunnel (c.handle now event).2) = c.tunnelAfter now event := by
  rw [(handle_frame c now event).2.2, received_tunnel, handle_out]
  have hn {part : Part} {out : List Action} (h : Emits part out) (hp : part ≠ .tunnel) :
      actionsOf .tunnel out = [] :=
    h.actionsOf_other hp
  simp only [actionsOf_append, hn (observe_emits now _) (by decide),
    hn (decideMam_emits c now event) (by decide),
    hn (renewLease_emits _) (by decide), hn (decideQbittorrent_emits now _) (by decide),
    hn (trimHistory_emits _) (by decide), hn (notify_emits now _ _ _) (by decide), List.append_nil]
  exact dispatch_tunnel (c.note event) now event

end

/-! ## The log -/

inductive SwitchPhase
  | saving (server : VpnServer)
  | switching (server : VpnServer)
deriving DecidableEq

structure FinishedCheck where
  fresh : Bool
  succeeded : Bool
deriving DecidableEq

/-- What events and actions say of the tunnel; `checking` is an unanswered check, with
whether it was started after the last effective switch. -/
structure FailoverLog where
  enabled : Bool
  servers : List VpnServer
  current : Option VpnServer
  checking : Option Bool
  failed : Nat
  latest : Option FinishedCheck
  phase : Option SwitchPhase
deriving DecidableEq

def FailoverLog.empty : FailoverLog :=
  { enabled := false
    servers := []
    current := none
    checking := none
    failed := 0
    latest := none
    phase := none }

section
variable (l : FailoverLog)

def FailoverLog.finish (succeeded : Bool) : FailoverLog :=
  match l.checking with
  | some fresh =>
    { l with
      checking := none
      failed := if succeeded then 0 else l.failed + 1
      latest := some { fresh := fresh, succeeded := succeeded } }
  | none => l

def FailoverLog.switched : FailoverLog :=
  match l.phase with
  | some (.switching server) =>
    { l with
      current := some server
      checking := l.checking.map fun _ => false
      failed := 0
      latest := l.latest.map fun check => { check with fresh := false }
      phase := none }
  | _ => l

def FailoverLog.hear : Event → FailoverLog
  | .tunnel (.enable servers current) =>
    if l.enabled then l else { l with enabled := true, servers := servers, current := current }
  | .tunnel (.exitIpObserved _) => l.finish true
  | .tunnel (.exitIpCheckFailed _) => l.finish false
  | .tunnel .switched => l.switched
  | .tunnel .switchSaveFailed | .tunnel .switchFailed => { l with phase := none }
  | _ => l

def FailoverLog.tell : Action → FailoverLog
  | .checkExitIp => { l with checking := some true }
  | .saveVpnSwitch switch => { l with phase := some (.saving switch.server) }
  | .switchVpnServer server => { l with phase := some (.switching server) }
  | _ => l

def FailoverLog.next (e : Reactive.Entry Core TimedEvent Action) : FailoverLog :=
  e.out.foldl FailoverLog.tell (l.hear e.input.event)

end

def failoverLog (run : List (Reactive.Entry Core TimedEvent Action)) : FailoverLog :=
  run.foldl FailoverLog.next .empty

theorem failoverLog_snoc (run : List (Reactive.Entry Core TimedEvent Action))
    (e : Reactive.Entry Core TimedEvent Action) :
    failoverLog (run ++ [e]) = (failoverLog run).next e :=
  List.foldl_append

theorem tell_actionsOf (out : List Action) (l : FailoverLog) :
    out.foldl FailoverLog.tell l = (actionsOf .tunnel out).foldl FailoverLog.tell l := by
  induction out generalizing l with
  | nil => rfl
  | cons a out ih =>
    by_cases ha : a.part = .tunnel
    · rw [actionsOf_cons, if_pos ha]
      exact ih (l.tell a)
    · have hl : l.tell a = l := by
        cases a with
        | checkExitIp | saveVpnSwitch switch | switchVpnServer server => exact absurd rfl ha
        | _ => rfl
      rw [actionsOf_cons, if_neg ha, List.foldl_cons, hl]
      exact ih l

/-! ## The tunnel and its log -/

def Failover.phase : Failover → SwitchPhase
  | .saving switch => .saving switch.server
  | .switching server => .switching server

structure Watch.Agrees (w : Watch) (l : FailoverLog) : Prop where
  servers : l.servers = w.servers
  current : l.current = w.current
  checking : l.checking = if w.check = .outstanding then some true else none
  failed : w.failures = min l.failed u32Max
  phase : l.phase = w.failover.map Failover.phase
  switching : w.failover.isSome ↔ w.check = .switching
  latest : w.protection.isAvailable = true → l.latest = some { fresh := true, succeeded := true }

def Tunnel.Agrees (t : Tunnel) (l : FailoverLog) : Prop :=
  match t.watch with
  | none => l = .empty
  | some w => l.enabled = true ∧ w.Agrees l

section
variable {w : Watch} {l : FailoverLog} (now : ClockReading) (timers : Timers)

theorem Watch.Agrees.outstanding (h : w.Agrees l) (ho : w.check = .outstanding) :
    l.checking = some true ∧ w.failover = none := by
  refine ⟨h.checking.trans (if_pos ho), ?_⟩
  rw [← Option.not_isSome_iff_eq_none, h.switching, ho]
  nofun

theorem Watch.Agrees.idle (h : w.Agrees l) (ho : w.check ≠ .outstanding) : l.checking = none :=
  h.checking.trans (if_neg ho)

theorem Watch.Agrees.wait (h : w.Agrees l) (hc : l.checking = none) (hf : w.failover = none)
    (after : Duration) :
    (w.wait now timers after).1.Agrees l where
  servers := h.servers
  current := h.current
  checking := hc
  failed := h.failed
  phase := h.phase
  switching := by simp [Watch.wait, hf]
  latest := h.latest

theorem Watch.Agrees.checkNow (h : w.Agrees l) (hf : w.failover = none) :
    (w.checkNow now).1.Agrees { l with checking := some true } where
  servers := h.servers
  current := h.current
  checking := rfl
  failed := h.failed
  phase := h.phase
  switching := by simp [Watch.checkNow, hf]
  latest := h.latest

theorem Watch.Agrees.waiting (h : w.Agrees l) {id : TimerId} (hw : w.check = .waiting id) :
    w.failover = none := by
  rw [← Option.not_isSome_iff_eq_none, h.switching, hw]
  nofun

section
variable {t : Tunnel}

theorem Tunnel.Agrees.watch (h : t.Agrees l) (hw : t.watch = some w) : l.enabled = true ∧ w.Agrees l := by
  unfold Tunnel.Agrees at h
  rw [hw] at h
  exact h

theorem Tunnel.Agrees.unwatched (h : t.Agrees l) (hw : t.watch = none) : l = .empty := by
  unfold Tunnel.Agrees at h
  rw [hw] at h
  exact h

theorem min_succ (n bound : Nat) : min (min n bound + 1) bound = min (n + 1) bound := by
  omega

theorem checkFailed_agrees (h : t.Agrees l) (hw : t.watch = some w) (ho : w.check = .outstanding)
    (reason : ExitIpFailure) :
    (t.checkFailed w now reason timers).1.Agrees
      ((t.checkFailed w now reason timers).2.2.foldl FailoverLog.tell (l.finish false)) := by
  obtain ⟨henabled, hwatch⟩ := h.watch hw
  obtain ⟨hchecking, hnone⟩ := hwatch.outstanding ho
  have hfinish : l.finish false =
      { l with checking := none, failed := l.failed + 1,
               latest := some { fresh := true, succeeded := false } } := by
    simp [FailoverLog.finish, hchecking]
  have hfailed : FailureCount.afterAnother w.failures = min (l.failed + 1) u32Max := by
    rw [hwatch.failed]
    exact min_succ l.failed u32Max
  -- whatever is decided next, the failure counts once
  have hafter : ∀ (check : Check) (failover : Option Failover), check ≠ .outstanding →
      (failover.isSome ↔ check = .switching) → ∀ protection : Protection, protection.isAvailable = false →
      ({ w with
         protection := protection
         failures := FailureCount.afterAnother w.failures
         lastFailure := some reason
         check := check
         failover := failover } : Watch).Agrees
        { l.finish false with phase := failover.map Failover.phase } := by
    intro check failover hc hs protection hp
    rw [hfinish]
    refine ⟨hwatch.servers, hwatch.current, (if_neg hc).symm, hfailed, rfl, hs, fun hav => ?_⟩
    rw [hp] at hav
    cases hav
  unfold Tunnel.checkFailed
  dsimp only
  split
  · next server hserver =>
    refine ⟨?_, hafter .switching (some (.saving { server := server, at' := now.wall }))
      (fun h => by cases h) (by simp) _ (by cases w.protection <;> rfl)⟩
    rw [hfinish]
    exact henabled
  · have hphase :
        ({ l.finish false with phase := (none : Option Failover).map Failover.phase } : FailoverLog) =
          l.finish false := by
      rw [hfinish]
      simp [hwatch.phase, hnone]
    have hwaits :=
      hafter (.waiting (timers.schedule now.monotonic checkRetryAfter).2.1) none (fun h => by cases h)
      (by simp)
    rw [hphase] at hwaits
    refine ⟨?_, ?_⟩
    · change (l.finish false).enabled = true
      rw [hfinish]
      exact henabled
    · rw [← hnone] at hwaits
      exact hwaits _ (by cases w.protection <;> rfl)

theorem unwatched_agrees (h : t.Agrees l) (hw : t.watch = none) (event : TunnelEvent) :
    (t.handle now event timers).1.Agrees
      ((t.handle now event timers).2.2.foldl FailoverLog.tell (l.hear (.tunnel event))) := by
  obtain rfl := h.unwatched hw
  have hread (lastSwitch : LastSwitch) :
      (if t.lastSwitch = .reading then { t with lastSwitch := lastSwitch } else t).Agrees .empty := by
    split
    · unfold Tunnel.Agrees
      rw [hw]
    · exact h
  cases event with
  | enable servers current =>
    simp only [Tunnel.handle, hw]
    exact ⟨rfl, rfl, rfl, rfl, rfl, rfl, by simp, fun h => by cases h⟩
  | lastSwitchRead last =>
    simp only [Tunnel.handle]
    exact hread (.known last)
  | lastSwitchReadFailed =>
    simp only [Tunnel.handle]
    exact hread .readFailed
  | _ =>
    simp only [Tunnel.handle, hw]
    exact h

theorem lastSwitch_agrees (h : t.Agrees l) (hw : t.watch = some w) (lastSwitch : LastSwitch) :
    (if t.lastSwitch = .reading then { t with lastSwitch := lastSwitch } else t).Agrees l := by
  split
  · unfold Tunnel.Agrees
    rw [hw]
    exact h.watch hw
  · exact h

/-- An answer counts only for a check that is outstanding; the log drops the others too. -/
theorem finish_idle (h : w.Agrees l) (ho : w.check ≠ .outstanding) (succeeded : Bool) :
    l.finish succeeded = l := by
  simp [FailoverLog.finish, h.idle ho]

theorem observed_agrees (h : t.Agrees l) (hw : t.watch = some w) (ip : IpAddr) :
    (t.handle now (.exitIpObserved ip) timers).1.Agrees
      ((t.handle now (.exitIpObserved ip) timers).2.2.foldl FailoverLog.tell (l.finish true)) := by
  obtain ⟨henabled, hwatch⟩ := h.watch hw
  simp only [Tunnel.handle, hw]
  by_cases ho : w.check = .outstanding
  · rw [if_pos ho]
    obtain ⟨hchecking, hnone⟩ := hwatch.outstanding ho
    have hfinish : l.finish true =
        { l with checking := none, failed := 0,
                 latest := some { fresh := true, succeeded := true } } := by
      simp [FailoverLog.finish, hchecking]
    rw [hfinish]
    refine ⟨henabled, hwatch.servers, hwatch.current, rfl, rfl, hwatch.phase, ?_, fun _ => rfl⟩
    simp [Watch.wait, hnone]
  · rw [if_neg ho, finish_idle hwatch ho]
    exact h

/-- The log takes a switch only where the watch has one under way. -/
theorem switched_agrees (h : t.Agrees l) (hw : t.watch = some w) :
    (t.handle now .switched timers).1.Agrees
      ((t.handle now .switched timers).2.2.foldl FailoverLog.tell l.switched) := by
  obtain ⟨henabled, hwatch⟩ := h.watch hw
  simp only [Tunnel.handle, hw]
  split
  · next server hf =>
    have hphase : l.phase = some (.switching server) := by
      rw [hwatch.phase, hf]
      rfl
    refine ⟨?_, ?_, ?_, ?_, ?_, ?_, ?_, fun h => by cases h⟩
    · simp [FailoverLog.switched, hphase, FailoverLog.tell, Watch.checkNow, henabled]
    · simpa [FailoverLog.switched, hphase, FailoverLog.tell, Watch.checkNow] using hwatch.servers
    · simp [FailoverLog.switched, hphase, FailoverLog.tell, Watch.checkNow]
    · simp [FailoverLog.switched, hphase, FailoverLog.tell, Watch.checkNow]
    · simp [FailoverLog.switched, hphase, FailoverLog.tell, Watch.checkNow, FailureCount.none]
    · simp [FailoverLog.switched, hphase, FailoverLog.tell, Watch.checkNow]
    · simp [Watch.checkNow]
  · next hf =>
    have hl : l.switched = l := by
      unfold FailoverLog.switched
      rw [hwatch.phase]
      cases hfo : w.failover with
      | none => rfl
      | some failover =>
        cases failover with
        | saving switch => rfl
        | switching server => exact absurd hfo (hf server)
    rw [hl]
    exact h

theorem failed_agrees (h : t.Agrees l) (hw : t.watch = some w) {event : TunnelEvent}
    (he : event = .switchSaveFailed ∨ event = .switchFailed) :
    (t.handle now event timers).1.Agrees
      ((t.handle now event timers).2.2.foldl FailoverLog.tell { l with phase := none }) := by
  obtain ⟨henabled, hwatch⟩ := h.watch hw
  have hlost : t.handle now event timers = t.handle now .switchFailed timers := by
    obtain rfl | rfl := he
    · simp only [Tunnel.handle, hw]
    · rfl
  rw [hlost]
  simp only [Tunnel.handle, hw]
  by_cases hf : w.failover.isSome = true
  · have hidle : l.checking = none := hwatch.idle (by simp [hwatch.switching.mp hf])
    rw [if_pos hf]
    refine ⟨henabled, hwatch.servers, hwatch.current, hidle, hwatch.failed, rfl, ?_, hwatch.latest⟩
    simp [Watch.wait]
  · have hphase : l.phase = none := by
      rw [hwatch.phase, Option.not_isSome_iff_eq_none.mp hf]
      rfl
    have hl : ({ l with phase := none } : FailoverLog) = l := by
      rw [← hphase]
    rw [if_neg hf, hl]
    exact h

theorem handle_agrees (h : t.Agrees l) (event : TunnelEvent) :
    (t.handle now event timers).1.Agrees
      ((t.handle now event timers).2.2.foldl FailoverLog.tell (l.hear (.tunnel event))) := by
  cases hw : t.watch with
  | none => exact unwatched_agrees now timers h hw event
  | some w =>
    obtain ⟨henabled, hwatch⟩ := h.watch hw
    cases event with
    | enable servers current =>
      have hl : l.hear (.tunnel (.enable servers current)) = l := if_pos henabled
      simp only [Tunnel.handle, hw, hl]
      exact h
    | lastSwitchRead last =>
      simp only [Tunnel.handle]
      exact lastSwitch_agrees h hw (.known last)
    | lastSwitchReadFailed =>
      simp only [Tunnel.handle]
      exact lastSwitch_agrees h hw .readFailed
    | exitIpObserved ip => exact observed_agrees now timers h hw ip
    | exitIpCheckFailed reason =>
      simp only [Tunnel.handle, hw]
      change Tunnel.Agrees _ (List.foldl FailoverLog.tell (l.finish false) _)
      by_cases ho : w.check = .outstanding
      · rw [if_pos ho]
        exact checkFailed_agrees now timers h hw ho reason
      · rw [if_neg ho, finish_idle hwatch ho]
        exact h
    | switchSaved =>
      simp only [Tunnel.handle, hw]
      split
      · next switch hf =>
        have hswitching : w.check = .switching := hwatch.switching.mp (by rw [hf]; rfl)
        refine ⟨henabled, hwatch.servers, hwatch.current, hwatch.checking, hwatch.failed, rfl, ?_,
          hwatch.latest⟩
        simp [hswitching]
      · exact h
    | switched => exact switched_agrees now timers h hw
    | switchSaveFailed => exact failed_agrees now timers h hw (.inl rfl)
    | switchFailed => exact failed_agrees now timers h hw (.inr rfl)

theorem timerExpired_agrees (h : t.Agrees l) (id : TimerId) :
    (t.timerExpired now id).1.Agrees ((t.timerExpired now id).2.foldl FailoverLog.tell l) := by
  unfold Tunnel.timerExpired
  split
  · next w hw =>
    obtain ⟨henabled, hwatch⟩ := h.watch hw
    split
    · next hc => exact ⟨henabled, hwatch.checkNow now (hwatch.waiting hc)⟩
    · exact h
  · exact h

theorem suspect_agrees (h : t.Agrees l) :
    (t.suspect now).1.Agrees ((t.suspect now).2.foldl FailoverLog.tell l) := by
  unfold Tunnel.suspect
  split
  · next w hw =>
    obtain ⟨henabled, hwatch⟩ := h.watch hw
    split
    · next id hc =>
      split
      · exact ⟨henabled, hwatch.checkNow now (hwatch.waiting hc)⟩
      · exact h
    · exact h
  · exact h

end

end

section
variable (c : Core) (now : ClockReading) (event : Event)

theorem tunnelAfter_agrees {l : FailoverLog} (h : c.tunnel.Agrees l) :
    (c.tunnelAfter now event).1.Agrees
    ((c.tunnelAfter now event).2.foldl FailoverLog.tell (l.hear event)) := by
  cases event with
  | tunnel e => exact handle_agrees now c.timers h e
  | timerExpired name id =>
    cases name with
    | tunnelCheck => exact timerExpired_agrees now h id
    | _ => exact h
  | portForwarding e =>
    cases e with
    | mappingFailed reason => exact suspect_agrees now h
    | _ => exact h
  | startup e =>
    change (if c.opensStorage (.startup e) then c.tunnel.startReading else (c.tunnel, [])).1.Agrees
      (List.foldl FailoverLog.tell l
        (if c.opensStorage (.startup e) then c.tunnel.startReading else (c.tunnel, [])).2)
    split
    · exact h
    · exact h
  | _ => exact h

theorem step_agrees {l : FailoverLog} (h : c.tunnel.Agrees l) (i : TimedEvent) :
    (core.step c i).1.tunnel.Agrees (l.next (core.entry c i)) := by
  have htunnel : (c.handle i.occurredAt i.event).1.tunnel = (c.tunnelAfter i.occurredAt i.event).1 :=
    congrArg Prod.fst (handle_tunnel c i.occurredAt i.event)
  have hout : actionsOf .tunnel (c.handle i.occurredAt i.event).2 =
      (c.tunnelAfter i.occurredAt i.event).2 :=
    congrArg Prod.snd (handle_tunnel c i.occurredAt i.event)
  have hnext : l.next (core.entry c i) =
      (c.tunnelAfter i.occurredAt i.event).2.foldl FailoverLog.tell (l.hear i.event) := by
    rw [← hout]
    exact tell_actionsOf _ _
  rw [hnext, core_step, htunnel]
  exact tunnelAfter_agrees c i.occurredAt i.event h

theorem failoverLog_agrees (is : List TimedEvent) :
    (core.last is).tunnel.Agrees (failoverLog (core.run is)) := by
  refine run_invariant core (I := fun tr c => c.tunnel.Agrees (failoverLog tr)) (H := fun _ => True)
    (fun _ _ h => h) rfl (fun tr c i h _ => ?_) is trivial
  rw [failoverLog_snoc]
  exact step_agrees c h i

end

/-! ## What the protocol asks for -/

section
variable {t : Tunnel} {now : ClockReading} {timers : Timers} {event : TunnelEvent}

theorem checkFailed_saves {w : Watch} {reason : ExitIpFailure} {switch : VpnSwitch}
    (h : .saveVpnSwitch switch ∈ (t.checkFailed w now reason timers).2.2) :
    failuresBeforeSwitch ≤ w.failures.afterAnother ∧ t.switchAllowance now.wall = .now ∧
      switch.server ∈ w.servers ∧ some switch.server ≠ w.current := by
  unfold Tunnel.checkFailed at h
  dsimp only at h
  split at h
  · next server hserver =>
    split at hserver
    · next hallowed =>
      obtain ⟨hmem, hne⟩ := nextServer_other hserver
      obtain rfl : switch = _ := Action.saveVpnSwitch.inj (List.mem_singleton.mp h)
      exact ⟨hallowed.1, hallowed.2, hmem, hne⟩
    · cases hserver
  · simp [Watch.wait] at h

theorem checkFailed_asks {w : Watch} {reason : ExitIpFailure} :
    .checkExitIp ∉ (t.checkFailed w now reason timers).2.2 ∧
      ∀ server, .switchVpnServer server ∉ (t.checkFailed w now reason timers).2.2 := by
  unfold Tunnel.checkFailed
  dsimp only
  split
  · simp [Watch.failOver]
  · simp [Watch.wait]

theorem handle_saves {switch : VpnSwitch} (h : .saveVpnSwitch switch ∈ (t.handle now event timers).2.2) :
    ∃ w reason, t.watch = some w ∧ event = .exitIpCheckFailed reason ∧ w.check = .outstanding ∧
      failuresBeforeSwitch ≤ w.failures.afterAnother ∧ t.switchAllowance now.wall = .now ∧
      switch.server ∈ w.servers ∧ some switch.server ≠ w.current := by
  unfold Tunnel.handle at h
  split at h
  · simp at h
  · simp at h
  · simp at h
  · split at h <;> simp [Watch.wait] at h
  · next w reason hw =>
    split at h
    · next ho => exact ⟨w, reason, hw, rfl, ho, checkFailed_saves h⟩
    · simp at h
  · split at h <;> simp at h
  · split at h <;> simp [Watch.checkNow] at h
  · split at h <;> simp [Watch.wait] at h
  · split at h <;> simp [Watch.wait] at h
  · simp at h

theorem handle_makes {server : VpnServer}
    (h : .switchVpnServer server ∈ (t.handle now event timers).2.2) :
    ∃ w switch, t.watch = some w ∧ event = .switchSaved ∧ w.failover = some (.saving switch) ∧
    switch.server = server := by
  unfold Tunnel.handle at h
  split at h
  · simp at h
  · simp at h
  · simp at h
  · split at h <;> simp [Watch.wait] at h
  · split at h
    · exact absurd h (checkFailed_asks.2 server)
    · simp at h
  · next w hw =>
    split at h
    · next switch hf =>
      obtain rfl : server = _ := Action.switchVpnServer.inj (List.mem_singleton.mp h)
      exact ⟨w, switch, hw, rfl, hf, rfl⟩
    · simp at h
  · split at h <;> simp [Watch.checkNow] at h
  · split at h <;> simp [Watch.wait] at h
  · split at h <;> simp [Watch.wait] at h
  · simp at h

def Tunnel.counted (t : Tunnel) : Option (FailureCount × Protection) :=
  t.watch.map fun w => (w.failures, w.protection)

/-- While a switch is under way no check starts or counts, until it takes effect. -/
theorem handle_rests {w : Watch} (hw : t.watch = some w) (hc : w.check ≠ .outstanding) :
    (event = .switched ∧ ∃ server, w.failover = some (.switching server)) ∨
      .checkExitIp ∉ (t.handle now event timers).2.2 ∧
      (t.handle now event timers).1.counted = t.counted := by
  cases event with
  | enable servers current =>
    simp only [Tunnel.handle, hw]
    exact .inr ⟨List.not_mem_nil, trivial⟩
  | lastSwitchRead last =>
    simp only [Tunnel.handle]
    refine .inr ⟨List.not_mem_nil, ?_⟩
    split <;> rfl
  | lastSwitchReadFailed =>
    simp only [Tunnel.handle]
    refine .inr ⟨List.not_mem_nil, ?_⟩
    split <;> rfl
  | exitIpObserved ip =>
    simp only [Tunnel.handle, hw, if_neg hc]
    exact .inr ⟨List.not_mem_nil, trivial⟩
  | exitIpCheckFailed reason =>
    simp only [Tunnel.handle, hw, if_neg hc]
    exact .inr ⟨List.not_mem_nil, trivial⟩
  | switchSaved =>
    simp only [Tunnel.handle, hw]
    split
    · exact .inr ⟨by simp, by simp [Tunnel.counted, hw]⟩
    · exact .inr ⟨List.not_mem_nil, rfl⟩
  | switched =>
    simp only [Tunnel.handle, hw]
    split
    · next server hf => exact .inl ⟨trivial, server, hf⟩
    · exact .inr ⟨List.not_mem_nil, rfl⟩
  | switchSaveFailed | switchFailed =>
    simp only [Tunnel.handle, hw]
    split
    · exact .inr ⟨by simp [Watch.wait], by simp [Tunnel.counted, hw, Watch.wait]⟩
    · exact .inr ⟨List.not_mem_nil, rfl⟩

end

/-! ## Every run -/

def FailoverLog.Switches (l : FailoverLog) (event : Event) : Prop :=
  event = .tunnel .switched ∧ ∃ server, l.phase = some (.switching server)

/-- What the protocol asks of a step, given the steps before it. -/
structure FailoverStep (pre : List (Reactive.Entry Core TimedEvent Action))
    (e : Reactive.Entry Core TimedEvent Action) :
    Prop where
  makes : ∀ server, .switchVpnServer server ∈ e.out →
    e.input.event = .tunnel .switchSaved ∧ (failoverLog pre).phase = some (.saving server)
  saves : ∀ switch, .saveVpnSwitch switch ∈ e.out →
    (failoverLog pre).phase = none ∧ failuresBeforeSwitch ≤ (failoverLog (pre ++ [e])).failed ∧
      (∃ last, e.before.tunnel.lastSwitch = .known last) ∧ switch.server ∈ (failoverLog pre).servers ∧
      some switch.server ≠ (failoverLog pre).current
  rests : (failoverLog pre).phase.isSome → (failoverLog pre).checking = none ∧
    ((failoverLog pre).Switches e.input.event ∨
      .checkExitIp ∉ e.out ∧ e.after.tunnel.counted = e.before.tunnel.counted)
  available : ∀ w, e.after.tunnel.watch = some w → w.protection.isAvailable = true →
    (failoverLog (pre ++ [e])).latest = some { fresh := true, succeeded := true }

section
variable {c : Core} {now : ClockReading} {event : Event} {l : FailoverLog}

/-- Beside its own events the tunnel only starts a check that it waits for. -/
theorem tunnelAfter_quiet (h : ∀ e, event ≠ .tunnel e) :
    (c.tunnelAfter now event).1.counted = c.tunnel.counted ∧
      ∀ a ∈ (c.tunnelAfter now event).2, a = .readLastVpnSwitch ∨
        a = .checkExitIp ∧ ∃ w id, c.tunnel.watch = some w ∧ w.check = .waiting id := by
  cases event with
  | tunnel e => exact absurd rfl (h e)
  | timerExpired name id =>
    cases name with
    | tunnelCheck =>
      change (c.tunnel.timerExpired now id).1.counted = _ ∧ ∀ a ∈ (c.tunnel.timerExpired now id).2, _
      unfold Tunnel.timerExpired
      split
      · next w hw =>
        split
        · next hc =>
          refine ⟨by simp [Tunnel.counted, hw, Watch.checkNow],
            fun a ha => .inr ⟨List.mem_singleton.mp ha, w, id, hw, hc⟩⟩
        · exact ⟨rfl, fun a ha => absurd ha List.not_mem_nil⟩
      · exact ⟨rfl, fun a ha => absurd ha List.not_mem_nil⟩
    | _ => exact ⟨rfl, fun a ha => absurd ha List.not_mem_nil⟩
  | portForwarding e =>
    cases e with
    | mappingFailed reason =>
      change (c.tunnel.suspect now).1.counted = _ ∧ ∀ a ∈ (c.tunnel.suspect now).2, _
      unfold Tunnel.suspect
      split
      · next w hw =>
        split
        · next id hc =>
          split
          · refine ⟨by simp [Tunnel.counted, hw, Watch.checkNow],
              fun a ha => .inr ⟨List.mem_singleton.mp ha, w, id, hw, hc⟩⟩
          · exact ⟨rfl, fun a ha => absurd ha List.not_mem_nil⟩
        · exact ⟨rfl, fun a ha => absurd ha List.not_mem_nil⟩
      · exact ⟨rfl, fun a ha => absurd ha List.not_mem_nil⟩
    | _ => exact ⟨rfl, fun a ha => absurd ha List.not_mem_nil⟩
  | startup e =>
    change (if c.opensStorage (.startup e) then c.tunnel.startReading else (c.tunnel, [])).1.counted = _ ∧
      ∀ a ∈ (if c.opensStorage (.startup e) then c.tunnel.startReading else (c.tunnel, [])).2, _
    split
    · exact ⟨rfl, fun a ha => .inl (List.mem_singleton.mp ha)⟩
    · exact ⟨rfl, fun a ha => absurd ha List.not_mem_nil⟩
  | _ => exact ⟨rfl, fun a ha => absurd ha List.not_mem_nil⟩

theorem tunnelAfter_makes {server : VpnServer} (ha : c.tunnel.Agrees l)
    (h : .switchVpnServer server ∈ (c.tunnelAfter now event).2) :
    event = .tunnel .switchSaved ∧ l.phase = some (.saving server) := by
  by_cases he : ∃ e, event = .tunnel e
  · obtain ⟨e, rfl⟩ := he
    obtain ⟨w, switch, hw, rfl, hf, rfl⟩ := handle_makes h
    refine ⟨rfl, ?_⟩
    rw [(ha.watch hw).2.phase, hf]
    rfl
  · obtain hread | ⟨hcheck, -⟩ := (tunnelAfter_quiet fun e h' => he ⟨e, h'⟩).2 _ h
    · cases hread
    · cases hcheck

theorem tunnelAfter_saves {switch : VpnSwitch} (ha : c.tunnel.Agrees l)
    (h : .saveVpnSwitch switch ∈ (c.tunnelAfter now event).2) :
    l.phase = none ∧ failuresBeforeSwitch ≤
    ((c.tunnelAfter now event).2.foldl FailoverLog.tell (l.hear event)).failed ∧
      (∃ last, c.tunnel.lastSwitch = .known last) ∧ switch.server ∈ l.servers ∧
      some switch.server ≠ l.current := by
  by_cases he : ∃ e, event = .tunnel e
  · obtain ⟨e, rfl⟩ := he
    have hafter := tunnelAfter_agrees c now (.tunnel e) ha
    obtain ⟨w, reason, hw, rfl, ho, hfailures, hallowed, hmem, hne⟩ := handle_saves h
    have hwatch := (ha.watch hw).2
    obtain ⟨hchecking, hnone⟩ := hwatch.outstanding ho
    refine ⟨?_, ?_, ?_, hwatch.servers ▸ hmem, hwatch.current ▸ hne⟩
    · rw [hwatch.phase, hnone]
      rfl
    · have hcounted : ∃ w', (c.tunnelAfter now (.tunnel (.exitIpCheckFailed reason))).1.watch = some w' ∧
          w'.failures = w.failures.afterAnother := by
        unfold Core.tunnelAfter
        simp only [Tunnel.handle, hw, if_pos ho]
        unfold Tunnel.checkFailed
        dsimp only
        split
        · exact ⟨_, rfl, rfl⟩
        · exact ⟨_, rfl, rfl⟩
      obtain ⟨w', hw', hfailures'⟩ := hcounted
      rw [← hfailures', (hafter.watch hw').2.failed] at hfailures
      exact le_trans hfailures (min_le_left _ _)
    · obtain ⟨last, hlast, -⟩ := switchAllowance_now hallowed
      cases hknown : c.tunnel.lastSwitch with
      | known last => exact ⟨last, rfl⟩
      | _ =>
        rw [hknown] at hlast
        cases hlast
  · obtain hread | ⟨hcheck, -⟩ := (tunnelAfter_quiet fun e h' => he ⟨e, h'⟩).2 _ h
    · cases hread
    · cases hcheck

theorem tunnelAfter_rests (ha : c.tunnel.Agrees l) (h : l.phase.isSome = true) : l.checking = none ∧
    (l.Switches event ∨
      .checkExitIp ∉ (c.tunnelAfter now event).2 ∧
      (c.tunnelAfter now event).1.counted = c.tunnel.counted) := by
  cases hw : c.tunnel.watch with
  | none =>
    rw [ha.unwatched hw] at h
    cases h
  | some w =>
    have hwatch := (ha.watch hw).2
    have hswitching : w.check = .switching := by
      rw [hwatch.phase, Option.isSome_map] at h
      exact hwatch.switching.mp h
    have hidle : w.check ≠ .outstanding := by
      rw [hswitching]
      nofun
    refine ⟨hwatch.idle hidle, ?_⟩
    by_cases he : ∃ e, event = .tunnel e
    · obtain ⟨e, rfl⟩ := he
      obtain ⟨rfl, server, hf⟩ | hrest := @handle_rests c.tunnel now c.timers e w hw hidle
      · refine .inl ⟨rfl, server, ?_⟩
        rw [hwatch.phase, hf]
        rfl
      · exact .inr hrest
    · obtain ⟨hcounted, hactions⟩ := @tunnelAfter_quiet c now event fun e h' => he ⟨e, h'⟩
      refine .inr ⟨fun hmem => ?_, hcounted⟩
      obtain hread | ⟨-, w', id, hw', hwaiting⟩ := hactions _ hmem
      · cases hread
      · rw [hw] at hw'
        cases hw'
        rw [hswitching] at hwaiting
        cases hwaiting

end

/-- In every run each switch answers the save of the same switch; a switch is saved
only after enough checks failed in a row, with the last switch known and to another
of the configured servers; no check runs, starts or counts until the switch takes
effect or fails; and protection is available only if the latest check to end was
started after the last effective switch and succeeded. -/
theorem failover_protocol (is : List TimedEvent) : Along FailoverStep (core.run is) := by
  intro pre e post hsplit
  obtain ⟨js, i, ks, -, rfl, rfl, -⟩ := run_split core hsplit
  have ha := failoverLog_agrees js
  have hafter := step_agrees (core.last js) ha i
  have htunnel : (core.step (core.last js) i).1.tunnel =
      ((core.last js).tunnelAfter i.occurredAt i.event).1 :=
    congrArg Prod.fst (handle_tunnel (core.last js) i.occurredAt i.event)
  have hout : actionsOf .tunnel (core.entry (core.last js) i).out =
      ((core.last js).tunnelAfter i.occurredAt i.event).2 :=
    congrArg Prod.snd (handle_tunnel (core.last js) i.occurredAt i.event)
  have hmem : ∀ a, a.part = .tunnel → a ∈ (core.entry (core.last js) i).out →
      a ∈ ((core.last js).tunnelAfter i.occurredAt i.event).2 := by
    intro a hpart hin
    rw [← hout]
    exact mem_actionsOf.mpr ⟨hin, hpart⟩
  refine ⟨fun server hs => tunnelAfter_makes ha (hmem _ rfl hs), fun switch hs => ?_,
    fun hphase => ?_, fun w hw hav => ?_⟩
  · obtain ⟨hphase, hfailed, hrest⟩ := tunnelAfter_saves ha (hmem _ rfl hs)
    refine ⟨hphase, ?_, hrest⟩
    rw [← hout] at hfailed
    rw [failoverLog_snoc]
    unfold FailoverLog.next
    rw [tell_actionsOf]
    exact hfailed
  · obtain ⟨hchecking, hswitches | ⟨hcheck, hcounted⟩⟩ := tunnelAfter_rests ha hphase
    · exact ⟨hchecking, .inl hswitches⟩
    · refine ⟨hchecking, .inr ⟨fun hin => hcheck (hmem _ rfl hin), ?_⟩⟩
      change (core.step (core.last js) i).1.tunnel.counted = _
      rw [htunnel]
      exact hcounted
  · rw [failoverLog_snoc]
    exact (hafter.watch hw).2.latest hav

end Windlass
