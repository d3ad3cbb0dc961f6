import Windlass.IntegrationSound

/-!
# The forwarded port

A log of the mapping requests, grants and effective server switches says which lease is
the latest and which server granted it. qBittorrent is moved only to the port of that
lease, while it lasts.
-/

namespace Windlass

open Reactive

/-! ## The log -/

/-- A lease as it was granted; `requested` and `granted` say whether its request was
emitted, and the grant handled, after the last effective switch. -/
structure Grant where
  tcp : Port
  at' : Instant
  lifetime : Duration
  requested : Bool
  granted : Bool
deriving DecidableEq

/-- `asked` is an unanswered mapping request, with whether it was emitted after the last
effective switch. -/
structure LeaseLog where
  asked : Option Bool
  latest : Option Grant
deriving DecidableEq

def LeaseLog.empty : LeaseLog := { asked := none, latest := none }

def Event.isSwitched : Event → Bool
  | .tunnel .switched => true
  | _ => false

def Handled.movesServer (e : Handled) : Bool :=
  e.input.event.isSwitched && e.after.tunnel.current != e.before.tunnel.current

section
variable (l : LeaseLog)

def LeaseLog.moved : LeaseLog where
  asked := l.asked.map fun _ => false
  latest := l.latest.map fun grant => { grant with requested := false, granted := false }

def LeaseLog.hear (at' : Instant) : Event → LeaseLog
  | .portForwarding (.mapped tcp _ lifetime) =>
    match l.asked with
    | some requested =>
      if lifetime ≠ 0 then
        { asked := none
          latest := some { tcp := tcp, at' := at', lifetime := lifetime, requested := requested,
                           granted := true } }
      else { l with asked := none }
    | none => l
  | .portForwarding (.mappingFailed _) => { l with asked := none }
  | _ => l

def LeaseLog.tell : Action → LeaseLog
  | .requestPortMapping _ => { l with asked := some true }
  | _ => l

def LeaseLog.next (e : Handled) : LeaseLog :=
  e.out.foldl LeaseLog.tell ((if e.movesServer then l.moved else l).hear e.time e.input.event)

end

def leaseLog (run : List Handled) : LeaseLog := run.foldl LeaseLog.next .empty

theorem leaseLog_snoc (run : List Handled) (e : Handled) :
    leaseLog (run ++ [e]) = (leaseLog run).next e :=
  List.foldl_append

theorem lease_tell_actionsOf (out : List Action) (l : LeaseLog) :
    out.foldl LeaseLog.tell l = (actionsOf .portForwarding out).foldl LeaseLog.tell l := by
  induction out generalizing l with
  | nil => rfl
  | cons a out ih =>
    by_cases ha : a.part = .portForwarding
    · rw [actionsOf_cons, if_pos ha]
      exact ih (l.tell a)
    · have hl : l.tell a = l := by
        cases a with
        | requestPortMapping lifetime => exact absurd rfl ha
        | _ => rfl
      rw [actionsOf_cons, if_neg ha, List.foldl_cons, hl]
      exact ih l

/-! ## The lease and its log -/

def PortForwarding.lease : PortForwarding → Option Lease
  | .enabled lease .. => lease
  | .disabled => none

structure PortForwarding.Agrees (f : PortForwarding) (l : LeaseLog) : Prop where
  asked : l.asked.isSome = f.ask?.isSome
  lease : ∀ lease ∈ f.lease, ∃ grant ∈ l.latest, grant.tcp = lease.tcp ∧
    lease.expires ≤ grant.at' + grant.lifetime ∧ grant.granted = true

section
variable {f : PortForwarding} {l : LeaseLog} (now : ClockReading) (timers : Timers)

theorem agrees_unanswered (h : f.Agrees l) {lease : Option Lease} {failures : FailureCount}
    {lastFailure : Option MappingFailure} (hf : f = .enabled lease .outstanding failures lastFailure) :
    ∃ requested, l.asked = some requested := by
  have hasked := h.asked
  rw [hf] at hasked
  exact Option.isSome_iff_exists.mp hasked

theorem agrees_unasked (h : f.Agrees l) (hf : f.ask? = none) : l.asked = none := by
  have hasked := h.asked
  rw [hf] at hasked
  exact Option.isSome_eq_false_iff.mp hasked |> Option.isNone_iff_eq_none.mp

theorem expires_le (at' : Instant) (lifetime : Duration) :
    (at'.checkedAdd lifetime).getD at' ≤ at' + lifetime := by
  unfold Instant.checkedAdd
  split
  · exact le_rfl
  · exact Nat.le_add_right _ _

theorem portForwarding_handle_agrees (h : f.Agrees l) (event : PortForwardingEvent) :
    (f.handle now event timers).1.Agrees
      ((f.handle now event timers).2.2.foldl LeaseLog.tell
        (l.hear now.monotonic (.portForwarding event))) := by
  cases f with
  | disabled =>
    have hnone := agrees_unasked h rfl
    cases event with
    | enable => exact ⟨rfl, fun _ h => by cases h⟩
    | mapped tcp udp lifetime =>
      simp only [PortForwarding.handle, LeaseLog.hear, hnone]
      exact h
    | mappingFailed reason =>
      exact ⟨rfl, fun _ h => by cases h⟩
  | enabled lease request failures lastFailure =>
    cases request with
    | waiting id =>
      have hnone := agrees_unasked h rfl
      cases event with
      | enable => exact h
      | mapped tcp udp lifetime =>
        simp only [PortForwarding.handle, LeaseLog.hear, hnone]
        exact h
      | mappingFailed reason => exact ⟨rfl, h.lease⟩
    | outstanding =>
      obtain ⟨requested, hasked⟩ := agrees_unanswered h rfl
      cases event with
      | enable => exact h
      | mapped tcp udp lifetime =>
        simp only [PortForwarding.handle, LeaseLog.hear, hasked]
        split
        · refine ⟨rfl, fun lease' hlease => ?_⟩
          obtain rfl := Option.some.inj hlease
          exact ⟨_, rfl, rfl, expires_le now.monotonic lifetime, rfl⟩
        · exact ⟨rfl, h.lease⟩
      | mappingFailed reason => exact ⟨rfl, h.lease⟩

theorem portForwarding_timerExpired_agrees (h : f.Agrees l) (id : TimerId) :
    (f.timerExpired id).1.Agrees ((f.timerExpired id).2.foldl LeaseLog.tell l) := by
  unfold PortForwarding.timerExpired
  split
  · split
    · exact ⟨rfl, h.lease⟩
    · exact h
  · exact h

theorem renew_agrees (h : l.asked.isSome = f.ask?.isSome) :
    f.renew.1.Agrees (f.renew.2.foldl LeaseLog.tell l) := by
  cases f with
  | disabled => exact ⟨h, nofun⟩
  | enabled lease request failures lastFailure =>
    cases request with
    | outstanding => exact ⟨h, nofun⟩
    | waiting id => exact ⟨rfl, nofun⟩

theorem expire_agrees (h : f.Agrees l) (at' : Instant) : (f.expire at').Agrees l where
  asked := by rw [(expire_awaits at').1]; exact h.asked
  lease := by
    intro lease hlease
    unfold PortForwarding.expire at hlease
    split at hlease
    · split at hlease
      · cases hlease
      · exact h.lease lease hlease
    · exact h.lease lease hlease

theorem expire_lease {at' : Instant} {lease : Lease} (h : lease ∈ (f.expire at').lease) :
    at' < lease.expires := by
  unfold PortForwarding.expire at h
  split at h
  · split at h
    · cases h
    · next hlate =>
      cases h
      exact lt_of_not_ge hlate
  · next hf =>
    cases f with
    | disabled => cases h
    | enabled lease' request failures lastFailure =>
      exact absurd (congrArg (PortForwarding.enabled · _ _ _) h) (hf _ _ _ _)

theorem renew_lease {lease : Lease} (h : lease ∈ f.renew.1.lease) : False := by
  cases f with
  | disabled => cases h
  | enabled lease' request failures lastFailure => cases request <;> cases h

end

/-! ## One step -/

section
variable (c : Core) (now : ClockReading) (event : Event)

theorem moves_eq (i : TimedEvent) :
    Handled.movesServer (core.entry c i) = true ↔ ∃ e, i.event = .tunnel e ∧
    e = .switched ∧ (c.tunnel.handle i.occurredAt e c.timers).1.current ≠ c.tunnel.current := by
  have htunnel : (core.step c i).1.tunnel = (c.tunnelAfter i.occurredAt i.event).1 :=
    congrArg Prod.fst (handle_tunnel c i.occurredAt i.event)
  have hmoves : Handled.movesServer (core.entry c i) =
      (i.event.isSwitched && (core.step c i).1.tunnel.current != c.tunnel.current) :=
    rfl
  rw [hmoves, Bool.and_eq_true, bne_iff_ne, htunnel]
  constructor
  · rintro ⟨hswitched, hne⟩
    unfold Event.isSwitched at hswitched
    split at hswitched
    · next hevent =>
      rw [hevent] at hne
      exact ⟨.switched, hevent, rfl, hne⟩
    · cases hswitched
  · rintro ⟨e, hevent, rfl, hne⟩
    rw [hevent]
    exact ⟨rfl, hne⟩

theorem portForwardingAfter_agrees {l : LeaseLog} (h : c.portForwarding.Agrees l) (i : TimedEvent) :
    (c.portForwardingAfter i.occurredAt i.event).1.Agrees
    ((c.portForwardingAfter i.occurredAt i.event).2.foldl LeaseLog.tell
      ((if Handled.movesServer (core.entry c i) then l.moved else l).hear i.occurredAt.monotonic
        i.event)) := by
  have hstays (hno : ∀ e, i.event ≠ .tunnel e) : Handled.movesServer (core.entry c i) = false := by
    rw [← Bool.not_eq_true, moves_eq]
    rintro ⟨e, he, -⟩
    exact hno e he
  cases hevent : i.event with
  | portForwarding e =>
    rw [hstays (by rw [hevent]; nofun)]
    exact portForwarding_handle_agrees i.occurredAt c.timers h e
  | timerExpired name id =>
    rw [hstays (by rw [hevent]; nofun)]
    cases name with
    | portLease => exact portForwarding_timerExpired_agrees h id
    | _ => exact h
  | tunnel e =>
    unfold Core.portForwardingAfter
    dsimp only
    by_cases hmoved : e = .switched ∧
      (c.tunnel.handle i.occurredAt e c.timers).1.current ≠ c.tunnel.current
    · have hmoves := (moves_eq c i).mpr ⟨e, hevent, hmoved⟩
      have hasked : l.moved.asked.isSome = c.portForwarding.ask?.isSome := by
        rw [← h.asked]
        exact Option.isSome_map
      rw [if_pos hmoved, hmoves]
      exact renew_agrees hasked
    · have hmoves : Handled.movesServer (core.entry c i) = false := by
        rw [← Bool.not_eq_true, moves_eq]
        rintro ⟨e', he', hmoved'⟩
        rw [hevent] at he'
        cases he'
        exact hmoved hmoved'
      rw [if_neg hmoved, hmoves]
      exact h
  | _ =>
    rw [hstays (by rw [hevent]; nofun)]
    exact h

theorem step_agrees_lease {l : LeaseLog} (h : c.portForwarding.Agrees l) (i : TimedEvent) :
    (core.step c i).1.portForwarding.Agrees (l.next (core.entry c i)) ∧
      ∀ lease ∈ (core.step c i).1.portForwarding.lease, i.occurredAt.monotonic < lease.expires := by
  have hafter := portForwardingAfter_agrees c h i
  have hdispatched := @dispatch_portForwarding (c.note i.event) i.occurredAt i.event
  have hout : l.next (core.entry c i) =
    ((c.received i.occurredAt i.event).decideMam i.occurredAt).1.renewLease.2.foldl
      LeaseLog.tell ((actionsOf .portForwarding
        ((c.note i.event).dispatch i.occurredAt i.event).2).foldl LeaseLog.tell
        ((if Handled.movesServer (core.entry c i) then l.moved else l).hear i.occurredAt.monotonic
          i.event)) := by
    unfold LeaseLog.next
    rw [lease_tell_actionsOf, entry_out, actionsOf_portForwarding, List.foldl_append]
    rfl
  have hstate : ((c.received i.occurredAt i.event).decideMam i.occurredAt).1.portForwarding =
      ((c.note i.event).dispatch i.occurredAt i.event).1.portForwarding.expire
      i.occurredAt.monotonic := by
    rw [decideMam_eq, received_eq]
  have hsame : (c.note i.event).portForwardingAfter i.occurredAt i.event =
    c.portForwardingAfter i.occurredAt i.event := rfl
  rw [hsame] at hdispatched
  rw [← hdispatched] at hafter
  have hexpired := expire_agrees hafter i.occurredAt.monotonic
  rw [← hstate] at hexpired
  rw [hout, core_step, handle_portForwarding]
  unfold Core.renewLease
  dsimp only
  split
  · exact ⟨renew_agrees hexpired.asked, fun lease hlease => (renew_lease hlease).elim⟩
  · refine ⟨hexpired, fun lease hlease => ?_⟩
    have hkept : lease ∈ ((c.received i.occurredAt i.event).decideMam
      i.occurredAt).1.portForwarding.lease := hlease
    rw [hstate] at hkept
    exact expire_lease hkept

end

theorem leaseLog_agrees (is : List TimedEvent) :
    (core.last is).portForwarding.Agrees (leaseLog (core.run is)) := by
  refine run_invariant core (I := fun tr c => c.portForwarding.Agrees (leaseLog tr)) (H := fun _ => True)
    (fun _ _ h => h) ⟨rfl, nofun⟩ (fun tr c i h _ => ?_) is trivial
  rw [leaseLog_snoc]
  exact (step_agrees_lease c h i).1

/-! ## The port qBittorrent is moved to -/

/-- qBittorrent is moved only to the TCP port of the latest lease granted, before its
lifetime is over, and only if the lease is of the server in use. -/
def SetsPortOf (inUse : Grant → Bool) (pre : List Handled) (e : Handled) : Prop :=
  ∀ port, .setQbittorrentListenPort port ∈ e.out →
    ∃ grant ∈ (leaseLog (pre ++ [e])).latest,
    grant.tcp = port ∧ e.time < grant.at' + grant.lifetime ∧ inUse grant

theorem forwardedPort_lease {f : PortForwarding} {port : Port} (h : f.forwardedPort = some port) :
    ∃ lease ∈ f.lease, lease.tcp = port := by
  unfold PortForwarding.forwardedPort at h
  split at h
  · next lease _ _ _ => exact ⟨lease, rfl, Option.some.inj h⟩
  · cases h
  · cases h

/-- In every run qBittorrent is moved only to the port of the latest lease, before it has
expired and granted after the last effective server switch. -/
theorem port_set_while_leased (is : List TimedEvent) :
    Along (SetsPortOf Grant.granted) (core.run is) := by
  intro pre e post hcut port hset
  obtain ⟨js, i, ks, -, rfl, rfl, -⟩ := run_split core hcut
  obtain ⟨hagrees, hlasts⟩ := step_agrees_lease (core.last js) (leaseLog_agrees js) i
  have hwanted : (core.step (core.last js) i).1.portForwarding.forwardedPort = some port :=
    @change_wanted (core.last js) i.occurredAt i.event _ hset (.listenPort port) rfl
  obtain ⟨lease, hlease, htcp⟩ := forwardedPort_lease hwanted
  obtain ⟨grant, hlatest, hport, hexpires, hgranted⟩ := hagrees.lease lease hlease
  refine ⟨grant, ?_, hport.trans htcp, lt_of_lt_of_le (hlasts lease hlease) hexpires, hgranted⟩
  rw [leaseLog_snoc]
  exact hlatest

def staleGrantEvents : List TimedEvent :=
  -- the server is switched while a mapping is asked for, and the grant comes from before
  failoverEvents none ++
    [.after 121 (.tunnel .switchSaved), .after 122 (.qbittorrent .enable),
      .after 122 (.qbittorrent (connectedWith otherPort)),
      .after 123 (.portForwarding .enable), .after 124 (.tunnel .switched),
      .after 125 (.portForwarding (.mapped forwardedPort forwardedPort (Duration.fromSecs 60)))]

theorem port_of_the_previous_server_set :
    ∃ is, Steady (core.run is) ∧ ¬ Along (SetsPortOf Grant.requested) (core.run is) := by
  refine ⟨staleGrantEvents ++ [.after 125 (.qbittorrent emptyUpdate)],
    steady_iff.mpr (by decide +kernel), fun h => ?_⟩
  rw [run_snoc] at h
  have hset : .setQbittorrentListenPort forwardedPort ∈
      (core.entry (core.last staleGrantEvents) (.after 125 (.qbittorrent emptyUpdate))).out := by
        decide +kernel
  obtain ⟨grant, hlatest, -, -, hrequested⟩ := h.last forwardedPort hset
  have hstale : (leaseLog (core.run staleGrantEvents ++
      [core.entry (core.last staleGrantEvents)
        (.after 125 (.qbittorrent emptyUpdate))])).latest.map Grant.requested =
      some false := by decide +kernel
  rw [Option.mem_def.mp hlatest, Option.map_some, hrequested] at hstale
  cases hstale

end Windlass
