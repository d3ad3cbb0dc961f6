import Windlass.ShownSound

/-!
# Repairs of the connection are told apart by readings

A repair is made when the latest reading says that MAM cannot reach qBittorrent,
and the next one only after a reading that says it can. What a reading says is
judged again at every step with the client that is connected then, so a client
that disconnects can make an old reading say otherwise.
-/

namespace Windlass

/-! ## The client that runs -/

/-- The session of qBittorrent and MAM work at the moment the step judges the
latest reading. -/
def Handled.received (e : Handled) : Core := e.before.received e.input.occurredAt e.input.event

def Handled.repairs (e : Handled) : Bool := e.before.repairs e.input.occurredAt e.input.event

def runningVersion (tr : List Handled) : Option ClientVersion :=
  tr.foldl
    (fun last e =>
      match e.received.qbittorrent.session with
      | some session => session.version.toRelease
      | none => last) none

theorem runningVersion_snoc (tr : List Handled) (e : Handled) : runningVersion (tr ++ [e]) =
    match e.received.qbittorrent.session with
    | some session => session.version.toRelease
    | none => runningVersion tr := by
  simp [runningVersion]

/-- The latest reading was taken this long after the time, and it shows that MAM
reaches qBittorrent by the summary and by the entries of the running version. -/
def Handled.ShowsReachable (tr : List Handled) (e : Handled) (since : Instant) : Prop :=
  (e.received.mam.account.reading.any fun reading => since + repairSettlesAfter ≤ reading.taken) ∧
    e.received.mam.unreachable (runningVersion (tr ++ [e])) = false

instance (tr : List Handled) (e : Handled) (since : Instant) : Decidable (e.ShowsReachable tr since) :=
  inferInstanceAs (Decidable (_ ∧ _))

def Connectability.settledBy (c : Connectability) (taken : Instant) : Bool :=
  match c with
  | .fine => false
  | .repaired at' _ _ => (at'.checkedAdd repairSettlesAfter).any fun settled => settled ≤ taken
  | .unresolved _ _ => true

def Connectability.isUnresolved : Connectability → Bool
  | .unresolved _ _ => true
  | _ => false

def Handled.readsAccount (e : Handled) : Bool :=
  match e.answer with
  | some (.loadUserData _, .ok (.userData _)) => true
  | _ => false

/-- With qBittorrent disconnected, the entry that says MAM cannot reach it is left
out of a reading that is to tell whether a repair helped. -/
def Handled.HidesClient (tr : List Handled) (e : Handled) : Prop :=
  e.received.qbittorrent.session.isNone ∧
    (e.received.mam.account.reading.any fun reading =>
      e.before.mam.connectability.settledBy reading.taken) ∧
    e.received.mam.unreachable none = false ∧ e.received.mam.unreachable (runningVersion tr)

def Handled.ReadsBack (e : Handled) : Prop :=
  e.before.mam.connectability.isUnresolved ∧ e.readsAccount ∧
    e.before.mam.account.reading.any fun reading => e.time < reading.taken

/-! ## One step -/

section
variable (c : Core) (now : ClockReading) (event : Event)

theorem received_connectability : (c.received now event).mam.connectability = c.mam.connectability := by
  rw [received_mam]
  by_cases h : ∃ e, event = .mam e
  · obtain ⟨e, rfl⟩ := h
    rw [dispatch_mam_eq, mam_handle_frame]
    rfl
  · rw [(dispatch_nudged (c.note event) now fun e he => h ⟨e, he⟩).frame]
    rfl

def Core.verdict : Option (Instant × Bool) :=
  (c.received now event).mam.account.reading.map fun reading =>
    (reading.taken, (c.received now event).mam.unreachable (c.received now event).context.clientVersion)

theorem repairs_eq : c.repairs now event = (c.mam.connectability.follow (c.verdict now event)).2 := by
  rw [← received_connectability c now event]
  rfl

theorem surveyed_connectability :
    (c.repairs now event ∧ ∃ findings,
      (c.surveyed now event).connectability = .repaired now.monotonic now.wall findings) ∨
    (c.repairs now event = false ∧
      (c.surveyed now event).connectability = (c.mam.connectability.follow (c.verdict now event)).1) := by
  rw [← received_connectability c now event]
  unfold Core.surveyed Core.repairs Core.verdict
  simp only [Mam.survey]
  rw [watchDownloads_frame, connect_frame]
  unfold Mam.followConnectability Mam.unreachable
  dsimp only
  split
  · next h => exact .inl ⟨h, _, rfl⟩
  · next h => exact .inr ⟨Bool.eq_false_iff.mpr h, rfl⟩

theorem handle_connectability :
    (c.repairs now event ∧ ∃ findings,
      (c.handle now event).1.mam.connectability = .repaired now.monotonic now.wall findings) ∨
    (c.repairs now event = false ∧
      (c.handle now event).1.mam.connectability =
      (c.mam.connectability.follow (c.verdict now event)).1) := by
  obtain ⟨wake, h⟩ := handle_mam c now event
  rw [h, Core.sending, send_frame, prepared_eq]
  exact surveyed_connectability c now event

end

/-! ## Between two repairs -/

def Core.Troubled (c : Core) (since : Instant) : Prop :=
  (∃ wall findings, c.mam.connectability = .repaired since wall findings) ∨
    ∃ wall findings reading, c.mam.connectability = .unresolved wall findings ∧
      c.mam.account.reading = some reading ∧ since + repairSettlesAfter ≤ reading.taken

section
variable {tr : List Handled} {c : Core} {i : TimedEvent} {since : Instant}

theorem settled_le {at' taken : Instant}
    (h : ((at'.checkedAdd repairSettlesAfter).any fun settled => settled ≤ taken) = true) :
    at' + repairSettlesAfter ≤ taken := by
  obtain ⟨settled, hs, hle⟩ := (Option.any_eq_true _ _).mp h
  obtain ⟨-, rfl⟩ := Instant.checkedAdd_eq_some.mp hs
  exact of_decide_eq_true hle

theorem troubled_repairs (h : c.Troubled since) : c.repairs i.occurredAt i.event = false := by
  rw [repairs_eq]
  unfold Connectability.follow
  obtain ⟨wall, findings, hc⟩ | ⟨wall, findings, -, hc, -⟩ := h
  · rw [hc]
    split
    · rfl
    · dsimp only
      split <;> rfl
  · rw [hc]
    split <;> rfl

/-- The reading that a step judges: taken late enough, unless it still waits for one. -/
theorem troubled_reading (h : c.Troubled since) (hb : ¬ Handled.ReadsBack (core.entry c i))
    {reading : Reading}
    (hr : (c.received i.occurredAt i.event).mam.account.reading = some reading)
    (hs : c.mam.connectability.settledBy reading.taken) : since + repairSettlesAfter ≤ reading.taken := by
  obtain ⟨wall, findings, hc⟩ | ⟨wall, findings, old, hc, ho, hle⟩ := h
  · rw [hc] at hs
    exact settled_le hs
  · obtain ⟨clients, data, ha, hn⟩ | ⟨-, hn⟩ := received_reading c i.occurredAt i.event
    · rw [hn] at hr
      cases hr
      have hlate : ¬ i.occurredAt.monotonic < old.taken := fun hlt =>
        hb ⟨by simp [hc, Connectability.isUnresolved], by simp [Handled.readsAccount, Handled.answer, ha],
          (Option.any_eq_true _ _).mpr ⟨old, ho, decide_eq_true hlt⟩⟩
      exact hle.trans (not_lt.mp hlate)
    · rw [hn, ho] at hr
      cases hr
      exact hle

theorem unsettled_follow {conn : Connectability} {taken : Instant} {unreachable : Bool}
    (h : conn.settledBy taken = false) : (conn.follow (some (taken, unreachable))).1 = conn := by
  cases conn with
  | fine => rfl
  | repaired at' wall findings =>
    simp only [Connectability.settledBy] at h
    simp only [Connectability.follow, h]
    rfl
  | unresolved wall findings => cases h

theorem unreached_follow {conn : Connectability} {taken : Instant} (h : conn.settledBy taken) :
    ∃ wall findings, (conn.follow (some (taken, true))).1 = .unresolved wall findings := by
  cases conn with
  | fine => cases h
  | repaired at' wall findings =>
    simp only [Connectability.settledBy] at h
    simp only [Connectability.follow, h]
    exact ⟨wall, findings, rfl⟩
  | unresolved wall findings => exact ⟨wall, findings, rfl⟩

/-- A reading judged reachable shows it of the running version too, unless the
client is hidden. -/
theorem reachable_shown (hh : ¬ Handled.HidesClient tr (core.entry c i)) {reading : Reading}
    (hr : (c.received i.occurredAt i.event).mam.account.reading = some reading)
    (hs : c.mam.connectability.settledBy reading.taken) (hle : since + repairSettlesAfter ≤ reading.taken)
    (hu : (c.received i.occurredAt i.event).mam.unreachable
      (c.received i.occurredAt i.event).context.clientVersion =
      false) : Handled.ShowsReachable tr (core.entry c i) since := by
  refine ⟨(Option.any_eq_true _ _).mpr ⟨reading, hr, decide_eq_true hle⟩, ?_⟩
  have hversion : (c.received i.occurredAt i.event).context.clientVersion =
      (c.received i.occurredAt i.event).qbittorrent.session.bind fun session =>
      session.version.toRelease := rfl
  have hrunning : runningVersion (tr ++ [core.entry c i]) =
    match (c.received i.occurredAt i.event).qbittorrent.session with
    | some session => session.version.toRelease
    | none => runningVersion tr := runningVersion_snoc tr _
  cases hsession : (c.received i.occurredAt i.event).qbittorrent.session with
  | some session =>
    rw [hsession] at hversion hrunning
    rw [hversion] at hu
    rw [hrunning]
    exact hu
  | none =>
    rw [hsession] at hversion hrunning
    rw [hversion] at hu
    rw [hrunning]
    exact Bool.eq_false_iff.mpr fun hlast =>
      hh ⟨Option.isNone_iff_eq_none.mpr hsession, (Option.any_eq_true _ _).mpr ⟨reading, hr, hs⟩,
        hu, hlast⟩

theorem troubled_step (h : c.Troubled since) (hb : ¬ Handled.ReadsBack (core.entry c i))
    (hh : ¬ Handled.HidesClient tr (core.entry c i)) :
    (c.handle i.occurredAt i.event).1.Troubled since ∨
    Handled.ShowsReachable tr (core.entry c i) since := by
  have hconn : (c.handle i.occurredAt i.event).1.mam.connectability =
      (c.mam.connectability.follow (c.verdict i.occurredAt i.event)).1 := by
    obtain ⟨hr, -⟩ | ⟨-, hn⟩ := handle_connectability c i.occurredAt i.event
    · rw [troubled_repairs h] at hr
      cases hr
    · exact hn
  have hafter : (c.handle i.occurredAt i.event).1.mam.account.reading =
      (c.received i.occurredAt i.event).mam.account.reading := by
    rw [handle_account]
  have hverdict : c.verdict i.occurredAt i.event =
    (c.received i.occurredAt i.event).mam.account.reading.map fun reading =>
      (reading.taken, (c.received i.occurredAt i.event).mam.unreachable
        (c.received i.occurredAt i.event).context.clientVersion) := rfl
  cases hr : (c.received i.occurredAt i.event).mam.account.reading with
  | none =>
    left
    rw [hverdict, hr] at hconn
    obtain ⟨wall, findings, hc⟩ | ⟨wall, findings, old, hc, ho, -⟩ := h
    · exact .inl ⟨wall, findings, hconn.trans hc⟩
    · obtain ⟨clients, data, -, hn⟩ | ⟨-, hn⟩ := received_reading c i.occurredAt i.event
      · rw [hn] at hr
        cases hr
      · rw [hn, ho] at hr
        cases hr
  | some reading =>
    rw [hr, Option.map_some] at hverdict
    rw [hverdict] at hconn
    -- only a reading asked for late enough after the repair settles anything
    cases hs : c.mam.connectability.settledBy reading.taken with
    | false =>
      left
      rw [unsettled_follow hs] at hconn
      obtain ⟨wall, findings, hc⟩ | ⟨wall, findings, old, hc, -⟩ := h
      · exact .inl ⟨wall, findings, hconn.trans hc⟩
      · rw [hc] at hs
        cases hs
    | true =>
      have hle := troubled_reading h hb hr hs
      cases hu : (c.received i.occurredAt i.event).mam.unreachable
          (c.received i.occurredAt i.event).context.clientVersion with
      | true =>
        left
        rw [hu] at hconn
        obtain ⟨wall, findings, hf⟩ := unreached_follow hs
        exact .inr ⟨wall, findings, reading, hconn.trans hf, hafter.trans hr, hle⟩
      | false => exact .inr (reachable_shown hh hr hs hle hu)

end

def KeepsVerdict (tr : List Handled) (e : Handled) : Prop := ¬ e.HidesClient tr ∧ ¬ e.ReadsBack

instance (tr : List Handled) (e : Handled) : Decidable (KeepsVerdict tr e) :=
  inferInstanceAs (Decidable (¬ (_ ∧ _ ∧ _ ∧ _) ∧ ¬ (_ ∧ _ ∧ _)))

/-- Between two repairs a reading, taken half an hour or more after the first,
shows that MAM reaches qBittorrent. -/
theorem repairs_apart {is : List TimedEvent} (h : Reactive.Along KeepsVerdict (core.run is))
    {pre mid post : List Handled} {e f : Handled} (hrun : core.run is = pre ++ e :: (mid ++ f :: post))
    (he : e.repairs) (hf : f.repairs) :
    ∃ m₁ g m₂, mid = m₁ ++ g :: m₂ ∧ Handled.ShowsReachable (pre ++ e :: m₁) g e.time := by
  have hcut : core.run is = (pre ++ e :: mid) ++ f :: post := by
    rw [hrun, List.append_assoc, List.cons_append]
  obtain ⟨js', k, ks', -, hbefore, rfl, -⟩ := Reactive.run_split core hcut
  obtain ⟨js, i, ks, rfl, hpre, rfl, hmid⟩ := Reactive.run_split core hbefore.symm
  have htroubled : (core.entry (core.last js) i).after.Troubled i.occurredAt.monotonic := by
    obtain ⟨-, findings, hc⟩ | ⟨hn, -⟩ := handle_connectability (core.last js) i.occurredAt i.event
    · exact .inl ⟨_, findings, hc⟩
    · rw [Handled.repairs, entry_before, entry_input, hn] at he
      cases he
  have hkeeps : ∀ m₁ g m₂, core.trace (core.entry (core.last js) i).after ks = m₁ ++ g :: m₂ →
      KeepsVerdict (pre ++ [core.entry (core.last js) i] ++ m₁) g := by
    intro m₁ g m₂ hm
    refine h _ g (m₂ ++ core.entry (core.last (js ++ i :: ks)) k :: post) ?_
    rw [hrun, hmid, hm]
    simp
  have hstep (tr : List Handled) (c : Core) (i' : TimedEvent) (hc : c.Troubled i.occurredAt.monotonic)
      (hk : KeepsVerdict tr (core.entry c i')) : (core.step c i').1.Troubled i.occurredAt.monotonic ∨
        Handled.ShowsReachable tr (core.entry c i') i.occurredAt.monotonic := troubled_step hc hk.2 hk.1
  obtain hlast | ⟨m₁, g, m₂, hm, hq⟩ :=
    Reactive.trace_kept_or core (I := fun c => c.Troubled i.occurredAt.monotonic)
    (Q := fun tr e => Handled.ShowsReachable tr e i.occurredAt.monotonic) hstep htroubled hkeeps
  · rw [← Reactive.last_cut] at hlast
    rw [Handled.repairs, entry_before, entry_input, troubled_repairs hlast] at hf
    cases hf
  · refine ⟨m₁, g, m₂, hmid.trans hm, ?_⟩
    rwa [List.append_assoc] at hq

def unreachedSummary : UserData :=
  { accountData with summary := accountData.summary.map fun summary =>
    { summary with connectable := .no } }

def repairingEvents : List TimedEvent := (admittingEvents []).dropLast

def reachedEvents : List TimedEvent :=
  -- MAM reaches qBittorrent half an hour after the repair, and is about to be asked again
  [.after 125 (.timerExpired .mam 5), shownAt 126 (.v4 1) 1, replyAt 127 noBookmarks,
    .after 1864 (.timerExpired .mam 7),
    shownAt 1865 (.v4 1) 1, replyAt 1866 (.userData accountData), replyAt 1867 noBookmarks,
    .after 2800 (.timerExpired .mam 9), shownAt 2801 (.v4 1) 1]

theorem reached_between_repairs : ∃ m₁ g m₂,
    core.trace (core.step (core.last repairingEvents) (replyAt 64 (.userData unreachedSummary))).1
    reachedEvents =
      m₁ ++ g :: m₂ ∧
    Handled.ShowsReachable
      (core.run repairingEvents ++
        core.entry (core.last repairingEvents) (replyAt 64 (.userData unreachedSummary)) ::
        m₁) g (Duration.fromSecs 64) := by
  have hrun := Reactive.run_stretch core repairingEvents reachedEvents
    (replyAt 64 (.userData unreachedSummary))
    (replyAt 2802 (.userData unreachedSummary))
  have hkeeps : Reactive.Along KeepsVerdict (core.run (repairingEvents ++
    replyAt 64 (.userData unreachedSummary) ::
      (reachedEvents ++ [replyAt 2802 (.userData unreachedSummary)]))) := by decide +kernel
  exact repairs_apart hkeeps hrun (by decide +kernel) (by decide +kernel)

def disconnectedEvents : List TimedEvent :=
  -- MAM lists the client as not connectable, the repair does not help, and qBittorrent
  -- disconnects and connects again
  [.after 125 (.timerExpired .mam 5), shownAt 126 (.v4 1) 1, replyAt 127 noBookmarks,
    .after 1864 (.timerExpired .mam 7),
    shownAt 1865 (.v4 1) 1, replyAt 1866 (.userData unreachedData),
    .after 1900 (.timerExpired .qbittorrentPoll 3),
    .after 1901 (.qbittorrent (.syncFailed .unreachable)), .after 1911 (.timerExpired .qbittorrentPoll 9)]

def reconnected : TimedEvent :=
  .after 1912 (.qbittorrent (.connected (.release { major := 5, minor := 2, patch := 0 })
    { listenPort := none, interface := none, queue := none }))

theorem repaired_again_unread : ∃ pre e mid f,
    core.run (repairingEvents ++ replyAt 64 (.userData unreachedData) ::
      (disconnectedEvents ++ [reconnected])) =
      pre ++ e :: (mid ++ [f]) ∧ Handled.repairs e ∧ Handled.repairs f ∧
    ∀ m₁ g m₂, mid = m₁ ++ g :: m₂ → ¬ Handled.ShowsReachable (pre ++ e :: m₁) g e.time := by
  refine ⟨_, _, _, _, Reactive.run_stretch core repairingEvents disconnectedEvents
    (replyAt 64 (.userData unreachedData))
    reconnected, by decide +kernel, by decide +kernel, ?_⟩
  have hnone : Reactive.Along
      (fun m₁ g => ¬ Handled.ShowsReachable (core.run repairingEvents ++
        core.entry (core.last repairingEvents) (replyAt 64 (.userData unreachedData)) ::
        m₁) g (Duration.fromSecs 64))
      (core.trace (core.step (core.last repairingEvents) (replyAt 64 (.userData unreachedData))).1
        disconnectedEvents) := by
    decide +kernel
  exact hnone

end Windlass
