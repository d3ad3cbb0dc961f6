import Windlass.StopSound

/-!
# Changing qBittorrent's settings

Windlass changes a setting that qBittorrent reports otherwise than wanted, reads
the preferences back, and changes it again at once when they still differ. No
update and no wait comes between as long as qBittorrent is idle or read back.
-/

namespace Windlass

inductive SettingsChange
  | listenPort (port : Port)
  | queue (queue : QueuePreferences)
deriving DecidableEq

def Action.change? : Action → Option SettingsChange
  | .setQbittorrentListenPort port => some (.listenPort port)
  | .setQbittorrentQueue queue => some (.queue queue)
  | _ => none

def Action.isSync : Action → Bool
  | .syncQbittorrent _ => true
  | _ => false

def SettingsChange.wantedBy (wanted : Wanted) : SettingsChange → Prop
  | .listenPort port => wanted.listenPort = some port
  | .queue limits => wanted.queue = some limits

def SettingsChange.shownBy (preferences : QbittorrentPreferences) : SettingsChange → Prop
  | .listenPort port => preferences.listenPort = some port
  | .queue limits => ∀ current ∈ preferences.queue, current = limits

instance (wanted : Wanted) (change : SettingsChange) : Decidable (change.wantedBy wanted) := by
  unfold SettingsChange.wantedBy
  cases change <;> exact inferInstance

instance (preferences : QbittorrentPreferences) (change : SettingsChange) :
    Decidable (change.shownBy preferences) := by
  unfold SettingsChange.shownBy
  cases change <;> exact inferInstance

/-- The preferences a step finds qBittorrent idle with, or reads back. -/
def Qbittorrent.reports (q : Qbittorrent) (event : Event) : Option QbittorrentPreferences :=
  match q with
  | .connected session =>
    match session.activity, event with
    | .readingPreferences, .qbittorrent (.preferencesRead preferences) => some preferences
    | .waiting _, _ => some session.preferences
    | _, _ => none
  | _ => none

def Qbittorrent.Unsynced : Qbittorrent → Prop
  | .connected session =>
    match session.activity with
    | .settingListenPort _ | .settingQueue | .readingPreferences | .waiting _ => True
    | .syncing | .commanding | .deciding _ => False
  | _ => True

section
variable {session session' : Session} {wanted : Wanted} {out : List Action}

theorem setPreferences_change (h : session.setPreferences wanted = some (session', out)) :
    (Qbittorrent.connected session').Unsynced ∧ ∀ a ∈ out, ∀ change, a.change? = some change →
      change.wantedBy wanted ∧ ¬ change.shownBy session.preferences := by
  unfold Session.setPreferences at h
  split at h
  · next port hport =>
    cases h
    obtain ⟨hw, hne⟩ := Option.filter_eq_some_iff.mp hport
    refine ⟨trivial, fun a ha change hc => ?_⟩
    rw [List.mem_singleton.mp ha] at hc
    cases hc
    exact ⟨hw, of_decide_eq_true hne⟩
  · split at h
    · next queue hqueue =>
      cases h
      obtain ⟨hw, hne⟩ := Option.filter_eq_some_iff.mp hqueue
      refine ⟨trivial, fun a ha change hc => ?_⟩
      rw [List.mem_singleton.mp ha] at hc
      cases hc
      obtain ⟨current, hcur, hdiff⟩ := (Option.any_eq_true _ _).mp hne
      exact ⟨hw, fun hshown => of_decide_eq_true hdiff (hshown current hcur)⟩
    · cases h

end

/-! ## What a step does before it decides -/

section
variable {c : Core} {now : ClockReading} {event : Event}

theorem dispatch_qbittorrent : (c.dispatch now event).1.qbittorrent =
    match event with
    | .qbittorrent e => (c.qbittorrent.handle now e c.timers).1
    | .timerExpired .qbittorrentPoll id => (c.qbittorrent.timerExpired id).1
    | _ => c.qbittorrent := by
  cases event with
  | startup e =>
    simp only [Core.dispatch, Core.handleStartup]
    split <;> split <;> rfl
  | timerExpired name id => cases name <;> rfl
  | _ => rfl

theorem dispatch_asks {a : Action} (ha : a ∈ (c.dispatch now event).2) (hp : a.part = .qbittorrent) :
    (∃ e, event = .qbittorrent e ∧ a ∈ (c.qbittorrent.handle now e c.timers).2.2) ∨
      ∃ id, event = .timerExpired .qbittorrentPoll id ∧ a ∈ (c.qbittorrent.timerExpired id).2 := by
  have hparts := dispatch_parts c now ha
  rw [hp] at hparts
  cases event with
  | qbittorrent e => exact .inl ⟨e, rfl, ha⟩
  | timerExpired name id =>
    cases name with
    | qbittorrentPoll => exact .inr ⟨id, rfl, ha⟩
    | _ => simp [Event.parts, TimerName.part] at hparts
  | _ => simp [Event.parts] at hparts

theorem dispatch_no_change {a : Action} (ha : a ∈ (c.dispatch now event).2) : a.change? = none := by
  by_contra hc
  have hp : a.part = .qbittorrent := by
    cases a with
    | setQbittorrentListenPort => rfl
    | setQbittorrentQueue => rfl
    | _ => exact absurd rfl hc
  obtain ⟨e, -, ha⟩ | ⟨id, -, ha⟩ := dispatch_asks ha hp
  · unfold Qbittorrent.handle Qbittorrent.failed Session.wait at ha
    split at ha
    all_goals first | (split at ha) | skip
    all_goals first | exact absurd ha List.not_mem_nil | exact hc (List.mem_singleton.mp ha ▸ rfl)
  · unfold Qbittorrent.timerExpired at ha
    split at ha
    all_goals first | (split at ha) | skip
    all_goals first | exact absurd ha List.not_mem_nil | exact hc (List.mem_singleton.mp ha ▸ rfl)

def Qbittorrent.Syncing : Qbittorrent → Prop
  | .connected session => session.activity = .syncing
  | _ => False

def Qbittorrent.InView (q : Qbittorrent) (preferences : Option QbittorrentPreferences) : Prop :=
  ∀ session id, q = .connected session → session.activity = .waiting id →
  preferences = some session.preferences

theorem inView_apart {q : Qbittorrent} (h : q.session = none)
    (preferences : Option QbittorrentPreferences) :
    q.InView preferences := by
  rintro session id rfl
  cases h

theorem inView_reports (q : Qbittorrent) (event : Event) : q.InView (q.reports event) := by
  rintro session id rfl hw
  simp [Qbittorrent.reports, hw]

theorem handle_unsynced {q : Qbittorrent} (hu : q.Unsynced) (e : QbittorrentEvent) (timers : Timers) :
    ((q.handle now e timers).1.Syncing ∧ ∃ a ∈ (q.handle now e timers).2.2, a.isSync) ∨
      ((q.handle now e timers).1.Unsynced ∧
        (q.handle now e timers).1.InView (q.reports (.qbittorrent e))) := by
  have hsame : q.Unsynced ∧ q.InView (q.reports (.qbittorrent e)) := ⟨hu, inView_reports q _⟩
  unfold Qbittorrent.handle
  split
  · exact .inr ⟨trivial, inView_apart rfl _⟩
  · exact .inl ⟨rfl, _, List.mem_singleton_self _, rfl⟩
  · next session update =>
    split
    · next ha => simp [Qbittorrent.Unsynced, ha] at hu
    · exact .inr hsame
  · next session =>
    split
    · next ha => simp [Qbittorrent.Unsynced, ha] at hu
    · exact .inr hsame
  · next session preferences =>
    split
    · next ha =>
      refine .inr ⟨trivial, ?_⟩
      rintro session' id ⟨⟩ -
      simp [Qbittorrent.reports, ha]
    · exact .inr hsame
  · next session =>
    split
    · exact .inr ⟨trivial, by rintro session' id ⟨⟩ ⟨⟩⟩
    · exact .inr hsame
  · next session =>
    split
    · exact .inr ⟨trivial, by rintro session' id ⟨⟩ ⟨⟩⟩
    · exact .inr hsame
  all_goals first | exact .inr hsame | exact .inr ⟨trivial, inView_apart rfl _⟩

/-- With no update under way, an event asks for one, or leaves qBittorrent to be
decided on by the preferences in view. -/
theorem dispatch_unsynced (hu : c.qbittorrent.Unsynced) :
    ((c.dispatch now event).1.qbittorrent.Syncing ∧ ∃ a ∈ (c.dispatch now event).2, a.isSync) ∨
      ((c.dispatch now event).1.qbittorrent.Unsynced ∧
        (c.dispatch now event).1.qbittorrent.InView (c.qbittorrent.reports event)) ∨
      ∃ session, (c.dispatch now event).1.qbittorrent = .connected session ∧
      session.activity = .deciding .other ∧
        c.qbittorrent.reports event = some session.preferences := by
  have hsame : c.qbittorrent.Unsynced ∧ c.qbittorrent.InView (c.qbittorrent.reports event) :=
    ⟨hu, inView_reports _ _⟩
  rw [dispatch_qbittorrent]
  split
  · next e =>
    obtain h | h := handle_unsynced hu e c.timers
    · exact .inl h
    · exact .inr (.inl h)
  · next id =>
    unfold Qbittorrent.timerExpired
    cases hq : c.qbittorrent with
    | connected session =>
      dsimp only
      split
      · next hw =>
        refine .inr (.inr ⟨_, rfl, rfl, ?_⟩)
        simp [Qbittorrent.reports, hw]
      · rw [hq] at hsame
        exact .inr (.inl hsame)
    | unreachable reason retry =>
      dsimp only
      split <;> exact .inr (.inl ⟨trivial, inView_apart rfl _⟩)
    | _ => exact .inr (.inl ⟨trivial, inView_apart rfl _⟩)
  · exact .inr (.inl hsame)

end

/-! ## What a step decides -/

section
variable {q : Qbittorrent} {wanted : Wanted}

theorem unsynced_settled (hu : q.Unsynced) : q.deciding = none := by
  unfold Qbittorrent.deciding
  split
  · split
    · next ha => simp [Qbittorrent.Unsynced, ha] at hu
    · rfl
  · rfl

theorem followPreferences_change {a : Action} (ha : a ∈ (q.followPreferences wanted).2)
    {change : SettingsChange}
    (hc : a.change? = some change) : (q.followPreferences wanted).1.Unsynced ∧
      ∃ session id, q = .connected session ∧ session.activity = .waiting id ∧ change.wantedBy wanted ∧
        ¬ change.shownBy session.preferences := by
  unfold Qbittorrent.followPreferences at ha ⊢
  split at ha
  · next session =>
    split at ha
    · next id hw =>
      split at ha
      · next hs =>
        obtain ⟨hu, hchange⟩ := setPreferences_change hs
        exact ⟨hu, session, id, rfl, hw, hchange a ha change hc⟩
      · cases ha
    · cases ha
  · cases ha

theorem followPreferences_unsynced (hu : q.Unsynced) : (q.followPreferences wanted).1.Unsynced := by
  unfold Qbittorrent.followPreferences
  split
  · split
    · split
      · next hs => exact (setPreferences_change hs).1
      · exact hu
    · exact hu
  · exact hu

end

section
variable {d : Core} {now : ClockReading}

theorem decideQbittorrent_inView (hu : d.qbittorrent.Unsynced)
    {preferences : Option QbittorrentPreferences}
    (hv : d.qbittorrent.InView preferences) : (d.decideQbittorrent now).1.qbittorrent.Unsynced ∧
      ∀ a ∈ (d.decideQbittorrent now).2, ∀ change, a.change? = some change →
        ∃ shown, preferences = some shown ∧ change.wantedBy d.wanted ∧ ¬ change.shownBy shown := by
  simp only [Core.decideQbittorrent, Qbittorrent.decide, unsynced_settled hu, List.nil_append]
  refine ⟨followPreferences_unsynced hu, fun a ha change hc => ?_⟩
  obtain ⟨-, session, id, hq, hw, hwanted, hshown⟩ := followPreferences_change ha hc
  exact ⟨session.preferences, hv session id hq hw, hwanted, hshown⟩

theorem decideQbittorrent_syncing (h : d.qbittorrent.Syncing) : (d.decideQbittorrent now).2 = [] := by
  unfold Qbittorrent.Syncing at h
  cases hq : d.qbittorrent with
  | connected session =>
    rw [hq] at h
    simp [Core.decideQbittorrent, Qbittorrent.decide, Qbittorrent.deciding,
      Qbittorrent.followPreferences, hq, h]
  | _ =>
    rw [hq] at h
    cases h

theorem decideQbittorrent_other {session : Session} (hq : d.qbittorrent = .connected session)
    (ha : session.activity = .deciding .other) :
    ((∃ a ∈ (d.decideQbittorrent now).2, a.isSync) ∧
      ∀ a ∈ (d.decideQbittorrent now).2, a.change? = none) ∨
      (d.decideQbittorrent now).1.qbittorrent.Unsynced ∧
        ∀ a ∈ (d.decideQbittorrent now).2, ∀ change, a.change? = some change →
          change.wantedBy d.wanted ∧ ¬ change.shownBy session.preferences := by
  have hd : d.qbittorrent.deciding = some (session, .other) := by
    rw [hq, Qbittorrent.deciding, ha]
  simp only [Core.decideQbittorrent, Qbittorrent.decide, hd]
  cases hs : session.setPreferences d.wanted with
  | none =>
    refine .inl ⟨⟨_, List.mem_append_left _ (List.mem_singleton_self _), rfl⟩, fun a hmem => ?_⟩
    simp only [Qbittorrent.followPreferences, List.append_nil, List.mem_singleton] at hmem
    rw [hmem]
    rfl
  | some p =>
    obtain ⟨session', out⟩ := p
    obtain ⟨hu, hchange⟩ := setPreferences_change hs
    refine .inr ⟨followPreferences_unsynced hu, fun a hmem change hc => ?_⟩
    obtain hmem | hmem := List.mem_append.mp hmem
    · exact hchange a hmem change hc
    · obtain ⟨-, session'', id, hq', hw, -⟩ := followPreferences_change hmem hc
      cases hq'
      unfold Session.setPreferences at hs
      split at hs
      · cases hs
        cases hw
      · split at hs
        · cases hs
          cases hw
        · cases hs

theorem decide_change {ρ : Type} {q : Qbittorrent} {timers : Timers} {wanted : Wanted} {registry : ρ}
    {command : ρ → Session → ρ × Option TorrentCommand} {a : Action}
    (ha : a ∈ (q.decide now timers wanted registry command).2.2.2) {change : SettingsChange}
    (hc : a.change? = some change) :
    (q.decide now timers wanted registry command).1.Unsynced := by
  unfold Qbittorrent.decide at ha ⊢
  split at ha
  · cases ha
  · next session after hd =>
    split at ha
    · next hs => exact (setPreferences_change hs).1
    · split at ha
      · rw [List.mem_singleton.mp ha] at hc
        cases hc
      · split at ha
        · rw [List.mem_singleton.mp ha] at hc
          cases hc
        · split at ha
          all_goals
            rw [List.mem_singleton.mp ha] at hc
            cases hc

theorem decide_wanted {ρ : Type} {q : Qbittorrent} {timers : Timers} {wanted : Wanted} {registry : ρ}
    {command : ρ → Session → ρ × Option TorrentCommand} {a : Action}
    (ha : a ∈ (q.decide now timers wanted registry command).2.2.2) {change : SettingsChange}
    (hc : a.change? = some change) :
    change.wantedBy wanted := by
  unfold Qbittorrent.decide at ha
  split at ha
  · cases ha
  · split at ha
    · next hs => exact ((setPreferences_change hs).2 a ha change hc).1
    · split at ha
      · rw [List.mem_singleton.mp ha] at hc
        cases hc
      · split at ha
        · rw [List.mem_singleton.mp ha] at hc
          cases hc
        · split at ha
          all_goals
            rw [List.mem_singleton.mp ha] at hc
            cases hc

theorem decideQbittorrent_change {a : Action} (ha : a ∈ (d.decideQbittorrent now).2)
    {change : SettingsChange}
    (hc : a.change? = some change) : (d.decideQbittorrent now).1.qbittorrent.Unsynced := by
  simp only [Core.decideQbittorrent, List.mem_append] at ha ⊢
  obtain ha | ha := ha
  · exact followPreferences_unsynced (decide_change ha hc)
  · exact (followPreferences_change ha hc).1

end

/-! ## One step -/

section
variable {c : Core} {now : ClockReading} {event : Event}

theorem handle_qbittorrent_state : (c.handle now event).1.qbittorrent =
    ((c.commanding now event).decideQbittorrent now).1.qbittorrent := by
  rw [handle_eq, decided_eq]
  rfl

theorem commanding_qbittorrent :
    (c.commanding now event).qbittorrent = ((c.note event).dispatch now event).1.qbittorrent := by
  unfold Core.commanding
  rw [renewLease_frame, decideMam_eq, received_eq]

theorem handle_wanted : (c.handle now event).1.wanted = (c.commanding now event).wanted := by
  unfold Core.wanted
  rw [handle_eq, decided_eq, decideQbittorrent_frame]
  rfl

theorem handle_change {a : Action} (ha : a ∈ (c.handle now event).2) {change : SettingsChange}
    (hc : a.change? = some change) :
    a ∈ ((c.commanding now event).decideQbittorrent now).2 := by
  have hp : a.part = .qbittorrent := by
    cases a with
    | setQbittorrentListenPort => rfl
    | setQbittorrentQueue => rfl
    | _ => cases hc
  obtain ha | ha := handle_qbittorrent c now event ha hp
  · rw [dispatch_no_change ha] at hc
    cases hc
  · exact ha

theorem mem_handle_dispatched {a : Action} (ha : a ∈ ((c.note event).dispatch now event).2) :
    a ∈ (c.handle now event).2 := by
  rw [handle_out]
  simp only [List.mem_append]
  exact .inl (.inl (.inl ha))

theorem mem_handle_commanded {a : Action} (ha : a ∈ ((c.commanding now event).decideQbittorrent now).2) :
    a ∈ (c.handle now event).2 := by
  rw [handle_out]
  simp only [List.mem_append]
  exact .inl (.inr (.inl (.inr ha)))

theorem change_unsynced {a : Action} (ha : a ∈ (c.handle now event).2) {change : SettingsChange}
    (hc : a.change? = some change) :
    (c.handle now event).1.qbittorrent.Unsynced := by
  rw [handle_qbittorrent_state]
  exact decideQbittorrent_change (handle_change ha hc) hc

theorem change_wanted {a : Action} (ha : a ∈ (c.handle now event).2) {change : SettingsChange}
    (hc : a.change? = some change) :
    change.wantedBy (c.handle now event).1.wanted := by
  rw [handle_wanted]
  have hmem := handle_change ha hc
  simp only [Core.decideQbittorrent, List.mem_append] at hmem
  obtain hmem | hmem := hmem
  · exact decide_wanted hmem hc
  · obtain ⟨-, session, id, -, -, hwanted, -⟩ := followPreferences_change hmem hc
    exact hwanted

/-- Until it asks for an update, Windlass changes only a setting that the
preferences in view show otherwise than wanted. -/
theorem step_unsynced (hu : c.qbittorrent.Unsynced) :
    ((∃ a ∈ (c.handle now event).2, a.isSync) ∧ ∀ a ∈ (c.handle now event).2, a.change? = none) ∨
    (c.handle now event).1.qbittorrent.Unsynced ∧ ∀ a ∈ (c.handle now event).2, ∀ change,
    a.change? = some change →
      ∃ shown, c.qbittorrent.reports event = some shown ∧ change.wantedBy (c.handle now event).1.wanted ∧
        ¬ change.shownBy shown := by
  rw [handle_qbittorrent_state, handle_wanted]
  have hnone (h : ∀ a ∈ ((c.commanding now event).decideQbittorrent now).2, a.change? = none) :
      ∀ a ∈ (c.handle now event).2, a.change? = none := by
    intro a ha
    by_contra hc
    obtain ⟨change, hc'⟩ := Option.ne_none_iff_exists'.mp hc
    exact hc (h a (handle_change ha hc'))
  obtain ⟨hsync, a, ha, hs⟩ | ⟨hu', hv⟩ | ⟨session, hq, ha, hr⟩ :=
    @dispatch_unsynced (c.note event) now event hu
  · rw [← commanding_qbittorrent] at hsync
    refine .inl ⟨⟨a, mem_handle_dispatched ha, hs⟩, hnone fun a ha => ?_⟩
    rw [decideQbittorrent_syncing hsync] at ha
    cases ha
  · rw [← commanding_qbittorrent] at hu' hv
    obtain ⟨hu'', hchange⟩ := @decideQbittorrent_inView _ now hu' _ hv
    exact .inr ⟨hu'', fun a ha change hc => hchange a (handle_change ha hc) change hc⟩
  · rw [← commanding_qbittorrent] at hq
    obtain ⟨⟨a, hmem, hs⟩, hno⟩ | ⟨hu', hchange⟩ := @decideQbittorrent_other _ now _ hq ha
    · exact .inl ⟨⟨a, mem_handle_commanded hmem, hs⟩, hnone hno⟩
    · exact .inr ⟨hu', fun a hmem change hc => ⟨_, hr, hchange a (handle_change hmem hc) change hc⟩⟩

end

/-! ## Changes along a run -/

def Handled.changes (e : Handled) (change : SettingsChange) : Prop := ∃ a ∈ e.out, a.change? = some change

def Handled.syncs (e : Handled) : Prop := ∃ a ∈ e.out, a.isSync

instance (e : Handled) (change : SettingsChange) : Decidable (e.changes change) :=
  inferInstanceAs (Decidable (∃ a ∈ e.out, _))

instance (e : Handled) : Decidable e.syncs := inferInstanceAs (Decidable (∃ a ∈ e.out, _))

/-- Whatever Windlass set since the last update and less than a poll ago, and
wants so, qBittorrent reports so when it is idle or read back. -/
def Takes (pre : List Handled) (f : Handled) : Prop :=
  ∀ shown ∈ f.before.qbittorrent.reports f.input.event, ∀ p ∈ Reactive.cuts pre, ∀ a ∈ p.1.out,
  ∀ change ∈ a.change?,
    (∀ x ∈ p.2, ¬ x.syncs) → f.time < p.1.time + pollInterval → change.wantedBy f.after.wanted →
    change.shownBy shown

instance (pre : List Handled) (f : Handled) : Decidable (Takes pre f) := by
  unfold Takes
  exact inferInstance

theorem entry_changes (c : Core) (i : TimedEvent) {change : SettingsChange}
    (h : Handled.changes (core.entry c i) change) :
    (core.entry c i).after.qbittorrent.Unsynced := by
  obtain ⟨a, ha, hc⟩ := h
  rw [entry_out] at ha
  rw [entry_after]
  exact change_unsynced ha hc

theorem entry_unsynced (c : Core) (i : TimedEvent) (hu : c.qbittorrent.Unsynced) :
    (Handled.syncs (core.entry c i) ∧ ∀ change, ¬ Handled.changes (core.entry c i) change) ∨
      (core.step c i).1.qbittorrent.Unsynced ∧ ∀ change, Handled.changes (core.entry c i) change →
        ∃ shown, c.qbittorrent.reports i.event = some shown ∧
        change.wantedBy (core.entry c i).after.wanted ∧
          ¬ change.shownBy shown := by
  unfold Handled.syncs Handled.changes
  rw [entry_out, core_step, entry_after]
  obtain ⟨hsyncs, hnone⟩ | ⟨hu', hchange⟩ := @step_unsynced c i.occurredAt i.event hu
  · refine .inl ⟨hsyncs, fun change h => ?_⟩
    obtain ⟨a, ha, hc⟩ := h
    rw [hnone a ha] at hc
    cases hc
  · refine .inr ⟨hu', fun change h => ?_⟩
    obtain ⟨a, ha, hc⟩ := h
    exact hchange a ha change hc

/-- When qBittorrent takes what it is told, the same change is made again only
after an update or a poll interval. -/
theorem changes_apart {is : List TimedEvent} (h : Reactive.Along Takes (core.run is))
    {pre mid post : List Handled}
    {g f : Handled} (hrun : core.run is = pre ++ g :: (mid ++ f :: post)) {change : SettingsChange}
    (hg : g.changes change) (hf : f.changes change) :
    (∃ x ∈ mid, x.syncs) ∨ g.time + pollInterval ≤ f.time := by
  by_contra hno
  rw [not_or, not_le] at hno
  obtain ⟨hsync, htime⟩ := hno
  have hsync : ∀ x ∈ mid, ¬ x.syncs := fun x hx hs => hsync ⟨x, hx, hs⟩
  obtain ⟨js, i, ks, -, -, hg', htrace⟩ := Reactive.run_split core hrun
  have hstart : g.after.qbittorrent.Unsynced := by
    rw [hg'] at hg ⊢
    exact entry_changes _ _ hg
  obtain ⟨t, k, ht, hf'⟩ :=
    Reactive.trace_until core (I := fun c => c.qbittorrent.Unsynced) (P := fun x => ¬ Handled.syncs x)
    (fun c k hu hs => ((entry_unsynced c k hu).resolve_left fun h => hs h.1).1) htrace.symm hstart hsync
  have htakes : Takes (pre ++ g :: mid) f := h (pre ++ g :: mid) f post (by rw [hrun]; simp)
  obtain ⟨-, hnone⟩ | ⟨-, hchange⟩ := entry_unsynced t k ht
  · exact hnone change (hf' ▸ hf)
  · obtain ⟨shown, hr, hwanted, hshown⟩ := hchange change (hf' ▸ hf)
    rw [← hf'] at hwanted
    obtain ⟨a, ha, hc⟩ := hg
    refine hshown (htakes shown ?_ (g, mid) (Reactive.mem_cuts_split pre g mid) a ha change hc
      hsync htime hwanted)
    rw [hf']
    exact hr

def forwardedPort : Port := ⟨41000, by decide⟩

def reportingPort (port : Port) : QbittorrentPreferences :=
  { listenPort := some port, interface := none, queue := none }

def connectedWith (port : Port) : QbittorrentEvent :=
  .connected (.release { major := 5, minor := 2, patch := 0 }) (reportingPort port)

def emptyUpdate : QbittorrentEvent :=
  .synced { position := 1, scope := .full, torrents := [], removed := [] }

def otherPort : Port := ⟨6881, by decide⟩

def forwardedEvents : List TimedEvent :=
  -- a port is forwarded, and qBittorrent reports another one
  [.after 0 (.portForwarding .enable),
    .after 0 (.portForwarding (.mapped forwardedPort forwardedPort (Duration.fromSecs 60))),
    .after 0 (.qbittorrent .enable), .after 0 (.qbittorrent (connectedWith otherPort))]

def restartedEvents : List TimedEvent :=
  -- qBittorrent takes the port, and later restarts with its own
  [.after 1 (.qbittorrent .listenPortSet),
    .after 1 (.qbittorrent (.preferencesRead (reportingPort forwardedPort))),
    .after 11 (.timerExpired .qbittorrentPoll 2), .after 12 (.qbittorrent (.syncFailed .unreachable)),
    .after 22 (.timerExpired .qbittorrentPoll 3), .after 23 (.qbittorrent (connectedWith otherPort))]

theorem port_set_after_restart : ∃ pre g mid f,
    core.run (forwardedEvents ++ .after 0 (.qbittorrent emptyUpdate) ::
      (restartedEvents ++ [.after 23 (.qbittorrent emptyUpdate)])) = pre ++ g :: (mid ++ [f]) ∧
    Handled.changes g (.listenPort forwardedPort) ∧ Handled.changes f (.listenPort forwardedPort) ∧
    ((∃ x ∈ mid, Handled.syncs x) ∨ Handled.time g + pollInterval ≤ Handled.time f) := by
  have hrun := Reactive.run_stretch core forwardedEvents restartedEvents
    (.after 0 (.qbittorrent emptyUpdate))
    (.after 23 (.qbittorrent emptyUpdate))
  have hg : Handled.changes (core.entry (core.last forwardedEvents) (.after 0 (.qbittorrent emptyUpdate)))
      (.listenPort forwardedPort) := by decide +kernel
  have hf : Handled.changes (core.entry
      (core.last (forwardedEvents ++ .after 0 (.qbittorrent emptyUpdate) :: restartedEvents))
      (.after 23 (.qbittorrent emptyUpdate))) (.listenPort forwardedPort) := by decide +kernel
  exact ⟨_, _, _, _, hrun, hg, hf, changes_apart (by decide +kernel) hrun hg hf⟩

/-- qBittorrent accepts the port and goes on reporting its own. -/
def ignoringEvents : List TimedEvent := [.after 1 (.qbittorrent .listenPortSet)]

theorem port_set_again : ∃ pre g mid f post,
    core.run (forwardedEvents ++ .after 0 (.qbittorrent emptyUpdate) ::
      (ignoringEvents ++ [.after 1 (.qbittorrent (.preferencesRead (reportingPort otherPort)))])) =
      pre ++ g :: (mid ++ f :: post) ∧
    Handled.changes g (.listenPort forwardedPort) ∧ Handled.changes f (.listenPort forwardedPort) ∧
    ¬ ((∃ x ∈ mid, Handled.syncs x) ∨ Handled.time g + pollInterval ≤ Handled.time f) := by
  have hrun := Reactive.run_stretch core forwardedEvents ignoringEvents
    (.after 0 (.qbittorrent emptyUpdate))
    (.after 1 (.qbittorrent (.preferencesRead (reportingPort otherPort))))
  exact ⟨_, _, _, _, [], hrun, by decide +kernel, by decide +kernel, by decide +kernel⟩

end Windlass
