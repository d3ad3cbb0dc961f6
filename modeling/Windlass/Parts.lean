import Windlass.Core

/-!
# Which part asks for which actions

Every action belongs to one part of the core, and each part's functions ask for
actions of that part only. Requests to MAM, saved registration attempts and
cookie writes can therefore be followed through a step by looking at the few
functions that ask for them.
-/

namespace Windlass

def Emits (part : Part) (out : List Action) : Prop := ∀ a ∈ out, a.part = part

section
variable {part : Part}

@[simp] theorem emits_nil : Emits part [] := by simp [Emits]

@[simp] theorem emits_cons {a : Action} {out : List Action} :
    Emits part (a :: out) ↔ a.part = part ∧ Emits part out := by simp [Emits]

@[simp] theorem emits_append {out out' : List Action} :
    Emits part (out ++ out') ↔ Emits part out ∧ Emits part out' := by
  simp only [Emits, List.mem_append, or_imp, forall_and]

end

/-! ## Storage parts -/

theorem settings_change_emits (s : SettingsState) {f : Settings → Settings × Option Action}
    (hf : ∀ settings, Emits .settings (f settings).2.toList) : Emits .settings (s.change f).2 := by
  cases s with
  | loaded settings => exact hf settings
  | _ => simp [SettingsState.change]

theorem toList_map_emits {α : Type} {part : Part} {f : α → Action} (o : Option α)
    (hf : ∀ x, (f x).part = part) :
    Emits part (o.map f).toList := by
  cases o <;> simp [hf]

theorem settings_handle_emits (s : SettingsState) (e : SettingsEvent) :
    Emits .settings (s.handle e).2 := by
  cases e
  case read => cases s <;> simp [SettingsState.handle]
  case readFailed => cases s <;> simp [SettingsState.handle]
  all_goals
    refine settings_change_emits s fun settings => ?_
    exact toList_map_emits _ fun _ => rfl

theorem settings_rotate_emits (s : SettingsState) (cookie : ApiCookie) :
    Emits .settings (s.rotate cookie).2 :=
  settings_change_emits s fun _ => toList_map_emits _ fun _ => rfl

theorem update_emits (p : MamPreferenceState) (change : MamPreferenceUpdate) :
    Emits .mamPause (p.updateMamPreference change).2 := by
  have hc : change.action.part = .mamPause := by cases change <;> rfl
  unfold MamPreferenceState.updateMamPreference
  dsimp only
  split
  · simp
  · split <;> simp [hc]

theorem complete_emits (p : MamPreferenceState) (completion : MamPreferenceCompletion) :
    Emits .mamPause (p.complete completion).2 := by
  unfold MamPreferenceState.complete
  split
  · split
    · simp
    · dsimp only
      split
      · exact update_emits _ _
      · simp
  · simp

theorem state_update_emits (s : State) (change : MamPreferenceUpdate) :
    Emits .mamPause (s.updateMamPreference change).2 := by
  cases s with
  | ready p => exact update_emits p change
  | _ => simp [State.updateMamPreference]

theorem mamPause_emits (s : State) (e : MamPauseEvent) : Emits .mamPause (s.handleMamPause e).2 := by
  have hc (completion) : Emits .mamPause (s.completeMamPreference completion).2 := by
    cases s with
    | ready p => exact complete_emits p completion
    | _ => simp [State.completeMamPreference]
  cases e with
  | set mode => exact state_update_emits s _
  | delete => exact state_update_emits s _
  | read mode =>
    cases s with
    | readingMamPreference requested =>
      cases requested with
      | none => simp [State.handleMamPause, State.loaded]
      | some change => exact state_update_emits _ _
    | _ => simp [State.handleMamPause, State.loaded]
  | readFailed => cases s <;> simp [State.handleMamPause]
  | written => exact hc .written
  | writeFailed => exact hc .writeFailed
  | deleted => exact hc .deleted
  | deleteFailed => exact hc .deleteFailed

theorem startup_emits (s : State) (e : StartupEvent) : Emits .startup (s.handleStartup e).2 := by
  cases e <;> cases s <;> simp [State.handleStartup, Action.part]

theorem history_afterStep_emits (h : HistoryState) (step : Step) (limit : Option HistoryLimit) :
    Emits .history (h.afterStep step limit).2 := by
  unfold HistoryState.afterStep
  split
  · dsimp only
    split
    · split <;> simp [Action.part]
    · simp
  · simp

/-! ## Integrations -/

theorem portForwarding_handle_emits (p : PortForwarding) (now : ClockReading) (e : PortForwardingEvent)
    (timers : Timers) : Emits .portForwarding (p.handle now e timers).2.2 := by
  have hr (lease failures reason) :
      Emits .portForwarding (PortForwarding.retry lease failures now reason timers).2.2 := by
    simp [PortForwarding.retry, Action.part, TimerName.part]
  unfold PortForwarding.handle
  split
  · simp [Action.part]
  · split
    · simp [Action.part, TimerName.part]
    · exact hr _ _ _
  · exact hr _ _ _
  · simp

theorem portForwarding_timerExpired_emits (p : PortForwarding) (id : TimerId) :
    Emits .portForwarding (p.timerExpired id).2 := by
  unfold PortForwarding.timerExpired
  split
  · split <;> simp [Action.part]
  · simp

theorem renew_emits (p : PortForwarding) : Emits .portForwarding p.renew.2 := by
  unfold PortForwarding.renew
  split <;> simp [Action.part]

theorem tunnel_checkFailed_emits (t : Tunnel) (w : Watch) (now : ClockReading) (reason : ExitIpFailure)
    (timers : Timers) : Emits .tunnel (t.checkFailed w now reason timers).2.2 := by
  unfold Tunnel.checkFailed
  dsimp only
  split
  · simp [Watch.failOver, Action.part]
  · simp [Watch.wait, Action.part, TimerName.part]

theorem tunnel_handle_emits (t : Tunnel) (now : ClockReading) (e : TunnelEvent) (timers : Timers) :
    Emits .tunnel (t.handle now e timers).2.2 := by
  unfold Tunnel.handle
  split
  · simp [Action.part]
  · simp
  · simp
  · split
    · simp [Watch.wait, Action.part, TimerName.part]
    · simp
  · split
    · exact tunnel_checkFailed_emits t _ now _ timers
    · simp
  · split <;> simp [Action.part]
  · split <;> simp [Watch.checkNow, Action.part]
  · split
    · simp [Watch.wait, Action.part, TimerName.part]
    · simp
  · split
    · simp [Watch.wait, Action.part, TimerName.part]
    · simp
  · simp

theorem tunnel_timerExpired_emits (t : Tunnel) (now : ClockReading) (id : TimerId) :
    Emits .tunnel (t.timerExpired now id).2 := by
  unfold Tunnel.timerExpired
  split
  · split <;> simp [Watch.checkNow, Action.part]
  · simp

theorem tunnel_suspect_emits (t : Tunnel) (now : ClockReading) : Emits .tunnel (t.suspect now).2 := by
  unfold Tunnel.suspect
  split
  · split
    · split <;> simp [Watch.checkNow, Action.part]
    · simp
  · simp

theorem session_setPreferences_emits {s s' : Session} {wanted : Wanted} {out : List Action}
    (h : s.setPreferences wanted = some (s', out)) : Emits .qbittorrent out := by
  unfold Session.setPreferences at h
  split at h
  · cases h; simp [Action.part]
  · split at h
    · cases h; simp [Action.part]
    · cases h

theorem qbittorrent_handle_emits (q : Qbittorrent) (now : ClockReading) (e : QbittorrentEvent)
    (timers : Timers) :
    Emits .qbittorrent (q.handle now e timers).2.2 := by
  have hf (reason) : Emits .qbittorrent (Qbittorrent.failed now reason timers).2.2 := by
    simp [Qbittorrent.failed, Action.part, TimerName.part]
  unfold Qbittorrent.handle
  split
  · simp [Action.part]
  · simp [Action.part]
  · split <;> simp
  · split <;> simp
  · split
    · simp [Session.wait, Action.part, TimerName.part]
    · simp
  · split <;> simp [Action.part]
  · split <;> simp [Action.part]
  all_goals first | exact hf _ | simp

theorem qbittorrent_timerExpired_emits (q : Qbittorrent) (id : TimerId) :
    Emits .qbittorrent (q.timerExpired id).2 := by
  unfold Qbittorrent.timerExpired
  split
  · split <;> simp [Action.part]
  · split <;> simp
  · simp

theorem qbittorrent_decide_emits {ρ : Type} (q : Qbittorrent) (now : ClockReading) (timers : Timers)
    (wanted : Wanted) (registry : ρ) (command : ρ → Session → ρ × Option TorrentCommand) :
    Emits .qbittorrent (q.decide now timers wanted registry command).2.2.2 := by
  unfold Qbittorrent.decide
  split
  · simp
  · split
    · next h => exact session_setPreferences_emits h
    · split
      · simp [Action.part]
      · split
        · simp [Action.part]
        · split
          · simp [Action.part]
          · simp [Session.wait, Action.part, TimerName.part]

theorem qbittorrent_followPreferences_emits (q : Qbittorrent) (wanted : Wanted) :
    Emits .qbittorrent (q.followPreferences wanted).2 := by
  unfold Qbittorrent.followPreferences
  split
  · split
    · split
      · next h => exact session_setPreferences_emits h
      · simp
    · simp
  · simp

/-! ## The registry -/

theorem save_emits (r : Records) (now : Instant) : Emits .registry (r.save now).2 := by
  unfold Records.save
  split <;> simp [Action.part]

theorem registry_handle_emits (r : Registry) (now : Instant) (e : RegistryEvent) :
    Emits .registry (r.handle now e).2 := by
  unfold Registry.handle
  split
  · simp
  · simp
  · split
    · exact save_emits _ now
    · simp
  · unfold Records.redownload
    dsimp only
    split
    · split
      · exact save_emits _ now
      · simp
    · simp
  · split <;> simp
  · simp

theorem registry_observe_emits (r : Registry) (now : ClockReading) (session : Session) :
    Emits .registry (r.observe now session).2 := by
  unfold Registry.observe
  split
  · split
    · exact save_emits _ _
    · simp
  · simp

theorem registry_change_emits (r : Registry) {f : Records → Records × List Action}
    (hf : ∀ records, Emits .registry (f records).2) : Emits .registry (r.change f).2 := by
  cases r with
  | loaded records => exact hf records
  | _ => simp [Registry.change]

theorem snatchedAll_emits (r : Records) (now : Instant) (bookmarks : List Bookmark) :
    Emits .registry (r.snatchedAll now bookmarks).2 := by
  unfold Records.snatchedAll
  generalize ho : ([] : List Action) = out
  have hout : Emits .registry out := by simp [← ho]
  clear ho
  induction bookmarks generalizing r out with
  | nil => exact hout
  | cons bookmark bookmarks ih =>
    simp only [List.foldl_cons]
    split
    · exact ih _ _ (emits_append.mpr ⟨hout, save_emits _ now⟩)
    · exact ih _ _ hout

theorem follow_emits {now : Instant} {observed : Option IpObservation} {permits noWedges tripped : Bool}
    {f : Following} (h : Emits .registry f.actions) (watched : Download × DownloadWatch) :
    Emits .registry (Following.follow now observed permits noWedges tripped f watched).actions := by
  have hr : Emits .registry (f.resume now observed watched.1).actions :=
    emits_append.mpr ⟨h, save_emits _ now⟩
  have hf : Emits .registry (if watched.1.desired == .held && permits then f.resume now observed watched.1
      else f).actions := by
    split
    · exact hr
    · exact h
  have hh (g : Following) (hg : Emits .registry g.actions) :
      Emits .registry (g.hold now watched.1).actions := emits_append.mpr ⟨hg, save_emits _ now⟩
  have ht (g : Following) (hg : Emits .registry g.actions) (notice : Option Notice) :
      Emits .registry (g.report watched.1 notice).actions := by
    unfold Following.report
    split
    · split <;> exact hg
    · exact hg
  unfold Following.follow
  dsimp only
  apply ht
  split
  · apply hh
    split
    · exact hf
    · exact h
  · split
    · exact hf
    · exact h

theorem following_emits (m : Mam) (now : ClockReading) (records : Records) :
    Emits .registry (m.following now records).actions := by
  unfold Mam.following
  generalize m.watchAll now records = watched
  generalize hg : ({ reapproved := _, reported := _, notices := _, records := _,
                     actions := _ } : Following) = f
  have hf : Emits .registry f.actions := by simp [← hg]
  clear hg
  induction watched generalizing f with
  | nil => exact hf
  | cons w watched ih => exact ih _ (follow_emits hf w)

theorem followDownloads_emits (m : Mam) (now : ClockReading) (registry : Registry) :
    Emits .registry (m.followDownloads now registry).2.2 := by
  cases registry with
  | loaded records => exact following_emits m now records
  | _ => simp [Mam.followDownloads]

/-! ## Notifications -/

theorem recordAll_emits (n : Notifications) (notices : List (SystemTime × Notice)) :
    Emits .notifications (n.recordAll notices).2 := by
  unfold Notifications.recordAll
  generalize ho : ([] : List Action) = out
  have hout : Emits .notifications out := by simp [← ho]
  clear ho
  induction notices generalizing n out with
  | nil => exact hout
  | cons p notices ih =>
    refine ih _ _ (emits_append.mpr ⟨hout, ?_⟩)
    unfold Notifications.record
    split <;> simp [Action.part]

theorem notifications_handle_emits (n : Notifications) (now : ClockReading) (e : NotificationEvent)
    (timers : Timers) : Emits .notifications (n.handle now e timers).2.2 := by
  unfold Notifications.handle
  split
  · split
    · exact recordAll_emits _ _
    · simp
  · simp
  · split <;> simp
  · split <;> simp [Action.part, TimerName.part]
  all_goals simp

theorem scheduleGrace_emits (n : Notifications) (now : Instant) (timers : Timers) :
    Emits .notifications (n.scheduleGrace now timers).2.2 := by
  unfold Notifications.scheduleGrace
  split
  · simp
  · split <;> simp [Action.part, TimerName.part]

theorem notifications_send_emits (n : Notifications) (settings : SettingsState) :
    Emits .notifications (n.send settings).2 := by
  unfold Notifications.send
  dsimp only
  split
  · simp
  · simp
  · simp
  · split
    · simp
    · split <;> simp [Action.part]

theorem afterStep_emits (n : Notifications) (now : ClockReading) (happened : List Notice)
    (facts : ConditionFacts) (settings : SettingsState) (timers : Timers) :
    Emits .notifications (n.afterStep now happened facts settings timers).2.2 := by
  unfold Notifications.afterStep
  generalize n.trackAll _ _ = tracked
  simp only [emits_append]
  exact ⟨⟨recordAll_emits _ _, scheduleGrace_emits _ _ _⟩, notifications_send_emits _ _⟩

end Windlass
