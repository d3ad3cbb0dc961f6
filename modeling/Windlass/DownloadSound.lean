import Windlass.SessionSound

/-!
# What a transfer is permitted by

qBittorrent is told to transfer content of a MAM download only in a step whose
final state permits it. The three books behind the permission (the IP a
registration confirmed, the downloads reapproved for an IP, and the torrents
newly fetched) are each filled by an answer, emptied when another connection
starts, and kept otherwise; `PermitInv` says which answer filled them.
-/

namespace Windlass

/-! ## What an answer grants -/

def Mam.Reapproves (m : Mam) (id : MamTorrentId) (ip : IpAddr) : Prop :=
  ∃ download watch observed, (download, watch) ∈ m.acquisition.watched ∧ download.mam = id ∧
    download.desired = .held ∧ watch.isFree ∧ m.network.current = some observed ∧ observed.ip = ip

structure Mam.Grants (m : Mam) (registry : Registry) (answer : Answer) (m' : Mam) : Prop where
  confirmed : ∀ ip, m'.confirmedDownloadIp = some ip → m.confirmedDownloadIp = some ip ∨
    ∃ r, answer = some (.registerSeedbox, .ok (.registered r ip))
  fetched : ∀ id, m'.acquisition.newlyFetched.contains id → m.acquisition.newlyFetched.contains id ∨
    registry.isQueued id ∧ ∃ wedge torrent, answer = some (.fetchTorrent id wedge, .ok (.fetched torrent))
  reapproved : ∀ (id : MamTorrentId) (ip : IpAddr), m'.acquisition.reapproved[id]? = some ip →
    m.acquisition.reapproved[id]? = some ip ∨ m'.Reapproves id ip

section
variable {m m' : Mam} {registry registry' : Registry} {answer : Answer} (now : ClockReading)

theorem Mam.Grants.same (hc : m'.confirmedDownloadIp = m.confirmedDownloadIp)
    (hf : m'.acquisition.newlyFetched = m.acquisition.newlyFetched)
    (hr : m'.acquisition.reapproved = m.acquisition.reapproved) : m.Grants registry answer m' where
  confirmed := by intro ip h; exact .inl (hc ▸ h)
  fetched := by intro id h; exact .inl (hf ▸ h)
  reapproved := by intro id ip h; exact .inl (hr ▸ h)

theorem follow_reapproved {observed : Option IpObservation} {permits noWedges tripped : Bool}
    {f : Following}
    {watched : Download × DownloadWatch} {id : MamTorrentId} {ip : IpAddr}
    (h : (Following.follow now.monotonic observed permits noWedges tripped f
      watched).reapproved[id]? = some ip) :
    f.reapproved[id]? = some ip ∨ watched.1.mam = id ∧ watched.1.desired = .held ∧ watched.2.isFree ∧
      ∃ o, observed = some o ∧ o.ip = ip := by
  obtain ⟨download, watch⟩ := watched
  have hreport (g : Following) (notice : Option Notice) :
      (g.report download notice).reapproved = g.reapproved := by
    unfold Following.report
    split
    · split <;> rfl
    · rfl
  unfold Following.follow at h
  dsimp only at h
  rw [hreport] at h
  have hhold (g : Following) (b : Bool) :
      (if b then g.hold now.monotonic download else g).reapproved = g.reapproved := by
    cases b <;> rfl
  rw [hhold] at h
  split at h
  · next hfree =>
    dsimp only at h
    split at h
    · next hheld =>
      rw [Bool.and_eq_true, beq_iff_eq] at hheld
      unfold Following.resume at h
      cases observed with
      | none => exact .inl h
      | some o =>
        dsimp only at h
        rw [Std.ExtTreeMap.getElem?_insert] at h
        split at h
        · next heq =>
          exact .inr ⟨Std.LawfulEqOrd.eq_of_compare heq, hheld.1, hfree, o, rfl, Option.some.inj h⟩
        · exact .inl h
    · exact .inl h
  · exact .inl h

theorem foldl_reapproved {observed : Option IpObservation} {permits noWedges tripped : Bool}
    {l : List (Download × DownloadWatch)} {f : Following} {id : MamTorrentId} {ip : IpAddr}
    (h : (l.foldl (Following.follow now.monotonic observed permits noWedges tripped)
      f).reapproved[id]? = some ip) :
    f.reapproved[id]? = some ip ∨ ∃ watched ∈ l, watched.1.mam = id ∧ watched.1.desired = .held ∧
      watched.2.isFree ∧ ∃ o, observed = some o ∧ o.ip = ip := by
  induction l generalizing f with
  | nil => exact .inl h
  | cons w l ih =>
    obtain h | ⟨w', hw, hrest⟩ := ih h
    · obtain h | hrest := follow_reapproved now h
      · exact .inl h
      · exact .inr ⟨w, List.mem_cons_self, hrest⟩
    · exact .inr ⟨w', List.mem_cons_of_mem _ hw, hrest⟩

theorem followDownloads_grants (h : m.Grants registry answer m')
    (hr : m'.acquisition.reapproved = m.acquisition.reapproved) :
    m.Grants registry answer (m'.followDownloads now registry').1 := by
  cases registry' with
  | loaded records =>
    refine ⟨h.confirmed, h.fetched, fun id ip hid => ?_⟩
    obtain hid | ⟨⟨download, watch⟩, hw, hmam, hheld, hfree, o, ho, hip⟩ := foldl_reapproved now hid
    · exact .inl (hr ▸ hid)
    · exact .inr ⟨download, watch, o, hw, hmam, hheld, hfree, ho, hip⟩
  | _ => exact h

theorem fetched_grants (id : MamTorrentId) (wedge : Wedge) (result : Except MamFailure MamReply) :
    m.Grants registry (some (.fetchTorrent id wedge, result))
      (m.fetched now id wedge result registry).1 := by
  unfold Mam.fetched
  dsimp only
  split
  · next torrent =>
    split
    · next hq =>
      refine ⟨fun ip h => .inl h, fun id' h => ?_, fun id' ip h => .inl h⟩
      rw [Std.ExtTreeSet.contains_insert, Bool.or_eq_true] at h
      obtain h | h := h
      · rw [← Std.LawfulEqOrd.eq_of_compare (beq_iff_eq.mp h)]
        exact .inr ⟨hq, wedge, torrent, rfl⟩
      · exact .inl h
    · refine followDownloads_grants now (.same ?_ ?_ ?_) ?_
      all_goals split <;> rfl
  · exact .same rfl rfl rfl
  · exact .same rfl rfl rfl

theorem ipAnswered_grants (result : Except MamFailure MamReply) :
    m.Grants registry answer (m.ipAnswered now result) := by
  unfold Mam.ipAnswered
  split <;> exact .same rfl rfl rfl

theorem userDataAnswered_grants (result : Except MamFailure MamReply) :
    m.Grants registry answer (m.userDataAnswered now result registry).1 := by
  unfold Mam.userDataAnswered
  split
  · exact followDownloads_grants now (.same rfl rfl rfl) rfl
  · exact .same rfl rfl rfl
  · exact .same rfl rfl rfl

theorem historyAnswered_grants (result : Except MamFailure MamReply) :
    m.Grants registry answer (m.historyAnswered now result registry).1 := by
  unfold Mam.historyAnswered
  split
  · exact followDownloads_grants now (.same rfl rfl rfl) rfl
  · exact .same rfl rfl rfl
  · exact .same rfl rfl rfl

theorem torrentAnswered_grants (id : MamTorrentId) (result : Except MamFailure MamReply) :
    m.Grants registry answer (m.torrentAnswered now id result registry).1 := by
  unfold Mam.torrentAnswered
  split
  · exact followDownloads_grants now (.same rfl rfl rfl) rfl
  · exact .same rfl rfl rfl
  · exact .same rfl rfl rfl

theorem bookmarksAnswered_grants (result : Except MamFailure MamReply) :
    m.Grants registry answer (m.bookmarksAnswered now result registry).1 := by
  unfold Mam.bookmarksAnswered
  split
  · unfold Mam.listed
    dsimp only
    split
    · exact followDownloads_grants now (.same rfl rfl rfl) rfl
    · exact .same rfl rfl rfl
  · exact .same rfl rfl rfl
  · exact .same rfl rfl rfl

theorem registrationAnswered_grants (result : Except MamFailure MamReply) :
    m.Grants registry (some (.registerSeedbox, result)) (m.registrationAnswered now result) := by
  unfold Mam.registrationAnswered
  split
  · next r ip =>
    refine ⟨fun ip' h => ?_, fun id h => .inl h, fun id ip h => .inl h⟩
    cases h
    exact .inr ⟨r, rfl⟩
  · exact .same rfl rfl rfl
  · exact .same rfl rfl rfl

theorem applyAnswer_grants (request : MamRequest) (result : Except MamFailure MamReply) (current : Bool) :
    m.Grants registry (if current ∨ request.recordsSpend then some (request, result) else none)
      (m.applyAnswer now request result current registry).1 := by
  cases request with
  | buy purchase => exact .same rfl rfl rfl
  | fetchTorrent id wedge =>
    simp only [MamRequest.recordsSpend, or_true, if_true, Mam.applyAnswer]
    exact fetched_grants now id wedge result
  | lookUpIp =>
    cases current
    · exact .same rfl rfl rfl
    · exact ipAnswered_grants now result
  | registerSeedbox =>
    cases current
    · exact .same rfl rfl rfl
    · exact registrationAnswered_grants now result
  | loadUserData clients =>
    cases current
    · exact .same rfl rfl rfl
    · exact userDataAnswered_grants now result
  | wedgeHistory =>
    cases current
    · exact .same rfl rfl rfl
    · exact historyAnswered_grants now result
  | lookUpTorrent id =>
    cases current
    · exact .same rfl rfl rfl
    · exact torrentAnswered_grants now id result
  | listBookmarks start =>
    cases current
    · exact .same rfl rfl rfl
    · exact bookmarksAnswered_grants now result

theorem requestAnswered_grants (result : Except MamFailure MamReply) (rotated : Option ApiCookie) :
    m.Grants registry (m.accepted (.mam (.answered result rotated)))
      (m.requestAnswered now result rotated registry).1 := by
  unfold Mam.requestAnswered
  split
  · next request sent epoch ho =>
    rw [accepted_answered m ho]
    dsimp only
    unfold Mam.answered
    generalize hf : (if (epoch == m.epoch) && request.needsCookie then
        Mam.followSession { m with outstanding := none } now request
        result else { m with outstanding := none }) = m₀
    have hm : m₀ = { m with outstanding := none, session := m₀.session } := by
      rw [← hf]
      split
      · exact followSession_frame _ now request result
      · rfl
    have h : m₀.Grants registry _ _ := applyAnswer_grants now request result (epoch == m.epoch)
    have hc : m₀.confirmedDownloadIp = m.confirmedDownloadIp := by rw [hm]
    have ha : m₀.acquisition = m.acquisition := by rw [hm]
    simp only [beq_iff_eq] at h
    exact ⟨fun ip hip => hc ▸ h.confirmed ip hip, fun id hid => ha ▸ h.fetched id hid,
      fun id ip hid => ha ▸ h.reapproved id ip hid⟩
  · exact .same rfl rfl rfl

end

section
variable (c : Core) (now : ClockReading) (event : Event)

theorem received_grants : c.mam.Grants c.registry (c.mam.accepted event) (c.received now event).mam := by
  rw [received_mam]
  by_cases hm : ∃ e, event = .mam e
  · obtain ⟨e, rfl⟩ := hm
    rw [dispatch_mam_eq]
    cases e with
    | answered result rotated => exact requestAnswered_grants now result rotated
    | ratioUseChecked =>
      simp only [Mam.handle, Mam.ratioUseChecked]
      split
      · exact followDownloads_grants now (.same rfl rfl rfl) rfl
      · exact .same rfl rfl rfl
    | registrationAttemptSaved =>
      simp only [Mam.handle, Mam.registrationAttemptSaved]
      split
      · split <;> exact .same rfl rfl rfl
      · exact .same rfl rfl rfl
    | registrationAttemptSaveFailed =>
      simp only [Mam.handle, Mam.registrationAttemptSaveFailed]
      split <;> exact .same rfl rfl rfl
    | _ => exact .same rfl rfl rfl
  · generalize hm' : ((c.note event).dispatch now event).1.mam = m'
    have hn : c.mam.Nudged m' := hm' ▸ dispatch_nudged (c.note event) now fun e he => hm ⟨e, he⟩
    cases hn with
    | same => exact .same rfl rfl rfl
    | switched =>
      refine ⟨fun ip h => ?_, fun id h => .inl h, fun id ip h => .inl h⟩
      cases h
    | reading => exact .same rfl rfl rfl
    | woken id =>
      refine .same ?_ ?_ ?_
      all_goals
        unfold Mam.timerExpired
        split <;> rfl

theorem connected_books :
    ((c.connected now event).confirmedDownloadIp = none ∧
      (c.connected now event).acquisition.newlyFetched = ∅ ∧
      (c.connected now event).acquisition.reapproved = ∅) ∨
    ((c.connected now event).epoch = c.mam.epoch ∧
      (c.connected now event).confirmedDownloadIp = (c.received now event).mam.confirmedDownloadIp ∧
      (c.connected now event).acquisition.newlyFetched =
      (c.received now event).mam.acquisition.newlyFetched ∧
      (c.connected now event).acquisition.reapproved =
      (c.received now event).mam.acquisition.reapproved) := by
  have hepoch := (received_mam_frame c now event).2.1
  unfold Core.connected Mam.connect
  obtain ⟨-, -, hg⟩ | ⟨-, hg⟩ :=
    remind_followGate now (c.received now event).mam (c.received now event).context
  · left
    obtain ⟨-, -, h⟩ | ⟨-, -, -, h⟩ | ⟨-, -, h⟩ := followCookie_cases
      (((c.received now event).mam.remind now).1.followGate (c.received now event).context)
      (c.received now event).context
    · rw [h]
      exact ⟨rfl, rfl, rfl⟩
    · rw [h, hg]
      exact ⟨rfl, rfl, rfl⟩
    · rw [h, hg]
      exact ⟨rfl, rfl, rfl⟩
  · obtain ⟨-, -, h⟩ | ⟨-, -, -, h⟩ | ⟨-, -, h⟩ := followCookie_cases
      (((c.received now event).mam.remind now).1.followGate (c.received now event).context)
      (c.received now event).context
    · rw [h]
      exact .inl ⟨rfl, rfl, rfl⟩
    · right
      rw [h, hg, remind_frame]
      exact ⟨hepoch, rfl, rfl, rfl⟩
    · right
      rw [h, hg, remind_frame]
      exact ⟨hepoch, rfl, rfl, rfl⟩

/-- A torrent counts as newly fetched while its row is active and qBittorrent has
not reported it. -/
theorem handle_newlyFetched {id : MamTorrentId}
    (h : (c.handle now event).1.mam.acquisition.newlyFetched.contains id) :
    (c.connected now event).acquisition.newlyFetched.contains id ∧
      ∀ records, (c.received now event).registry = .loaded records →
        (records.findMam id).any fun record => record.desired == .active &&
        record.observation.isNone := by
  have hs : (c.handle now event).1.mam.acquisition.newlyFetched =
      (c.surveyed now event).acquisition.newlyFetched := by
    obtain ⟨wake, hw⟩ := handle_mam c now event
    rw [hw, Core.sending, send_frame, prepared_eq]
    rfl
  rw [hs] at h
  unfold Core.surveyed at h
  simp only [Mam.survey] at h
  rw [followConnectability_frame] at h
  have hctx : (c.received now event).context.registry = (c.received now event).registry := rfl
  unfold Mam.watchDownloads at h
  rw [hctx] at h
  cases hr : (c.received now event).registry with
  | loaded records =>
    rw [hr] at h
    obtain ⟨hmem, hrow⟩ := Std.ExtTreeSet.mem_filter.mp h
    rw [Std.ExtTreeSet.get_eq] at hrow
    refine ⟨hmem, fun records' hl => ?_⟩
    cases hl
    exact hrow
  | _ =>
    rw [hr] at h
    exact ⟨h, fun records hl => by cases hl⟩

theorem handle_reapproved : (c.handle now event).1.mam.acquisition.reapproved =
    (c.connected now event).acquisition.reapproved := by
  obtain ⟨wake, hw⟩ := handle_mam c now event
  rw [hw, Core.sending, send_frame, Core.prepared, prepare_frame]
  rfl

end

/-! ## The books over a run -/

def Handled.fetches (e : Handled) (id : MamTorrentId) : Prop :=
  e.before.registry.isQueued id ∧
    ∃ wedge torrent, e.answer = some (.fetchTorrent id wedge, .ok (.fetched torrent))

/-- The event of a step shows a held download free on the IP MAM sees. -/
def Handled.reapproves (e : Handled) (id : MamTorrentId) (ip : IpAddr) : Prop :=
  (e.before.received e.input.occurredAt e.input.event).mam.Reapproves id ip

structure PermitInv (tr : List Handled) (c : Core) : Prop where
  confirmed : ∀ ip, c.mam.confirmedDownloadIp = some ip → ∃ g ∈ tr, g.before.mam.epoch = c.mam.epoch ∧
    ∃ r, g.answer = some (.registerSeedbox, .ok (.registered r ip))
  fetched : ∀ id, c.mam.acquisition.newlyFetched.contains id →
    ∃ g ∈ tr, g.before.mam.epoch = c.mam.epoch ∧
    g.fetches id
  reapproved : ∀ (id : MamTorrentId) (ip : IpAddr), c.mam.acquisition.reapproved[id]? = some ip →
    ∃ g ∈ tr, g.before.mam.epoch = c.mam.epoch ∧ g.reapproves id ip

theorem permitInv_init : PermitInv [] Core.new where
  confirmed := by intro ip h; cases h
  fetched := by
    intro id h
    simp [Core.new, Mam.new, Acquisition.new] at h
  reapproved := by
    intro id ip h
    simp [Core.new, Mam.new, Acquisition.new] at h

theorem permitInv_step {tr : List Handled} {c : Core} {i : TimedEvent} (hi : PermitInv tr c) :
    PermitInv (tr ++ [core.entry c i]) (core.step c i).1 := by
  have hg := received_grants c i.occurredAt i.event
  obtain ⟨-, -, hce, -, hcd⟩ := handle_cookies c i.occurredAt i.event
  have hra := handle_reapproved c i.occurredAt i.event
  obtain ⟨hc, hf, hr⟩ | ⟨hepoch, hc, hf, hr⟩ := connected_books c i.occurredAt i.event
  · refine ⟨fun ip h => ?_, fun id h => ?_, fun id ip h => ?_⟩
    · rw [core_step, hcd, hc] at h
      cases h
    · have hn := (handle_newlyFetched c i.occurredAt i.event h).1
      rw [hf] at hn
      simp at hn
    · rw [core_step, hra, hr] at h
      simp at h
  · have hsame : (core.step c i).1.mam.epoch = c.mam.epoch := hce.trans hepoch
    have hkeep {P : Handled → Prop} (h : ∃ g ∈ tr, P g) : ∃ g ∈ tr ++ [core.entry c i], P g := by
      obtain ⟨g, hg, hp⟩ := h
      exact ⟨g, List.mem_append_left _ hg, hp⟩
    have hnew {P : Handled → Prop} (h : P (core.entry c i)) : ∃ g ∈ tr ++ [core.entry c i], P g :=
      ⟨_, by simp, h⟩
    refine ⟨fun ip h => ?_, fun id h => ?_, fun id ip h => ?_⟩
    · rw [core_step, hcd, hc] at h
      rw [hsame]
      obtain h | h := hg.confirmed ip h
      · exact hkeep (hi.confirmed ip h)
      · exact hnew ⟨rfl, h⟩
    · have hn := (handle_newlyFetched c i.occurredAt i.event h).1
      rw [hf] at hn
      rw [hsame]
      obtain h | ⟨hq, h⟩ := hg.fetched id hn
      · exact hkeep (hi.fetched id h)
      · exact hnew ⟨rfl, hq, h⟩
    · rw [core_step, hra, hr] at h
      rw [hsame]
      obtain h | h := hg.reapproved id ip h
      · exact hkeep (hi.reapproved id ip h)
      · exact hnew ⟨rfl, h⟩

theorem permitInv_run (is : List TimedEvent) : PermitInv (core.run is) (core.last is) :=
  Reactive.run_invariant core (I := PermitInv) (H := fun _ => True) (fun _ _ h => h) permitInv_init
    (fun _ _ _ hi _ => permitInv_step hi) is trivial

/-! ## Commands of a step -/

section
variable {c : Core} {now : ClockReading} {event : Event}

theorem dispatch_no_command {command : TorrentCommand} :
    .qbittorrentCommand command ∉ ((c.note event).dispatch now event).2 := by
  intro h
  have hp := dispatch_parts (c.note event) now h
  cases event with
  | qbittorrent e =>
    simp only [Core.dispatch, Core.handleQbittorrent, Qbittorrent.handle, Qbittorrent.failed,
      Session.wait] at h
    split at h
    all_goals first | simp at h | (split at h <;> simp at h)
  | timerExpired name id =>
    cases name with
    | qbittorrentPoll =>
      simp only [Core.dispatch, Core.timerExpired, Qbittorrent.timerExpired] at h
      split at h
      all_goals first | simp at h | (split at h <;> simp at h)
    | _ => simp [Event.parts, Action.part, TimerName.part] at hp
  | _ => simp [Event.parts, Action.part] at hp

theorem setPreferences_no_command {s s' : Session} {wanted : Wanted} {out : List Action}
    {command : TorrentCommand}
    (h : s.setPreferences wanted = some (s', out)) : .qbittorrentCommand command ∉ out := by
  unfold Session.setPreferences at h
  split at h
  · cases h
    simp
  · split at h
    · cases h
      simp
    · cases h

theorem decide_command {ρ : Type} {q : Qbittorrent} {timers : Timers} {wanted : Wanted} {registry : ρ}
    {ask : ρ → Session → ρ × Option TorrentCommand} {command : TorrentCommand}
    (h : .qbittorrentCommand command ∈ (q.decide now timers wanted registry ask).2.2.2) :
    ∃ session, q.deciding = some (session, .sync) ∧ (ask registry session).2 = some command ∧
      (q.decide now timers wanted registry ask).1 = .connected { session with activity := .commanding } ∧
      (q.decide now timers wanted registry ask).2.2.1 = (ask registry session).1 := by
  unfold Qbittorrent.decide at h ⊢
  cases hd : q.deciding with
  | none => simp [hd] at h
  | some d =>
    obtain ⟨session, after⟩ := d
    rw [hd] at h
    dsimp only at h ⊢
    cases hp : session.setPreferences wanted with
    | some p =>
      obtain ⟨session', out⟩ := p
      rw [hp] at h
      exact absurd h (setPreferences_no_command hp)
    | none =>
      rw [hp] at h
      dsimp only at h ⊢
      cases after with
      | other => simp at h
      | sync =>
        dsimp only at h ⊢
        cases hc : ask registry session with
        | mk registry' command' =>
          rw [hc] at h
          cases command' with
          | some command' =>
            dsimp only at h
            rw [List.mem_singleton] at h
            cases h
            exact ⟨session, rfl, by rw [hc], rfl, by rw [hc]⟩
          | none =>
            exfalso
            dsimp only at h
            split at h
            · simp at h
            · simp [Session.wait] at h

theorem followPreferences_no_command {q : Qbittorrent} {wanted : Wanted} {command : TorrentCommand} :
    .qbittorrentCommand command ∉ (q.followPreferences wanted).2 := by
  intro h
  unfold Qbittorrent.followPreferences at h
  split at h
  · split at h
    · split at h
      · next hp => exact setPreferences_no_command hp h
      · cases h
    · cases h
  · cases h

/-- qBittorrent gets a command only from the rows, asked with the permissions the
step ends with. -/
theorem step_command {command : TorrentCommand}
    (h : .qbittorrentCommand command ∈ (c.handle now event).2) :
    ∃ records session, (c.received now event).registry = .loaded records ∧
      records.reconcile session (c.handle now event).1.mam.permitsDownload = some command ∧
      (c.handle now event).1.qbittorrent.session = some { session with activity := .commanding } ∧
      (c.handle now event).1.registry =
        .loaded (records.command session (c.handle now event).1.mam.permitsDownload now.monotonic).1 := by
  obtain h | h := handle_qbittorrent c now event h rfl
  · exact absurd h dispatch_no_command
  · have hperm : (c.handle now event).1.mam.permitsDownload =
        ((c.received now event).decideMam now).1.renewLease.1.mam.permitsDownload := by
      rw [handle_eq, decided_eq, decideQbittorrent_frame]
      rfl
    have hreg := handle_registry c now event
    have hq : (c.handle now event).1.qbittorrent =
        (((c.received now event).decideMam now).1.renewLease.1.decideQbittorrent now).1.qbittorrent := by
      rw [handle_eq, decided_eq]
    rw [hperm, hreg, hq]
    have hregistry : ((c.received now event).decideMam now).1.renewLease.1.registry =
        (c.received now event).registry := by
      rw [renewLease_frame, decideMam_eq]
    rw [← hregistry]
    generalize ((c.received now event).decideMam now).1.renewLease.1 = d at h ⊢
    simp only [Core.decideQbittorrent, List.mem_append] at h ⊢
    obtain h | h := h
    · obtain ⟨session, -, hask, hq', hr⟩ := decide_command h
      rw [hq', hr]
      cases hd : d.registry with
      | loaded records =>
        rw [hd] at hask
        simp only [Registry.command] at hask ⊢
        split at hask
        · next hl =>
          rw [if_pos hl]
          exact ⟨records, session, rfl, command_some hask, rfl, rfl⟩
        · cases hask
      | _ =>
        rw [hd] at hask
        cases hask
    · exact absurd h followPreferences_no_command

end

/-! ## Evidence that a download is free -/

def Handled.history (e : Handled) : Option (List WedgeSpent) :=
  match e.answer with
  | some (.wedgeHistory, .ok (.wedgeHistory spent)) => some spent
  | _ => none

theorem Handled.history_some {e : Handled} {spent : List WedgeSpent}
    (ha : e.answer = some (.wedgeHistory, .ok (.wedgeHistory spent))) : e.history = some spent := by
  unfold Handled.history
  rw [ha]

theorem Handled.history_other {e : Handled}
    (hno : ∀ spent, e.answer = some (.wedgeHistory, .ok (.wedgeHistory spent)) → False) :
    e.history = none := by
  unfold Handled.history
  split
  · next ha => exact (hno _ ha).elim
  · rfl

def latestHistory (tr : List Handled) : Option (List WedgeSpent) :=
  (tr.filterMap Handled.history).getLast?

/-- Flags of the torrent that a lookup answered or a bookmark listing completed
at most twenty minutes before the step showed. -/
def FlagsShown (tr : List Handled) (f : Handled) (id : MamTorrentId) (flags : Bookmark) : Prop :=
  (∃ g ∈ tr, g.answer = some (.lookUpTorrent id, .ok (.torrent (some flags))) ∧
    f.time ≤ g.time + watchFreshFor) ∨
    flags ∈ bookmarksOn (pages tr).latest ∧ flags.id = id ∧
      ∃ last, (pages tr).latest.getLast? = some last ∧ f.time ≤ last.time + watchFreshFor

/-- Why a download may transfer content in a step: a wedge the latest bonus
history lists, flags that make it free for the owner, or that its file was fetched
on this connection and qBittorrent has not reported it yet. -/
def FreeEvidence (tr : List Handled) (f : Handled) (records : Records) (id : MamTorrentId) : Prop :=
  (∃ spent, latestHistory tr = some spent ∧ id ∈ spent.map (·.torrent)) ∨
  (∃ flags data, FlagsShown tr f id flags ∧ f.after.mam.account.data = some data ∧
    freeForOwner flags data f.input.occurredAt.wall) ∨
  (∃ g ∈ tr, g.before.mam.epoch = f.after.mam.epoch ∧ g.fetches id) ∧
    ∃ row, records.findMam id = some row ∧ row.desired = .active ∧ row.observation = none

theorem latestHistory_snoc (tr : List Handled) (e : Handled) :
    latestHistory (tr ++ [e]) = (e.history <|> latestHistory tr) := by
  unfold latestHistory
  rw [List.filterMap_append, List.filterMap_cons, List.filterMap_nil]
  cases e.history with
  | none => simp
  | some spent => simp

theorem latestHistory_run (is : List TimedEvent) :
    (core.last is).mam.acquisition.history.map (·.wedged) =
      (latestHistory (core.run is)).map fun spent => Std.ExtTreeSet.ofList (spent.map (·.torrent)) := by
  -- on the run; the last step reads a history or leaves the one there was
  induction is using List.reverseRecOn with
  | nil => rfl
  | append_singleton is i ih =>
    rw [Reactive.last_snoc, Reactive.run_snoc, latestHistory_snoc, core_step, handle_acquisition]
    dsimp only
    rw [(received_receives (core.last is) i.occurredAt i.event).history]
    have ha : Handled.answer (core.entry (core.last is) i) = (core.last is).mam.accepted i.event := rfl
    unfold wedgesAnswered
    split
    · next hs =>
      rw [Handled.history_some (ha.trans hs)]
      rfl
    · next hno =>
      rw [Handled.history_other fun spent hs => hno spent (ha.symm.trans hs)]
      exact ih

section
variable {a : Acquisition} {download : Download} {data : Option UserData} {now : Instant}
  {wall : SystemTime}

theorem watch_free (h : (a.watch download data now wall).isFree) :
    (∃ history, a.history = some history ∧ history.wedged.contains download.mam) ∨
      ∃ flags seen data', a.current download.mam now watchFreshFor = some (some flags, seen) ∧
      data = some data' ∧
        freeForOwner flags data' wall := by
  unfold Acquisition.watch at h
  split at h
  · next hw => exact .inl (Option.any_eq_true _ _ |>.mp hw)
  · split at h
    · split at h <;> cases h
    · split at h
      · cases h
      · next listing seen hc =>
        split at h
        · next hf =>
          simp only [Option.any_eq_true] at hf
          obtain ⟨flags, rfl, data', hd, hf⟩ := hf
          exact .inr ⟨flags, seen, data', hc, hd, hf⟩
        · split at h <;> cases h

end

/-- The command makes qBittorrent transfer content of the torrent: it adds it,
selects all its files, or starts it before its end. -/
def TorrentCommand.Transfers (command : TorrentCommand) (session : Session) (hash : TorrentHash) : Prop :=
  match command with
  | .add _ hash' | .selectAllFiles hash' => hash' = hash
  | .start hashes => hash ∈ hashes ∧ session.torrents[hash]?.any fun torrent =>
      torrent.state == .stopped .incomplete || torrent.isPartial
  | _ => False

section
variable {r : Records} {session : Session} {permits : MamTorrentId → Bool} {command : TorrentCommand}
  {hash : TorrentHash}

theorem transfers_runs (ht : command.Transfers session hash) :
    hash ∈ command.runs ∧ ∀ hashes, command ≠ .forceStart hashes := by
  cases command with
  | add mam hash' => exact ⟨List.mem_singleton.mpr (Eq.symm ht), by simp⟩
  | selectAllFiles hash' => exact ⟨List.mem_singleton.mpr (Eq.symm ht), by simp⟩
  | start hashes => exact ⟨ht.1, by simp⟩
  | _ => exact ht.elim

theorem transfers_unfinished (h : r.reconcile session permits = some command)
    (ht : command.Transfers session hash) : session.unfinished hash := by
  unfold Session.unfinished
  obtain ⟨hruns, hforce⟩ := transfers_runs ht
  obtain hn | ⟨hash', rfl, hp⟩ | hm | rfl | ⟨hf, -⟩ := reconcile_cases h
  · rw [hn] at hruns
    cases hruns
  · cases ht
    unfold Records.partialHash at hp
    obtain ⟨row, -, hp⟩ := List.exists_of_findSome?_eq_some hp
    obtain ⟨hash', -, hp⟩ := Option.bind_eq_some_iff.mp hp
    obtain ⟨torrent, htor, hp⟩ := Option.bind_eq_some_iff.mp hp
    split at hp
    · next hc =>
      cases hp
      simp only [Bool.and_eq_true] at hc
      simp [htor, hc.1.2]
    · cases hp
  · unfold Records.missingCommand at hm
    obtain ⟨row, -, hm⟩ := List.exists_of_findSome?_eq_some hm
    split at hm
    · split at hm
      · next hc =>
        cases hm
        cases ht
        simp only [Bool.and_eq_true, Bool.not_eq_true', ← Bool.not_eq_true,
          Std.ExtTreeMap.contains_iff_mem] at hc
        simp [Std.ExtTreeMap.getElem?_eq_none hc.2]
      · cases hm
    · cases hm
  · obtain ⟨torrent, htor, hp⟩ := Option.any_eq_true _ _ |>.mp ht.2
    rw [htor]
    exact hp
  · exact absurd hf (hforce _)

end

section
variable {c : Core} {now : ClockReading} {event : Event}

theorem permits_cases {id : MamTorrentId} (h : (c.handle now event).1.mam.permitsDownload id) :
    (c.handle now event).1.mam.gate = .open' ∧
    (∃ state, (c.handle now event).1.mam.ratioGuard = .watching state) ∧
      (∃ at', (c.handle now event).1.mam.session = .verified at') ∧
      (∃ observed, (c.handle now event).1.mam.network.current = some observed ∧
        ((c.handle now event).1.mam.confirmedDownloadIp = some observed.ip ∨
          (c.handle now event).1.mam.acquisition.reapproved[id]? = some observed.ip)) ∧
      ((c.handle now event).1.mam.acquisition.newlyFetched.contains id ∨
        ∃ download watch, (download, watch) ∈ (c.surveyed now event).acquisition.watched ∧
        download.mam = id ∧
          watch.isFree) := by
  have hwatched : (c.handle now event).1.mam.acquisition.watched =
      (c.surveyed now event).acquisition.watched := by
    obtain ⟨wake, hw⟩ := handle_mam c now event
    rw [hw, Core.sending, send_frame, prepared_eq]
    rfl
  unfold Mam.permitsDownload at h
  split at h
  · cases h
  · next observed ho =>
    simp only [Bool.and_eq_true, Bool.or_eq_true, beq_iff_eq, List.any_eq_true, Prod.exists,
      hwatched] at h
    obtain ⟨⟨⟨⟨hg, hr⟩, hs⟩, hip⟩, hfree⟩ := h
    refine ⟨hg, ?_, ?_, ⟨observed, ho, hip⟩, hfree⟩
    · cases hrg : (c.handle now event).1.mam.ratioGuard with
      | watching state => exact ⟨state, rfl⟩
      | _ =>
        rw [hrg] at hr
        cases hr
    · split at hs
      · next at' hv => exact ⟨at', hv⟩
      · cases hs

theorem free_evidence {tr : List Handled} {i : TimedEvent}
    (he : EvidenceInv (tr ++ [core.entry c i]) (core.step c i).1)
    (hl : (core.step c i).1.mam.acquisition.history.map (·.wedged) =
      (latestHistory (tr ++ [core.entry c i])).map fun spent =>
      Std.ExtTreeSet.ofList (spent.map (·.torrent)))
    {download : Download} {watch : DownloadWatch}
    (hw : (download, watch) ∈ (c.surveyed i.occurredAt i.event).acquisition.watched)
    (hfree : watch.isFree) :
    (∃ spent, latestHistory (tr ++ [core.entry c i]) = some spent ∧
      download.mam ∈ spent.map (·.torrent)) ∨
      ∃ flags data, FlagsShown (tr ++ [core.entry c i]) (core.entry c i) download.mam flags ∧
        (core.entry c i).after.mam.account.data = some data ∧
        freeForOwner flags data i.occurredAt.wall := by
  obtain ⟨hb, hlook, hhist, hdata⟩ := surveyed_evidence c i.occurredAt i.event
  have hwatch := (surveyed_watched hw).1
  have hacc : (c.received i.occurredAt i.event).mam.account.data =
      (c.handle i.occurredAt i.event).1.mam.account.data := by
    rw [← hdata, surveyed_account]
    rfl
  rw [hwatch] at hfree
  obtain ⟨history, hh, hmem⟩ | ⟨flags, seen, data, hcur, hd, hf⟩ := watch_free hfree
  · left
    rw [hhist] at hh
    rw [core_step, hh] at hl
    obtain ⟨spent, hs, hwedged⟩ := Option.map_eq_some_iff.mp hl.symm
    refine ⟨spent, hs, ?_⟩
    have hwedged' : Std.ExtTreeSet.ofList (spent.map (·.torrent)) = history.wedged := hwedged
    rw [← hwedged'] at hmem
    simpa using hmem
  · right
    refine ⟨flags, data, ?_, hacc ▸ hd, hf⟩
    obtain ⟨hage, ⟨lookup, hl', hflags, hat⟩ | ⟨listed, bookmark, hlist, hmem, hid, hflags,
      htaken⟩⟩ := current_cases hcur
    · left
      rw [hlook] at hl'
      obtain ⟨g, hg, hans, htime⟩ := he.lookups _ lookup hl'
      rw [hflags] at hans
      refine ⟨g, hg, hans, ?_⟩
      rw [htime, hat]
      exact Instant.le_add_of_durationSince hage
    · right
      cases hflags
      rw [hb] at hlist
      obtain ⟨hbm, last, hlast, htime⟩ := he.bookmarks.latest listed hlist
      refine ⟨hbm ▸ hmem, hid, last, hlast, ?_⟩
      rw [htime, htaken]
      exact Instant.le_add_of_durationSince hage

end

theorem command_frame (r : Records) (session : Session) (permits : MamTorrentId → Bool) (now : Instant) :
    ∃ last, (r.command session permits now).1 = { r with lastCommand := last } := by
  unfold Records.command
  split
  · split <;> exact ⟨_, rfl⟩
  · exact ⟨_, rfl⟩

/-- Content of a MAM download is transferred only while MAM permits it, from an IP
MAM confirmed, and on evidence that it is free. -/
theorem transfers_permitted {is : List TimedEvent} (hread : ReadsDistinct is)
    {pre post : List Handled} {f : Handled}
    (hrun : core.run is = pre ++ f :: post) {command : TorrentCommand}
    (hcmd : .qbittorrentCommand command ∈ f.out)
    {session : Session} (hsession : f.after.qbittorrent.session = some session) {records : Records}
    (hreg : f.after.registry = .loaded records) {row : TorrentRecord} (hrow : row ∈ records.records)
    {mam : MamTorrentId} {hash : TorrentHash} (hid : row.identity = .linked mam hash)
    (ht : command.Transfers session hash) :
    f.after.mam.gate = .open' ∧ (∃ state, f.after.mam.ratioGuard = .watching state) ∧
      (∃ at', f.after.mam.session = .verified at') ∧
      (∃ observed, f.after.mam.network.current = some observed ∧
        ∃ g ∈ pre ++ [f], g.before.mam.epoch = f.after.mam.epoch ∧
          ((∃ r, g.answer = some (.registerSeedbox, .ok (.registered r observed.ip))) ∨
            g.reapproves mam observed.ip)) ∧
      FreeEvidence (pre ++ [f]) f records mam := by
  obtain ⟨js, i, ks, rfl, rfl, rfl, -⟩ := Reactive.run_split core hrun
  obtain ⟨records', session', hreg', hrec, hses, hreg''⟩ := step_command hcmd
  rw [entry_after] at hsession hreg
  rw [hses] at hsession
  rw [hreg''] at hreg
  cases hsession
  obtain ⟨last, hframe⟩ := command_frame records' session'
    ((core.last js).handle i.occurredAt i.event).1.mam.permitsDownload i.occurredAt.monotonic
  rw [hframe] at hreg hreg''
  cases hreg
  have hindexed : records'.Indexed := by
    have hlast : (core.last (js ++ [i])).registry = .loaded { records' with lastCommand := last } := by
      rw [Reactive.last_snoc, core_step, hreg'']
    have hread' : ReadsDistinct (js ++ [i]) := by
      intro j hj
      refine hread j ?_
      rw [List.mem_append, List.mem_singleton] at hj
      rw [List.mem_append, List.mem_cons]
      exact hj.imp_right .inl
    have hindexed := registry_indexed hread' hlast
    exact hindexed
  have ht' : command.Transfers session' hash := ht
  have hperm : ((core.last js).handle i.occurredAt i.event).1.mam.permitsDownload mam := by
    -- a command that transfers is no force start
    obtain hp | ⟨hf, -⟩ := reconcile_permitted hindexed hrec hrow hid (transfers_runs ht').1
      (transfers_unfinished hrec ht')
    · exact hp
    · exact absurd hf ((transfers_runs ht').2 _)
  have hp := permitInv_step (i := i) (permitInv_run js)
  have he := evidenceInv_step (i := i) (evidenceInv_run js)
  have hl := latestHistory_run (js ++ [i])
  rw [Reactive.last_snoc, Reactive.run_snoc] at hl
  obtain ⟨hgate, hguard, hsess, ⟨observed, ho, hip⟩, hfree⟩ := permits_cases hperm
  refine ⟨hgate, hguard, hsess, ⟨observed, ho, ?_⟩, ?_⟩
  · obtain hip | hip := hip
    · obtain ⟨g, hg, hepoch, r, hr⟩ := hp.confirmed observed.ip hip
      exact ⟨g, hg, hepoch, .inl ⟨r, hr⟩⟩
    · obtain ⟨g, hg, hepoch, hr⟩ := hp.reapproved mam observed.ip hip
      exact ⟨g, hg, hepoch, .inr hr⟩
  · obtain hnew | ⟨download, watch, hw, rfl, hwfree⟩ := hfree
    · right
      right
      refine ⟨hp.fetched mam hnew, ?_⟩
      have hrows := (handle_newlyFetched _ _ _ hnew).2 records' hreg'
      obtain ⟨row', hfind, hact⟩ := Option.any_eq_true _ _ |>.mp hrows
      simp only [Bool.and_eq_true, beq_iff_eq, Option.isNone_iff_eq_none] at hact
      exact ⟨row', hfind, hact.1, hact.2⟩
    · obtain h | h := free_evidence he hl hw hwfree
      · exact .inl h
      · exact .inr (.inl h)

def unreachableEvents : List TimedEvent :=
  -- a free bookmark is fetched while qBittorrent is reachable; it is then unreachable for an
  -- hour
  admittingEvents [] ++
    [replyAt 65 freePage, replyAt 66 (.fetched { hash := someHash, size := 10 }),
      .after 70 (.timerExpired .qbittorrentPoll 3), .after 71 (.qbittorrent (.syncFailed .unreachable)),
      .after 3700 (.timerExpired .qbittorrentPoll 7),
      .after 3701 (.qbittorrent (.connected (.release { major := 5, minor := 2, patch := 0 })
        { listenPort := none, interface := none, queue := none }))]

def syncedAgain : TimedEvent :=
  .after 3702 (.qbittorrent (.synced { position := 1, scope := .full, torrents := [], removed := [] }))

theorem fetched_torrent_added :
    ∃ records, (core.entry (core.last unreachableEvents) syncedAgain).after.registry =
      .loaded records ∧
    .qbittorrentCommand (.add 5 someHash) ∈ (core.entry (core.last unreachableEvents) syncedAgain).out ∧
    FreeEvidence (core.run unreachableEvents ++ [core.entry (core.last unreachableEvents) syncedAgain])
      (core.entry (core.last unreachableEvents) syncedAgain) records 5 := by
  have hcmd : .qbittorrentCommand (.add 5 someHash) ∈
      (core.entry (core.last unreachableEvents) syncedAgain).out := by
    decide +kernel
  have hrows : (core.entry (core.last unreachableEvents) syncedAgain).after.registry.records?.any
    fun records =>
      records.records.any fun row => row.identity == .linked 5 someHash := by decide +kernel
  have hsession : (core.entry (core.last unreachableEvents)
      syncedAgain).after.qbittorrent.session.isSome := by
    decide +kernel
  obtain ⟨session, hsession⟩ := Option.isSome_iff_exists.mp hsession
  obtain ⟨records, hr, hrows⟩ := Option.any_eq_true _ _ |>.mp hrows
  obtain ⟨row, hrow, hid⟩ := List.any_eq_true.mp hrows
  have hreg : (core.entry (core.last unreachableEvents) syncedAgain).after.registry =
      .loaded records := by
    generalize (core.entry (core.last unreachableEvents) syncedAgain).after.registry = g at hr ⊢
    cases g with
    | loaded r => rw [Option.some.inj hr]
    | _ => cases hr
  have hread : ReadsDistinct (unreachableEvents ++ [syncedAgain]) :=
    readsDistinct_of_short (by decide +kernel)
  exact ⟨records, hreg, hcmd,
    (transfers_permitted hread (Reactive.run_snoc core _ _) hcmd hsession hreg hrow
    (beq_iff_eq.mp hid) rfl).2.2.2.2⟩

/-- A torrent fetched an hour ago is added although nothing MAM said in the last
twenty minutes shows it free. -/
theorem added_an_hour_after_fetching :
    ∃ pre f post, core.run (unreachableEvents ++ [syncedAgain]) = pre ++ f :: post ∧
    Steady (core.run (unreachableEvents ++ [syncedAgain])) ∧
    .qbittorrentCommand (.add 5 someHash) ∈ f.out ∧
    ¬ ((∃ spent, latestHistory (pre ++ [f]) = some spent ∧ 5 ∈ spent.map (·.torrent)) ∨
      (∃ g ∈ pre ++ [f], ∃ flags data,
        Carries g 5 flags ∧ Handled.time f ≤ Handled.time g + watchFreshFor ∧
        f.after.mam.account.data = some data ∧ freeForOwner flags data f.input.occurredAt.wall) ∨
      ∃ g ∈ pre ++ [f], ∃ wedge cookie, .mamRequest (.fetchTorrent 5 wedge) cookie ∈ g.out ∧
        Handled.time f ≤ Handled.time g + watchFreshFor) := by
  refine ⟨_, _, [], Reactive.run_snoc core _ _, steady_iff.mpr (by decide +kernel), by decide +kernel, ?_⟩
  have hno : ∀ g ∈ core.run unreachableEvents ++ [core.entry (core.last unreachableEvents) syncedAgain],
      Handled.history g = none ∧ (Handled.answer g).map (·.1) ≠ some (.lookUpTorrent 5) ∧
      (syncedAgain.occurredAt.monotonic ≤ Handled.time g + watchFreshFor →
        (∀ b ∈ ((Handled.page g).map (·.bookmarks)).getD [], b.id ≠ 5) ∧
        ∀ p ∈ requests g.out, p.1 ≠ .fetchTorrent 5 .keep ∧ p.1 ≠ .fetchTorrent 5 .spend) := by
          decide +kernel
  rintro (⟨spent, hs, -⟩ | ⟨g, hg, flags, -, hans | ⟨page, hp, hmem, hid⟩, hage, -⟩ | ⟨g, hg, wedge,
    cookie, hreq, hage⟩)
  · have hnone : latestHistory (core.run unreachableEvents ++
      [core.entry (core.last unreachableEvents) syncedAgain]) =
        none := by decide +kernel
    rw [hnone] at hs
    cases hs
  · exact absurd (by rw [hans]; rfl) (hno g hg).2.1
  · exact ((hno g hg).2.2 hage).1 flags (by rw [hp]; exact hmem) hid
  · obtain ⟨hkeep, hspend⟩ := ((hno g hg).2.2 hage).2 _ (mem_requests.mpr hreq)
    cases wedge with
    | keep => exact hkeep rfl
    | spend => exact hspend rfl

end Windlass
