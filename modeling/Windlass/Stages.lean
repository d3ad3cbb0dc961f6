import Windlass.Steps

/-!
# The stages of deciding

Before it sends, a step follows the gate, the cookie, the connection and the
running downloads. Each stage is stated as an update of the fields it changes,
so that every other field can be read off.
-/

namespace Windlass

section
variable (m : Mam) (now : ClockReading) (context : Context)

theorem gateFor_open : m.gateFor context = .open' ↔
    m.hosts = .configured ∧ context.requests = .running ∧ context.protection = .isProtected := by
  unfold Mam.gateFor
  split
  · next h => simpa using h
  · next h => simpa using h

theorem followGate_cases :
    (m.gate = .open' ∧ m.gateFor context = .closed ∧
      m.followGate context = { m.disconnect with gate := .closed }) ∨
    ((m.gate = .open' → m.gateFor context = .open') ∧
      m.followGate context = { m with gate := m.gateFor context }) := by
  unfold Mam.followGate
  by_cases h : m.gate = .open' ∧ m.gateFor context = .closed
  · rw [if_pos h]
    exact .inl ⟨h.1, h.2, rfl⟩
  · rw [if_neg h]
    refine .inr ⟨fun hg => ?_, rfl⟩
    cases hc : m.gateFor context with
    | open' => rfl
    | closed => exact absurd ⟨hg, hc⟩ h

theorem followCookie_cases :
    (context.requestedCookie ≠ m.cookieInUse ∧ context.requestedCookie ≠ m.issuedCookie ∧
      m.followCookie context = m.replaceCookie context.requestedCookie) ∨
    ((context.requestedCookie = m.cookieInUse ∨ context.requestedCookie = m.issuedCookie) ∧
      context.cookie.isSome ∧ context.cookie = m.issuedCookie ∧
      m.followCookie context = { m with cookieInUse := m.issuedCookie, issuedCookie := none }) ∨
    ((context.requestedCookie = m.cookieInUse ∨ context.requestedCookie = m.issuedCookie) ∧
      (context.cookie.isSome → context.cookie ≠ m.issuedCookie) ∧ m.followCookie context = m) := by
  unfold Mam.followCookie
  by_cases h : context.requestedCookie ≠ m.cookieInUse ∧ context.requestedCookie ≠ m.issuedCookie
  · rw [if_pos h]
    exact .inl ⟨h.1, h.2, rfl⟩
  · rw [if_neg h]
    have hr : context.requestedCookie = m.cookieInUse ∨ context.requestedCookie = m.issuedCookie := by
      by_contra hn
      exact h (not_or.mp hn)
    by_cases hi : context.cookie.isSome ∧ context.cookie = m.issuedCookie
    · rw [if_pos hi]
      exact .inr (.inl ⟨hr, hi.1, hi.2, rfl⟩)
    · rw [if_neg hi]
      exact .inr (.inr ⟨hr, fun hs he => hi ⟨hs, he⟩, rfl⟩)

/-! ## Fields before the survey -/

theorem remind_frame : (m.remind now).1 =
    { m with lastReminder := (m.remind now).1.lastReminder, notices := (m.remind now).1.notices } := by
  rcases remind_cases m now with h | ⟨notices, h⟩
  · rw [h]
  · rw [h]

theorem followGate_frame : m.followGate context =
    { m with
      epoch := (m.followGate context).epoch
      session := (m.followGate context).session
      network := (m.followGate context).network
      seedbox := (m.followGate context).seedbox
      confirmedDownloadIp := (m.followGate context).confirmedDownloadIp
      acquisition :=
        { m.acquisition with
          newlyFetched := (m.followGate context).acquisition.newlyFetched
          reapproved := (m.followGate context).acquisition.reapproved }
      gate := m.gateFor context } := by
  obtain ⟨_, hc, h⟩ | ⟨_, h⟩ := followGate_cases m context
  · rw [h, hc]; rfl
  · rw [h]

theorem followCookie_frame : m.followCookie context =
    { m with
      cookieInUse := (m.followCookie context).cookieInUse
      issuedCookie := (m.followCookie context).issuedCookie
      epoch := (m.followCookie context).epoch
      session := (m.followCookie context).session
      seedbox := (m.followCookie context).seedbox
      confirmedDownloadIp := (m.followCookie context).confirmedDownloadIp
      acquisition :=
        { m.acquisition with
          refused := (m.followCookie context).acquisition.refused
          newlyFetched := (m.followCookie context).acquisition.newlyFetched
          reapproved := (m.followCookie context).acquisition.reapproved } } := by
  obtain ⟨_, _, h⟩ | ⟨_, _, _, h⟩ | ⟨_, _, h⟩ := followCookie_cases m context
  · rw [h]
    rfl
  · rw [h]
  · rw [h]

/-- What following the gate and the cookie leaves alone. -/
theorem connect_frame : m.connect now context =
    { m with
      lastReminder := (m.connect now context).lastReminder
      notices := (m.connect now context).notices
      gate := m.gateFor context
      epoch := (m.connect now context).epoch
      session := (m.connect now context).session
      network := (m.connect now context).network
      seedbox := (m.connect now context).seedbox
      confirmedDownloadIp := (m.connect now context).confirmedDownloadIp
      cookieInUse := (m.connect now context).cookieInUse
      issuedCookie := (m.connect now context).issuedCookie
      acquisition :=
        { m.acquisition with
          refused := (m.connect now context).acquisition.refused
          newlyFetched := (m.connect now context).acquisition.newlyFetched
          reapproved := (m.connect now context).acquisition.reapproved } } := by
  unfold Mam.connect
  rw [followCookie_frame, followGate_frame, remind_frame]
  rfl

theorem followGate_epoch : m.epoch ≤ (m.followGate context).epoch ∧
    (m.gate = .open' → m.gateFor context = .closed → m.epoch < (m.followGate context).epoch) := by
  obtain ⟨_, _, h⟩ | ⟨hg, h⟩ := followGate_cases m context
  · rw [h]
    exact ⟨Nat.le_succ m.epoch, fun _ _ => Nat.lt_succ_self m.epoch⟩
  · rw [h]
    exact ⟨le_rfl, fun ho hc => absurd (hg ho) (by rw [hc]; decide)⟩

theorem followCookie_epoch : m.epoch ≤ (m.followCookie context).epoch := by
  obtain ⟨_, _, h⟩ | ⟨_, _, _, h⟩ | ⟨_, _, h⟩ := followCookie_cases m context
  · rw [h]; exact Nat.le_succ m.epoch
  · rw [h]
  · rw [h]

theorem remind_epoch : (m.remind now).1.epoch = m.epoch := by rw [remind_frame]

theorem connect_epoch : m.epoch ≤ (m.connect now context).epoch ∧
    (m.gate = .open' → m.gateFor context = .closed → m.epoch < (m.connect now context).epoch) := by
  have hg := followGate_epoch (m.remind now).1 context
  have hc := followCookie_epoch ((m.remind now).1.followGate context) context
  rw [remind_frame] at hg
  refine ⟨?_, fun ho hcl => ?_⟩
  · exact le_trans hg.1 (by rw [← remind_frame]; exact hc)
  · exact lt_of_lt_of_le (hg.2 ho hcl) (by rw [← remind_frame]; exact hc)

theorem followGate_epoch_le : (m.followGate context).epoch ≤ m.epoch + 1 := by
  obtain ⟨_, _, h⟩ | ⟨_, h⟩ := followGate_cases m context
  · rw [h]
    exact le_refl _
  · rw [h]
    exact Nat.le_succ _

theorem followCookie_epoch_le : (m.followCookie context).epoch ≤ m.epoch + 1 := by
  obtain ⟨_, _, h⟩ | ⟨_, _, _, h⟩ | ⟨_, _, h⟩ := followCookie_cases m context
  · rw [h]
    exact le_refl _
  · rw [h]
    exact Nat.le_succ _
  · rw [h]
    exact Nat.le_succ _

theorem connect_epoch_le : (m.connect now context).epoch ≤ m.epoch + 2 := by
  have hg := followGate_epoch_le (m.remind now).1 context
  have hc := followCookie_epoch_le ((m.remind now).1.followGate context) context
  rw [remind_epoch] at hg
  exact hc.trans (Nat.succ_le_succ hg)

/-! ## The survey -/

theorem followConnectability_frame : m.followConnectability now context =
    { m with
      lease := (m.followConnectability now context).lease
      connectability := (m.followConnectability now context).connectability
      network := (m.followConnectability now context).network
      seedbox := (m.followConnectability now context).seedbox } := by
  unfold Mam.followConnectability
  dsimp only
  split <;> rfl

/-- A repair unconfirms the IP and the registration together. -/
theorem followConnectability_unconfirms :
    (m.followConnectability now context).network = m.network ∧
        (m.followConnectability now context).seedbox = m.seedbox ∨
      (m.followConnectability now context).network = m.network.unconfirm ∧
        (m.followConnectability now context).seedbox = m.seedbox.unconfirm := by
  unfold Mam.followConnectability
  dsimp only
  split
  · exact .inr ⟨rfl, rfl⟩
  · exact .inl ⟨rfl, rfl⟩

theorem watchDownloads_frame (registry : Registry) : (m.watchDownloads now registry).1 =
    { m with
      acquisition :=
        { m.acquisition with
          newlyFetched := (m.watchDownloads now registry).1.acquisition.newlyFetched
          watched := (m.watchDownloads now registry).1.acquisition.watched } } := by
  cases registry <;> rfl

theorem survey_frame : (m.survey now context).1 =
    { m with
      client := (m.survey now context).1.client
      lease := (m.survey now context).1.lease
      connectability := (m.survey now context).1.connectability
      network := (m.survey now context).1.network
      seedbox := (m.survey now context).1.seedbox
      acquisition :=
        { m.acquisition with
          newlyFetched := (m.survey now context).1.acquisition.newlyFetched
          watched := (m.survey now context).1.acquisition.watched }
      account := m.account.setPace (m.survey now context).1.account.pace } := by
  simp only [Mam.survey]
  rw [watchDownloads_frame, followConnectability_frame]
  rfl

theorem survey_unconfirms :
    (m.survey now context).1.network = m.network ∧ (m.survey now context).1.seedbox = m.seedbox ∨
      (m.survey now context).1.network = m.network.unconfirm ∧
        (m.survey now context).1.seedbox = m.seedbox.unconfirm := by
  simp only [Mam.survey]
  rw [watchDownloads_frame]
  exact followConnectability_unconfirms
    { m with client := m.account.clientStanding context.clientVersion } now context

/-! ## Prepared to send -/

theorem prepare_frame : (m.prepare now context).1 =
    { m.connect now context with
      client := (m.prepare now context).1.client
      lease := (m.prepare now context).1.lease
      connectability := (m.prepare now context).1.connectability
      network := (m.prepare now context).1.network
      seedbox := (m.prepare now context).1.seedbox
      acquisition :=
        { (m.connect now context).acquisition with
          newlyFetched := (m.prepare now context).1.acquisition.newlyFetched
          watched := (m.prepare now context).1.acquisition.watched
          hold := (m.prepare now context).1.acquisition.hold }
      account := m.account.setPace (m.prepare now context).1.account.pace } := by
  have ha : (m.connect now context).account = m.account := by rw [connect_frame]
  simp only [Mam.prepare, Mam.noteHold]
  rw [survey_frame, ha]
  rfl

@[simp] theorem prepare_outstanding : (m.prepare now context).1.outstanding = m.outstanding := by
  rw [prepare_frame, connect_frame]

@[simp] theorem prepare_hosts : (m.prepare now context).1.hosts = m.hosts := by
  rw [prepare_frame, connect_frame]

@[simp] theorem prepare_gate : (m.prepare now context).1.gate = m.gateFor context := by
  rw [prepare_frame, connect_frame]

theorem prepare_epoch : (m.prepare now context).1.epoch = (m.connect now context).epoch := by
  rw [prepare_frame]

end

/-! ## What an event leaves alone -/

section
variable (m : Mam) (now : ClockReading) (registry : Registry)

theorem followDownloads_frame : (m.followDownloads now registry).1 =
    { m with
      acquisition :=
        { m.acquisition with
          reapproved := (m.followDownloads now registry).1.acquisition.reapproved
          reported := (m.followDownloads now registry).1.acquisition.reported
          watched := (m.followDownloads now registry).1.acquisition.watched }
      notices := (m.followDownloads now registry).1.notices } := by
  cases registry <;> rfl

theorem followSession_frame (request : MamRequest) (result : Except MamFailure MamReply) :
    m.followSession now request result =
    { m with session := (m.followSession now request result).session } := by
  unfold Mam.followSession
  split
  · split <;> rfl
  · rfl
  · rfl

theorem fetched_frame (id : MamTorrentId) (wedge : Wedge) (result : Except MamFailure MamReply) :
    (m.fetched now id wedge result registry).1 =
      { m with
        acquisition :=
          { m.acquisition with
            fetching := none
            newlyFetched := (m.fetched now id wedge result registry).1.acquisition.newlyFetched
            refused := (m.fetched now id wedge result registry).1.acquisition.refused
            reapproved := (m.fetched now id wedge result registry).1.acquisition.reapproved
            reported := (m.fetched now id wedge result registry).1.acquisition.reported
            watched := (m.fetched now id wedge result registry).1.acquisition.watched }
        notices := (m.fetched now id wedge result registry).1.notices } := by
  unfold Mam.fetched
  dsimp only
  split
  · split
    · rfl
    · rw [followDownloads_frame]
      split <;> rfl
  · rfl
  · rfl

theorem listed_frame (page : BookmarkPage) : (m.listed now page registry).1 =
    { m with
      acquisition :=
        { m.acquisition with
          bookmarks := (m.acquisition.bookmarks.page now.monotonic now.wall page).1
          reapproved := (m.listed now page registry).1.acquisition.reapproved
          reported := (m.listed now page registry).1.acquisition.reported
          watched := (m.listed now page registry).1.acquisition.watched }
      notices := (m.listed now page registry).1.notices } := by
  unfold Mam.listed
  dsimp only
  split
  · generalize Registry.loaded _ = registry
    rw [followDownloads_frame]
  · rfl

theorem applyAnswer_frame (request : MamRequest) (result : Except MamFailure MamReply) (current : Bool) :
    (m.applyAnswer now request result current registry).1 =
      { m with
        network := (m.applyAnswer now request result current registry).1.network
        seedbox := (m.applyAnswer now request result current registry).1.seedbox
        account := (m.applyAnswer now request result current registry).1.account
        acquisition := (m.applyAnswer now request result current registry).1.acquisition
        ratioGuard := (m.applyAnswer now request result current registry).1.ratioGuard
        confirmedDownloadIp := (m.applyAnswer now request result current registry).1.confirmedDownloadIp
        notices := (m.applyAnswer now request result current registry).1.notices } := by
  unfold Mam.applyAnswer
  split
  · rfl
  · rw [fetched_frame]
  · unfold Mam.ipAnswered
    split <;> rfl
  · unfold Mam.registrationAnswered
    split <;> rfl
  · unfold Mam.userDataAnswered
    split
    · dsimp only
      rw [followDownloads_frame]
      rfl
    all_goals rfl
  · unfold Mam.historyAnswered
    split
    · rw [followDownloads_frame]
    all_goals rfl
  · unfold Mam.torrentAnswered
    split
    · dsimp only
      rw [followDownloads_frame]
    all_goals rfl
  · unfold Mam.bookmarksAnswered
    split
    · rw [listed_frame]
    all_goals rfl
  · rfl

theorem answered_frame (request : MamRequest) (result : Except MamFailure MamReply) (current : Bool) :
    (m.answered now request result current registry).1 =
      { m with
        session := (m.answered now request result current registry).1.session
        network := (m.answered now request result current registry).1.network
        seedbox := (m.answered now request result current registry).1.seedbox
        account := (m.answered now request result current registry).1.account
        acquisition := (m.answered now request result current registry).1.acquisition
        ratioGuard := (m.answered now request result current registry).1.ratioGuard
        confirmedDownloadIp := (m.answered now request result current registry).1.confirmedDownloadIp
        notices := (m.answered now request result current registry).1.notices } := by
  unfold Mam.answered
  split
  · rw [applyAnswer_frame, followSession_frame]
  · rw [applyAnswer_frame]

theorem ratioUseChecked_frame : (m.ratioUseChecked now registry).1 =
    { m with
      ratioGuard := (m.ratioUseChecked now registry).1.ratioGuard
      acquisition :=
        { m.acquisition with
          reapproved := (m.ratioUseChecked now registry).1.acquisition.reapproved
          reported := (m.ratioUseChecked now registry).1.acquisition.reported
          watched := (m.ratioUseChecked now registry).1.acquisition.watched }
      notices := (m.ratioUseChecked now registry).1.notices } := by
  unfold Mam.ratioUseChecked
  split
  · dsimp only
    rw [followDownloads_frame]
  · rfl

/-- No event opens the gate, replaces the cookie or starts another connection by
itself. -/
theorem mam_handle_frame (event : MamEvent) : (m.handle now event registry).1 =
    { m with
      hosts := (m.handle now event registry).1.hosts
      session := (m.handle now event registry).1.session
      network := (m.handle now event registry).1.network
      seedbox := (m.handle now event registry).1.seedbox
      account := (m.handle now event registry).1.account
      acquisition := (m.handle now event registry).1.acquisition
      outstanding := (m.handle now event registry).1.outstanding
      lastReminder := (m.handle now event registry).1.lastReminder
      ratioGuard := (m.handle now event registry).1.ratioGuard
      issuedCookie := (m.handle now event registry).1.issuedCookie
      confirmedDownloadIp := (m.handle now event registry).1.confirmedDownloadIp
      notices := (m.handle now event registry).1.notices } := by
  cases event with
  | ratioUseChecked =>
    simp only [Mam.handle]
    rw [ratioUseChecked_frame]
  | registrationAttemptSaved =>
    simp only [Mam.handle, Mam.registrationAttemptSaved]
    split
    · split <;> rfl
    · rfl
  | registrationAttemptSaveFailed =>
    simp only [Mam.handle, Mam.registrationAttemptSaveFailed]
    split <;> rfl
  | answered result rotated =>
    simp only [Mam.handle, Mam.requestAnswered]
    split
    · dsimp only
      rw [answered_frame]
    · rfl
  | _ => rfl

end

end Windlass
