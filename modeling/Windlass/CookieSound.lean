import Windlass.GateSound

/-!
# The API cookie: saved, in use and issued

Three places hold a cookie: the setting (`saved` and `requested`), MAM work
(`cookieInUse`) and the last value MAM issued (`issuedCookie`). `CookieInv`
relates them between steps. A removed cookie stays removed when the removal is
noticed, which needs an issued cookie on record: without one, `followCookie`
compares the removal with the missing issued cookie and takes it for that.
-/

namespace Windlass

/-! ## One setting -/

section
variable {α : Type} [DecidableEq α] (x : Setting α)

@[simp] theorem request_requested (v : α) : (x.request v).1.requested = v := by
  unfold Setting.request
  split
  · rfl
  · split <;> rfl

theorem request_write {v w : α} (h : (x.request v).2 = some w) : w = v := by
  unfold Setting.request at h
  split at h
  · cases h
  · split at h
    · cases h
    · exact (Option.some.inj h).symm

theorem request_idle {v : α} (h : (x.request v).1.persistence = .idle) : (x.request v).1.saved = v := by
  unfold Setting.request at h ⊢
  split at h
  · next hp => rw [hp] at h; cases h
  · split at h
    · next hv =>
      rw [if_pos hv]
      exact hv.symm
    · cases h

@[simp] theorem complete_requested (succeeded : Bool) :
    (x.complete succeeded).1.requested = x.requested := by
  unfold Setting.complete
  split
  · dsimp only
    split
    · rfl
    · exact request_requested _ _
  · rfl

theorem complete_write {succeeded : Bool} {w : α} (h : (x.complete succeeded).2 = some w) :
    w = x.requested := by
  unfold Setting.complete at h
  split at h
  · dsimp only at h
    split at h
    · cases h
    · exact request_write _ h
  · cases h

/-- Nothing is being saved only when what was asked for is saved. -/
def Setting.Settled : Prop := x.persistence = .idle → x.saved = x.requested

theorem request_settled (v : α) : (x.request v).1.Settled := fun h => by
  rw [request_idle x h, request_requested]

theorem complete_settled (hx : x.Settled) (succeeded : Bool) : (x.complete succeeded).1.Settled := by
  unfold Setting.complete
  split
  · next pending _ =>
    dsimp only
    split
    · next hp =>
      intro h
      cases succeeded with
      | true => exact hp
      | false => cases h
    · exact request_settled _ _
  · exact hx

/-- What was asked for changes only to the saved value, and only when the write
of a replacement is outstanding. -/
theorem replacementFailed_requested : x.replacementFailed.1.requested = x.requested ∨
    x.persistence = .pending x.requested ∧ x.replacementFailed.1.requested = x.saved := by
  unfold Setting.replacementFailed
  split
  · next pending hp =>
    split
    · next heq => exact .inr ⟨heq ▸ hp, rfl⟩
    · exact .inl (complete_requested x false)
  · exact .inl (complete_requested x false)

theorem replacementFailed_write {w : α} (h : x.replacementFailed.2 = some w) : w = x.requested := by
  unfold Setting.replacementFailed at h
  split at h
  · split at h
    · cases h
    · exact complete_write x h
  · exact complete_write x h

theorem replacementFailed_settled (hx : x.Settled) : x.replacementFailed.1.Settled := by
  unfold Setting.replacementFailed
  split
  · split
    · exact fun _ => rfl
    · exact complete_settled x hx false
  · exact complete_settled x hx false

end

/-! ## The cookie's setting -/

abbrev CookieSetting := Setting (Option ApiCookie)

def SettingsEvent.onCookie (e : SettingsEvent) (x : CookieSetting) :
    CookieSetting × Option (Option ApiCookie) :=
  match e with
  | .setApiCookie cookie => x.request (some cookie)
  | .clearApiCookie => x.request none
  | .apiCookieWritten | .rotatedApiCookieWritten => x.complete true
  | .apiCookieWriteFailed => x.complete false
  | .rotatedApiCookieWriteFailed => x.replacementFailed
  | _ => (x, none)

theorem onCookie_settled {x : CookieSetting} (hx : x.Settled) (e : SettingsEvent) :
    (e.onCookie x).1.Settled := by
  cases e with
  | setApiCookie cookie => exact request_settled x _
  | clearApiCookie => exact request_settled x _
  | apiCookieWritten => exact complete_settled x hx _
  | rotatedApiCookieWritten => exact complete_settled x hx _
  | apiCookieWriteFailed => exact complete_settled x hx _
  | rotatedApiCookieWriteFailed => exact replacementFailed_settled x hx
  | _ => exact hx

theorem onCookie_write {x : CookieSetting} {e : SettingsEvent} {w : Option ApiCookie}
    (h : (e.onCookie x).2 = some w) : w = x.requested ∨ e = .clearApiCookie ∧ w = none ∨
      ∃ cookie, e = .setApiCookie cookie ∧ w = some cookie := by
  cases e with
  | setApiCookie cookie => exact .inr (.inr ⟨cookie, rfl, request_write x h⟩)
  | clearApiCookie => exact .inr (.inl ⟨rfl, request_write x h⟩)
  | apiCookieWritten => exact .inl (complete_write x h)
  | rotatedApiCookieWritten => exact .inl (complete_write x h)
  | apiCookieWriteFailed => exact .inl (complete_write x h)
  | rotatedApiCookieWriteFailed => exact .inl (replacementFailed_write x h)
  | _ => cases h

theorem onCookie_requested (x : CookieSetting) (e : SettingsEvent) :
    (e.onCookie x).1.requested = x.requested ∨ e = .clearApiCookie ∧ (e.onCookie x).1.requested = none ∨
      (∃ cookie, e = .setApiCookie cookie) ∨
      e = .rotatedApiCookieWriteFailed ∧ x.persistence = .pending x.requested ∧
        (e.onCookie x).1.requested = x.saved := by
  cases e with
  | setApiCookie cookie => exact .inr (.inr (.inl ⟨cookie, rfl⟩))
  | clearApiCookie => exact .inr (.inl ⟨rfl, request_requested x none⟩)
  | apiCookieWritten => exact .inl (complete_requested x true)
  | rotatedApiCookieWritten => exact .inl (complete_requested x true)
  | apiCookieWriteFailed => exact .inl (complete_requested x false)
  | rotatedApiCookieWriteFailed =>
    obtain h | ⟨hp, h⟩ := replacementFailed_requested x
    · exact .inl h
    · exact .inr (.inr (.inr ⟨rfl, hp, h⟩))
  | _ => exact .inl rfl

theorem settings_handle_cookie (s : Settings) (e : SettingsEvent) :
    ∃ s' out, (SettingsState.loaded s).handle e = (.loaded s', out) ∧
    s'.apiCookie = (e.onCookie s.apiCookie).1 ∧
      (∀ k, .writeApiCookie k ∈ out → (e.onCookie s.apiCookie).2 = some k) ∧
      ∀ k, .writeRotatedApiCookie k ∉ out := by
  have hw (o : Option (Option ApiCookie)) :
      (∀ k, .writeApiCookie k ∈ (o.map Action.writeApiCookie).toList → o = some k) ∧
        ∀ k, .writeRotatedApiCookie k ∉ (o.map Action.writeApiCookie).toList := by
    cases o <;> simp
  cases e
  case read => exact ⟨s, [], rfl, rfl, by simp, by simp⟩
  case readFailed => exact ⟨s, [], rfl, rfl, by simp, by simp⟩
  case setApiCookie cookie => exact ⟨_, _, rfl, rfl, hw _⟩
  case clearApiCookie => exact ⟨_, _, rfl, rfl, hw _⟩
  case apiCookieWritten => exact ⟨_, _, rfl, rfl, hw _⟩
  case apiCookieWriteFailed => exact ⟨_, _, rfl, rfl, hw _⟩
  case rotatedApiCookieWritten => exact ⟨_, _, rfl, rfl, hw _⟩
  case rotatedApiCookieWriteFailed => exact ⟨_, _, rfl, rfl, hw _⟩
  all_goals
    refine ⟨_, _, rfl, rfl, ?_, ?_⟩
    · intro k hk
      simp [Settings.changeHistoryLimit, Settings.changeNtfyTopic, Settings.changePointsReserve,
        Settings.changeTorrentLimits] at hk
    · intro k hk
      simp [Settings.changeHistoryLimit, Settings.changeNtfyTopic, Settings.changePointsReserve,
        Settings.changeTorrentLimits] at hk

/-! ## What the event does to the cookies -/

def State.isEarly : State → Bool
  | .notStarted | .openingStorage _ => true
  | .readingMamPreference _ | .ready _ | .failed => false

theorem handleMamPause_isEarly (s : State) (e : MamPauseEvent) :
    (s.handleMamPause e).1.isEarly = s.isEarly := by
  cases s with
  | readingMamPreference requested =>
    cases e with
    | read mode => cases requested <;> rfl
    | _ => rfl
  | _ => cases e <;> rfl

theorem handleStartup_isEarly {s : State} {e : StartupEvent} (h : s.isEarly = false) :
    (s.handleStartup e).1 = s := by
  cases s with
  | notStarted => cases h
  | openingStorage requested => cases h
  | _ => cases e <;> rfl

def Mam.rotates (m : Mam) (event : Event) : Option ApiCookie :=
  match event, m.outstanding with
  | .mam (.answered _ rotated), some (.request request _ epoch) =>
    rotated.filter fun _ => epoch == m.epoch && request.needsCookie
  | _, _ => none

theorem rotates_some {m : Mam} {event : Event} {k : ApiCookie} (h : m.rotates event = some k) :
    ∃ request sent, m.outstanding = some (.request request sent m.epoch) ∧ request.needsCookie := by
  unfold Mam.rotates at h
  split at h
  · next request sent epoch hm =>
    obtain ⟨-, hk⟩ := Option.filter_eq_some_iff.mp h
    rw [Bool.and_eq_true, beq_iff_eq] at hk
    exact ⟨request, sent, hk.1 ▸ hm, hk.2⟩
  · cases h

theorem mam_handle_rotates (m : Mam) (now : ClockReading) (registry : Registry) (e : MamEvent) :
    (m.handle now e registry).2.2.2 = m.rotates (.mam e) ∧
      (m.handle now e registry).1.issuedCookie = (m.rotates (.mam e) <|> m.issuedCookie) := by
  cases e with
  | answered result rotated =>
    simp only [Mam.handle, Mam.requestAnswered, Mam.rotates]
    rcases hm : m.outstanding with _ | ⟨at', k, epoch⟩ | ⟨r, sent, epoch⟩
    · exact ⟨rfl, rfl⟩
    · exact ⟨rfl, rfl⟩
    · dsimp only
      rw [answered_frame]
      exact ⟨rfl, rfl⟩
  | ratioUseChecked =>
    simp only [Mam.handle]
    rw [ratioUseChecked_frame]
    exact ⟨rfl, rfl⟩
  | registrationAttemptSaved =>
    simp only [Mam.handle, Mam.registrationAttemptSaved]
    refine ⟨rfl, ?_⟩
    split
    · split <;> rfl
    · rfl
  | registrationAttemptSaveFailed =>
    simp only [Mam.handle, Mam.registrationAttemptSaveFailed]
    refine ⟨rfl, ?_⟩
    split <;> rfl
  | _ => exact ⟨rfl, rfl⟩

section
variable (c : Core) (now : ClockReading) (event : Event)

theorem received_issued :
    (c.received now event).mam.issuedCookie = (c.mam.rotates event <|> c.mam.issuedCookie) := by
  rw [received_mam]
  by_cases hm : ∃ e, event = .mam e
  · obtain ⟨e, rfl⟩ := hm
    rw [dispatch_mam_eq]
    exact (mam_handle_rotates _ now _ e).2
  · rw [(dispatch_nudged (c.note event) now fun e he => hm ⟨e, he⟩).frame]
    cases event with
    | mam e => exact absurd ⟨e, rfl⟩ hm
    | _ => rfl

def Core.cookieAfter (x : CookieSetting) : CookieSetting :=
  match event with
  | .settings e => (e.onCookie x).1
  | event =>
    match c.mam.rotates event with
    | some k => (x.request (some k)).1
    | none => x

theorem cookieAfter_requested (x : CookieSetting) : (c.cookieAfter event x).requested = x.requested ∨
    event = .settings .clearApiCookie ∧ (c.cookieAfter event x).requested = none ∨
    (∃ k, event = .settings (.setApiCookie k)) ∨
    (event = .settings .rotatedApiCookieWriteFailed ∧ x.persistence = .pending x.requested ∧
      (c.cookieAfter event x).requested = x.saved) ∨
    ∃ k, c.mam.rotates event = some k ∧ (c.cookieAfter event x).requested = some k := by
  unfold Core.cookieAfter
  split
  · next e =>
    obtain h | ⟨rfl, h⟩ | ⟨k, rfl⟩ | ⟨rfl, hp, h⟩ := onCookie_requested x e
    · exact .inl h
    · exact .inr (.inl ⟨rfl, h⟩)
    · exact .inr (.inr (.inl ⟨k, rfl⟩))
    · exact .inr (.inr (.inr (.inl ⟨rfl, hp, h⟩)))
  · split
    · next k hr => exact .inr (.inr (.inr (.inr ⟨k, hr, request_requested x _⟩)))
    · exact .inl rfl

theorem rotate_cookie (s : Settings) (k : ApiCookie) :
    ∃ s' out, (SettingsState.loaded s).rotate k = (.loaded s', out) ∧
    s'.apiCookie = (s.apiCookie.request (some k)).1 ∧ (∀ k', .writeApiCookie k' ∉ out) ∧
    ∀ k', .writeRotatedApiCookie k' ∈ out → k' = k := by
  refine ⟨_, _, rfl, rfl, ?_, ?_⟩
  · intro k' h
    simp at h
  · intro k' h
    simp only [Option.mem_toList, Option.map_eq_some_iff] at h
    obtain ⟨v, hv, hk⟩ := h
    cases hk
    cases hr : (s.apiCookie.request (some k)).2 with
    | none => rw [hr] at hv; cases hv
    | some w =>
      rw [hr, request_write _ hr] at hv
      exact (Option.some.inj hv).symm

/-- Loaded settings stay loaded, and the event's effect on the cookie is the one
`cookieAfter` describes. -/
theorem received_cookie {s : Settings} (hs : c.settings = .loaded s) (he : c.state.isEarly = false) :
    ∃ s', (c.received now event).settings = .loaded s' ∧
    s'.apiCookie = c.cookieAfter event s.apiCookie := by
  rw [received_settings]
  have hn : (c.note event).settings = .loaded s := hs
  cases event with
  | settings e =>
    obtain ⟨s', out, h, hk, -⟩ := settings_handle_cookie s e
    refine ⟨s', ?_, hk⟩
    simp only [Core.dispatch, Core.handleSettings, hn, h]
  | mam e =>
    simp only [Core.dispatch, Core.handleMam, Core.cookieAfter, (mam_handle_rotates _ now _ e).1]
    have hm : (c.note (.mam e)).mam = c.mam := rfl
    rw [hm]
    cases hr : c.mam.rotates (.mam e) with
    | none => exact ⟨s, hn, rfl⟩
    | some k =>
      obtain ⟨s', out, h, hk, -⟩ := rotate_cookie s k
      refine ⟨s', ?_, hk⟩
      dsimp only
      rw [hn, h]
  | startup e =>
    obtain ⟨-, h, -⟩ | ⟨h, -⟩ := handleStartup_eq (c.note (.startup e)) e
    · exact ⟨s, h.trans hn, rfl⟩
    · have : c.state.isOpeningStorage = true := h
      cases hst : c.state <;> simp_all [State.isOpeningStorage, State.isEarly]
  | timerExpired name id => cases name <;> exact ⟨s, hn, rfl⟩
  | _ => exact ⟨s, hn, rfl⟩

/-- Settings load in one way: by being read, with the saved cookie asked for. -/
theorem received_loaded {s' : Settings} (hs : c.settings.toLoaded = none)
    (h : (c.received now event).settings = .loaded s') : s'.apiCookie.Settled := by
  rw [received_settings] at h
  have hn : (c.note event).settings = c.settings := rfl
  have hsame : c.settings ≠ .loaded s' := by
    intro hl
    rw [hl] at hs
    cases hs
  cases event with
  | settings e =>
    simp only [Core.dispatch, Core.handleSettings, hn] at h
    cases hset : c.settings with
    | loaded s => rw [hset] at hs; cases hs
    | reading =>
      rw [hset] at h
      cases e with
      | read limit cookie topic reserve limits =>
        cases h
        exact fun _ => rfl
      | _ => cases h
    | _ => rw [hset] at h; cases e <;> cases h
  | mam e =>
    simp only [Core.dispatch, Core.handleMam, hn] at h
    split at h
    · cases hset : c.settings with
      | loaded s => rw [hset] at hs; cases hs
      | _ => rw [hset] at h; cases h
    · exact absurd h hsame
  | startup e =>
    obtain ⟨-, hk, -⟩ | ⟨-, -, -, hk, -⟩ := handleStartup_eq (c.note (.startup e)) e
    · exact absurd (hk.symm.trans h) hsame
    · have := hk.symm.trans h
      cases this
  | timerExpired name id => cases name <;> exact absurd h hsame
  | _ => exact absurd h hsame

/-- Settings are first read in a step that leaves the early states for good. -/
theorem received_started (hc : c.settings ≠ .unread → c.state.isEarly = false)
    (h : (c.received now event).settings ≠ .unread) : (c.received now event).state.isEarly = false := by
  rw [received_settings] at h
  rw [received_state]
  cases event with
  | startup e =>
    have hst := handleStartup_state (c.note (.startup e)) e
    obtain ⟨-, hk, -⟩ | ⟨-, hr, -⟩ := handleStartup_eq (c.note (.startup e)) e
    · have he := hc fun hu => h (hk.trans hu)
      have hs : ((c.note (.startup e)).state.handleStartup e).1 = c.state := handleStartup_isEarly he
      exact (congrArg State.isEarly (hst.trans hs)).trans he
    · simp only [Core.dispatch]
      cases hs : ((c.note (.startup e)).handleStartup e).1.state with
      | readingMamPreference requested => rfl
      | _ => rw [hs] at hr; cases hr
  | mamPause e =>
    simp only [Core.dispatch, Core.handleMamPause, handleMamPause_isEarly]
    exact hc h
  | settings e =>
    refine hc fun hu => h ?_
    have hn : (c.note (.settings e)).settings = .unread := hu
    simp only [Core.dispatch, Core.handleSettings, hn]
    cases e <;> rfl
  | mam e =>
    refine hc fun hu => h ?_
    have hn : (c.note (.mam e)).settings = .unread := hu
    simp only [Core.dispatch, Core.handleMam, hn]
    split <;> rfl
  | timerExpired name id => cases name <;> exact hc h
  | _ => exact hc h

end

/-! ## The invariant -/

def Outstanding.epoch : Outstanding → ConnectionEpoch
  | .savingRegistration _ _ epoch => epoch
  | .request _ _ epoch => epoch

def Outstanding.usesCookie (epoch : ConnectionEpoch) : Outstanding → Prop
  | .savingRegistration _ _ e => e = epoch
  | .request r _ e => e = epoch ∧ r.needsCookie

def Mam.SlotUnused (m : Mam) : Prop := ∀ slot, m.outstanding = some slot → ¬ slot.usesCookie m.epoch

structure CookieInv (c : Core) : Prop where
  started : c.settings ≠ .unread → c.state.isEarly = false
  settled : ∀ s, c.settings = .loaded s → s.apiCookie.Settled
  followed : c.context.requestedCookie = c.mam.cookieInUse ∨
    c.context.requestedCookie = c.mam.issuedCookie
  slot : ∀ slot, c.mam.outstanding = some slot → slot.epoch ≤ c.mam.epoch
  unused : c.mam.cookieInUse = none → c.mam.issuedCookie = none ∧ c.mam.SlotUnused

/-- Everything that following the gate and the cookie can do to the cookies. -/
theorem connect_cookie_cases (m : Mam) (now : ClockReading) (context : Context) :
    (context.requestedCookie ≠ m.cookieInUse ∧ context.requestedCookie ≠ m.issuedCookie ∧
      m.connect now context =
        ((m.remind now).1.followGate context).replaceCookie context.requestedCookie) ∨
    ((context.requestedCookie = m.cookieInUse ∨ context.requestedCookie = m.issuedCookie) ∧
      context.cookie.isSome ∧ context.cookie = m.issuedCookie ∧
      (m.connect now context).cookieInUse = m.issuedCookie ∧
      (m.connect now context).issuedCookie = none) ∨
    ((context.requestedCookie = m.cookieInUse ∨ context.requestedCookie = m.issuedCookie) ∧
      (context.cookie.isSome → context.cookie ≠ m.issuedCookie) ∧
      (m.connect now context).cookieInUse = m.cookieInUse ∧
      (m.connect now context).issuedCookie = m.issuedCookie) := by
  have hk : ((m.remind now).1.followGate context).cookieInUse = m.cookieInUse ∧
      ((m.remind now).1.followGate context).issuedCookie = m.issuedCookie := by
    rw [followGate_frame, remind_frame]
    exact ⟨rfl, rfl⟩
  unfold Mam.connect
  obtain ⟨hr, hi, h⟩ | ⟨hr, hc, hi, h⟩ | ⟨hr, hc, h⟩ :=
    followCookie_cases ((m.remind now).1.followGate context) context
  · rw [hk.1] at hr
    rw [hk.2] at hi
    exact .inl ⟨hr, hi, h⟩
  · rw [hk.1, hk.2] at hr
    rw [hk.2] at hi
    rw [h]
    exact .inr (.inl ⟨hr, hc, hi, hk.2, rfl⟩)
  · rw [hk.1, hk.2] at hr
    rw [hk.2] at hc
    rw [h]
    exact .inr (.inr ⟨hr, hc, hk.1, hk.2⟩)

section
variable (c : Core) (now : ClockReading) (event : Event)

def Core.connected : Mam := (c.received now event).mam.connect now (c.received now event).context

theorem handle_cookies : (c.handle now event).1.mam.cookieInUse = (c.connected now event).cookieInUse ∧
    (c.handle now event).1.mam.issuedCookie = (c.connected now event).issuedCookie ∧
    (c.handle now event).1.mam.epoch = (c.connected now event).epoch ∧
    (c.handle now event).1.mam.session = (c.connected now event).session ∧
    (c.handle now event).1.mam.confirmedDownloadIp = (c.connected now event).confirmedDownloadIp := by
  obtain ⟨wake, h⟩ := handle_mam c now event
  rw [h, Core.sending, send_frame, Core.prepared, prepare_frame]
  exact ⟨rfl, rfl, rfl, rfl, rfl⟩

theorem planned_cookie : (c.planned now event).cookie =
    (c.connected now event).usableCookie (c.received now event).context := rfl

theorem handle_requestedCookie :
    (c.handle now event).1.context.requestedCookie = (c.received now event).context.requestedCookie := by
  simp only [Core.context, (handle_frame c now event).2.1]

variable {c}

theorem context_cookie {k : ApiCookie} (hc : ∀ s, c.settings = .loaded s → s.apiCookie.Settled)
    (h : c.context.cookie = some k) : c.context.requestedCookie = some k := by
  cases hs : c.settings with
  | loaded s =>
    simp only [Core.context, hs, SettingsState.toLoaded, Option.bind_some,
      Settings.usableApiCookie] at h ⊢
    split at h
    · next hp => rw [← hc s hs hp, h]
    · cases h
  | _ => simp only [Core.context, hs, SettingsState.toLoaded, Option.bind_none] at h; cases h

variable {now event}

theorem planned_cookie_some {k : ApiCookie} (h : (c.planned now event).cookie = some k) :
    (c.received now event).context.cookie = some k ∧
      (c.connected now event).session.blocks (c.connected now event).network.current = false := by
  rw [planned_cookie, Mam.usableCookie, Option.filter_eq_some_iff] at h
  exact ⟨h.1, by simpa using h.2⟩

theorem CookieInv.received_settled (hc : CookieInv c) :
    ∀ s, (c.received now event).settings = .loaded s → s.apiCookie.Settled := by
  intro s' hs'
  cases hs : c.settings with
  | loaded s =>
    obtain ⟨s'', hl, hk⟩ := received_cookie c now event hs (hc.started (by rw [hs]; simp))
    rw [hl] at hs'
    cases hs'
    rw [hk]
    have hx := hc.settled s hs
    unfold Core.cookieAfter
    split
    · exact onCookie_settled hx _
    · split
      · exact request_settled _ _
      · exact hx
  | _ => exact received_loaded c now event (by rw [hs]; rfl) hs'

theorem slotAfter_epoch (hc : CookieInv c) {slot : Outstanding}
    (h : c.mam.slotAfter now event = some slot) :
    slot.epoch ≤ c.mam.epoch := by
  unfold Mam.slotAfter at h
  split at h
  · next hm =>
    split at h
    · cases h
    · cases h
      exact hc.slot (.savingRegistration _ _ _) hm
  · cases h
  · cases h
  · exact hc.slot _ h

theorem slotAfter_unused (hu : c.mam.SlotUnused) {slot : Outstanding}
    (h : c.mam.slotAfter now event = some slot) : ¬ slot.usesCookie c.mam.epoch := by
  unfold Mam.slotAfter at h
  split at h
  · next hm =>
    split at h
    · cases h
    · next heq => exact absurd (not_not.mp heq) (hu _ hm)
  · cases h
  · cases h
  · exact hu _ h

theorem rotates_unused (event : Event) (hu : c.mam.SlotUnused) : c.mam.rotates event = none := by
  cases hr : c.mam.rotates event with
  | none => rfl
  | some k =>
    obtain ⟨request, sent, hm, hn⟩ := rotates_some hr
    exact absurd ⟨rfl, hn⟩ (hu _ hm)

theorem slot_unused_of_no_cookie (hp : (c.planned now event).cookie = none)
    (hslot : c.mam.slotAfter now event = none) {slot : Outstanding}
    (h : (c.handle now event).1.mam.outstanding = some slot) (epoch : ConnectionEpoch) :
    ¬ slot.usesCookie epoch := by
  obtain ⟨hn, -⟩ | ⟨k, -, -, hk, -⟩ | ⟨r, hr, -, hw, -⟩ := slot_empty c now event hslot
  · rw [hn] at h
    cases h
  · rw [hp] at hk
    cases hk
  · rw [hr] at h
    cases h
    obtain ⟨rfl, -⟩ | ⟨hk, -⟩ := wanted_cases hw
    · rintro ⟨-, hn⟩
      cases hn
    · rw [hp] at hk
      cases hk

end

theorem cookieInv_init : CookieInv Core.new where
  started := by intro h; exact absurd rfl h
  settled := by intro s h; cases h
  followed := .inl rfl
  slot := by intro slot h; cases h
  unused := by
    intro _
    refine ⟨rfl, ?_⟩
    intro slot h
    cases h

section
variable {c : Core} (now : ClockReading) (event : Event) (hc : CookieInv c)
include hc

theorem followed_step :
    (c.handle now event).1.context.requestedCookie = (c.handle now event).1.mam.cookieInUse ∨
    (c.handle now event).1.context.requestedCookie = (c.handle now event).1.mam.issuedCookie := by
  obtain ⟨hu, hi, -⟩ := handle_cookies c now event
  rw [handle_requestedCookie, hu, hi]
  obtain ⟨-, -, h⟩ | ⟨-, hk, hck, h, -⟩ | ⟨hr, -, h, h'⟩ :=
    connect_cookie_cases (c.received now event).mam now (c.received now event).context
  · left
    rw [Core.connected, h]
    rfl
  · left
    obtain ⟨k, hk⟩ := Option.isSome_iff_exists.mp hk
    rw [Core.connected, h, ← hck, hk]
    exact context_cookie hc.received_settled hk
  · rw [Core.connected, h, h']
    exact hr

theorem slot_step : ∀ slot, (c.handle now event).1.mam.outstanding = some slot →
    slot.epoch ≤ (c.handle now event).1.mam.epoch := by
  intro slot h
  cases hslot : c.mam.slotAfter now event with
  | some slot' =>
    rw [(slot_taken c now event hslot).1] at h
    cases h
    exact le_trans (slotAfter_epoch hc hslot) (epoch_step c now event).1
  | none =>
    obtain ⟨hn, -⟩ | ⟨k, hk, -⟩ | ⟨r, hr, -⟩ := slot_empty c now event hslot
    · rw [hn] at h; cases h
    · rw [hk] at h; cases h; exact le_rfl
    · rw [hr] at h; cases h; exact le_rfl

theorem slotUnused_step
    (hu : ∀ slot, c.mam.slotAfter now event = some slot → ¬ slot.usesCookie c.mam.epoch)
    (hp : (c.planned now event).cookie = none) : (c.handle now event).1.mam.SlotUnused := by
  have hep := (epoch_step c now event).1
  intro slot hs
  cases hslot : c.mam.slotAfter now event with
  | some slot' =>
    rw [(slot_taken c now event hslot).1] at hs
    cases hs
    have hle := slotAfter_epoch hc hslot
    have hno := hu _ hslot
    intro huse
    cases slot with
    | savingRegistration at' k e => exact hno (le_antisymm hle (huse ▸ hep))
    | request r sent e => exact hno ⟨le_antisymm hle (huse.1 ▸ hep), huse.2⟩
  | none => exact slot_unused_of_no_cookie hp hslot hs _

theorem planned_none (hr : (c.received now event).context.requestedCookie = none) :
    (c.planned now event).cookie = none := by
  cases hp : (c.planned now event).cookie with
  | none => rfl
  | some k =>
    have := context_cookie hc.received_settled (planned_cookie_some hp).1
    rw [hr] at this
    cases this

theorem unused_step (hu : (c.handle now event).1.mam.cookieInUse = none) :
    (c.handle now event).1.mam.issuedCookie = none ∧ (c.handle now event).1.mam.SlotUnused := by
  obtain ⟨hcu, hci, hce, -⟩ := handle_cookies c now event
  obtain ⟨-, hepoch, hinuse⟩ := received_mam_frame c now event
  obtain ⟨-, -, h⟩ | ⟨-, hk, hck, h, -⟩ | ⟨hr, -, h, h'⟩ :=
    connect_cookie_cases (c.received now event).mam now (c.received now event).context
  · -- the owner removed the cookie: another connection starts
    have hreq : (c.received now event).context.requestedCookie = none := by
      rw [← hu, hcu, Core.connected, h]
      rfl
    have hlt : c.mam.epoch < (c.handle now event).1.mam.epoch := by
      have hg := (followGate_epoch ((c.received now event).mam.remind now).1
        (c.received now event).context).1
      rw [remind_epoch, hepoch] at hg
      rw [hce, Core.connected, h]
      exact Nat.lt_succ_of_le hg
    refine ⟨?_, fun slot hs => ?_⟩
    · rw [hci, Core.connected, h]
      rfl
    · cases hslot : c.mam.slotAfter now event with
      | some slot' =>
        rw [(slot_taken c now event hslot).1] at hs
        cases hs
        have hle := lt_of_le_of_lt (slotAfter_epoch hc hslot) hlt
        intro huse
        cases slot with
        | savingRegistration at' k e => exact absurd huse (ne_of_lt hle)
        | request r sent e => exact absurd huse.1 (ne_of_lt hle)
      | none => exact slot_unused_of_no_cookie (planned_none now event hc hreq) hslot hs _
  · rw [Core.connected] at hcu
    rw [hcu, h, ← hck] at hu
    rw [hu] at hk
    cases hk
  · have hnone : c.mam.cookieInUse = none := by
      rw [← hinuse, ← h, ← hu, hcu]
      rfl
    have hrot := rotates_unused event (hc.unused hnone).2
    have hissued : (c.received now event).mam.issuedCookie = none := by
      rw [received_issued, hrot, (hc.unused hnone).1]
      rfl
    have hreq : (c.received now event).context.requestedCookie = none := by
      rw [hinuse, hnone, hissued] at hr
      exact hr.elim id id
    refine ⟨?_, slotUnused_step now event hc (fun _ => slotAfter_unused (hc.unused hnone).2)
      (planned_none now event hc hreq)⟩
    rw [hci, Core.connected, h', hissued]

theorem cookieInv_step : CookieInv (c.handle now event).1 where
  started := by
    rw [(handle_frame c now event).1, (handle_frame c now event).2.1]
    exact received_started c now event hc.started
  settled := by
    rw [(handle_frame c now event).2.1]
    exact hc.received_settled
  followed := followed_step now event hc
  slot := slot_step now event hc
  unused := unused_step now event hc

end

theorem cookieInv_last (is : List TimedEvent) : CookieInv (core.last is) :=
  Reactive.last_invariant core cookieInv_init (fun _ i h => cookieInv_step i.occurredAt i.event h) is

/-! ## Writes of the cookie -/

section
variable {c : Core} {now : ClockReading} {event : Event}

theorem dispatch_writes {a : Action} (ha : a ∈ ((c.note event).dispatch now event).2)
    (hw : (∃ k, a = .writeApiCookie k) ∨ ∃ k, a = .writeRotatedApiCookie k) :
    (∃ e, event = .settings e ∧ a ∈ (c.settings.handle e).2) ∨
      ∃ k, c.mam.rotates event = some k ∧ a ∈ (c.settings.rotate k).2 := by
  have hp : a.part = .settings := by obtain ⟨k, rfl⟩ | ⟨k, rfl⟩ := hw <;> rfl
  have hno {part : Part} {out : List Action} (he : Emits part out) (hne : part ≠ .settings) : a ∉ out :=
    fun h => hne ((he a h).symm.trans hp)
  cases event with
  | settings e => exact .inl ⟨e, rfl, ha⟩
  | mam e =>
    right
    simp only [Core.dispatch, Core.handleMam, (mam_handle_rotates _ now _ e).1, List.mem_append] at ha
    have hm : (c.note (.mam e)).mam = c.mam := rfl
    rw [hm] at ha
    obtain ha | ha := ha
    -- the saved attempt is sent at once, and asks nothing of storage
    · by_cases he : e = .registrationAttemptSaved
      · subst he
        simp only [Mam.handle, Mam.registrationAttemptSaved] at ha
        split at ha
        · split at ha
          · cases ha
          · rw [List.mem_singleton] at ha
            subst ha
            cases hp
        · cases ha
      · obtain hr | ⟨guard, rfl⟩ := mam_handle_books _ now _ he a ha
        · rw [hp] at hr
          cases hr
        · cases hp
    · cases hr : c.mam.rotates (.mam e) with
      | none => rw [hr] at ha; cases ha
      | some k =>
        rw [hr] at ha
        exact ⟨k, rfl, ha⟩
  | startup e =>
    exfalso
    simp only [Core.dispatch, Core.handleStartup, List.mem_append] at ha
    obtain ha | ha := ha
    · exact hno (startup_emits _ e) (by decide) ha
    · split at ha
      · simp only [Core.startReading, SettingsState.startReading, HistoryState.openStorage,
          Registry.startReading,
          Tunnel.startReading, Mam.startReading, List.mem_append, List.mem_singleton] at ha
        obtain ⟨k, rfl⟩ | ⟨k, rfl⟩ := hw <;> simp at ha
      · cases ha
  | mamPause e => exact absurd ha (hno (mamPause_emits _ e) (by decide))
  | history e => cases ha
  | timerExpired name id =>
    cases name with
    | portLease => exact absurd ha (hno (portForwarding_timerExpired_emits _ id) (by decide))
    | qbittorrentPoll => exact absurd ha (hno (qbittorrent_timerExpired_emits _ id) (by decide))
    | tunnelCheck => exact absurd ha (hno (tunnel_timerExpired_emits _ now id) (by decide))
    | _ => cases ha
  | portForwarding e =>
    exfalso
    simp only [Core.dispatch, Core.handlePortForwarding, List.mem_append] at ha
    obtain ha | ha := ha
    · exact hno (portForwarding_handle_emits _ now e _) (by decide) ha
    · split at ha
      · exact hno (tunnel_suspect_emits _ now) (by decide) ha
      · cases ha
  | qbittorrent e => exact absurd ha (hno (qbittorrent_handle_emits _ now e _) (by decide))
  | registry e => exact absurd ha (hno (registry_handle_emits _ _ e) (by decide))
  | tunnel e =>
    exfalso
    simp only [Core.dispatch, Core.handleTunnel, List.mem_append] at ha
    obtain ha | ha := ha
    · exact hno (tunnel_handle_emits _ now e _) (by decide) ha
    · split at ha
      · exact hno (renew_emits _) (by decide) ha
      · cases ha
  | notification e => exact absurd ha (hno (notifications_handle_emits _ now e _) (by decide))

/-- The cookie is written by a settings event, as the setting asks, or because an
answer issued a new one. -/
theorem step_writes {s : Settings} (hs : c.settings = .loaded s) :
    (∀ k, .writeApiCookie k ∈ (c.handle now event).2 →
      ∃ e, event = .settings e ∧ (e.onCookie s.apiCookie).2 = some k) ∧
    ∀ k, .writeRotatedApiCookie k ∈ (c.handle now event).2 → c.mam.rotates event = some k := by
  refine ⟨fun k hk => ?_, fun k hk => ?_⟩
  · obtain ⟨e, rfl, ha⟩ | ⟨k', -, ha⟩ :=
      dispatch_writes (handle_settings c now event hk rfl) (.inl ⟨k, rfl⟩)
    · obtain ⟨s', out, hout, -, hw, -⟩ := settings_handle_cookie s e
      rw [hs, hout] at ha
      exact ⟨e, rfl, hw k ha⟩
    · obtain ⟨s', out, hout, -, hw, -⟩ := rotate_cookie s k'
      rw [hs, hout] at ha
      exact absurd ha (hw k)
  · obtain ⟨e, rfl, ha⟩ | ⟨k', hr, ha⟩ :=
      dispatch_writes (handle_settings c now event hk rfl) (.inr ⟨k, rfl⟩)
    · obtain ⟨s', out, hout, -, -, hw⟩ := settings_handle_cookie s e
      rw [hs, hout] at ha
      exact absurd ha (hw k)
    · obtain ⟨s', out, hout, -, -, hw⟩ := rotate_cookie s k'
      rw [hs, hout] at ha
      rw [hw k ha]
      exact hr

end

/-! ## A removed cookie -/

structure Cleared (c : Core) : Prop where
  inv : CookieInv c
  requested : ∃ s, c.settings = .loaded s ∧ s.apiCookie.requested = none
  unused : c.mam.cookieInUse = none

def Core.removesCookie (c : Core) : Prop :=
  ∃ s, c.settings = .loaded s ∧ s.apiCookie.persistence = .pending none

/-- The step keeps the cookie removed: it asks for none, sends none and writes
none. -/
def WithoutCookie (e : Reactive.Entry Core TimedEvent Action) : Prop :=
  (∃ s, e.after.settings = .loaded s ∧ s.apiCookie.requested = none) ∧
    (∀ request k, .mamRequest request (some k) ∉ e.out) ∧ (∀ k, .writeApiCookie (some k) ∉ e.out) ∧
    ∀ k, .writeRotatedApiCookie k ∉ e.out

section
variable {c : Core} {i : TimedEvent}

theorem without_requests (hc : CookieInv c)
    (hr : (c.received i.occurredAt i.event).context.requestedCookie = none)
    (hs : i.event = .mam .registrationAttemptSaved → c.mam.cookieInUse = none) :
    ∀ request k, .mamRequest request (some k) ∉ (c.handle i.occurredAt i.event).2 := by
  intro request k hreq
  obtain ⟨hev, -, at', k', hm, -⟩ | ⟨-, -, -, hk⟩ := request_cases hreq
  · exact (hc.unused (hs hev)).2 _ hm rfl
  · rw [planned_none i.occurredAt i.event hc hr] at hk
    cases hk

theorem received_requested {s' : Settings}
    (hs : (c.received i.occurredAt i.event).settings = .loaded s') :
    (c.received i.occurredAt i.event).context.requestedCookie = s'.apiCookie.requested := by
  simp only [Core.context, hs, SettingsState.toLoaded, Option.bind_some]

theorem cleared_step (hc : Cleared c) (hset : ∀ k, i.event ≠ .settings (.setApiCookie k))
    (hf : i.event = .settings .rotatedApiCookieWriteFailed → ¬ c.removesCookie) :
    Cleared (c.handle i.occurredAt i.event).1 ∧ WithoutCookie (core.entry c i) := by
  obtain ⟨s, hs, hreq⟩ := hc.requested
  have hearly := hc.inv.started (by rw [hs]; simp)
  obtain ⟨s', hs', hk'⟩ := received_cookie c i.occurredAt i.event hs hearly
  have hrot := rotates_unused i.event (hc.inv.unused hc.unused).2
  have hreq' : s'.apiCookie.requested = none := by
    rw [hk']
    -- of the ways a cookie comes to be asked for, the hypotheses leave none
    obtain h | ⟨-, h⟩ | ⟨k, hev⟩ | ⟨hev, hp, -⟩ | ⟨k, hk, -⟩ :=
      cookieAfter_requested c i.event s.apiCookie
    · exact h.trans hreq
    · exact h
    · exact absurd hev (hset k)
    · exact absurd ⟨s, hs, by rw [hp, hreq]⟩ (hf hev)
    · rw [hrot] at hk
      cases hk
  have hctx : (c.received i.occurredAt i.event).context.requestedCookie = none := by
    rw [received_requested hs', hreq']
  have hfinal : (c.handle i.occurredAt i.event).1.settings = .loaded s' := by
    rw [(handle_frame c i.occurredAt i.event).2.1, hs']
  refine ⟨⟨cookieInv_step i.occurredAt i.event hc.inv, ⟨s', hfinal, hreq'⟩, ?_⟩,
    ⟨s', hfinal, hreq'⟩, ?_, ?_, ?_⟩
  · obtain ⟨-, -, hinuse⟩ := received_mam_frame c i.occurredAt i.event
    rw [(handle_cookies c i.occurredAt i.event).1]
    obtain ⟨hne, -, -⟩ | ⟨-, hk, hck, -⟩ | ⟨-, -, h, -⟩ :=
      connect_cookie_cases (c.received i.occurredAt i.event).mam i.occurredAt
        (c.received i.occurredAt i.event).context
    · exact absurd (hctx.trans (hinuse.trans hc.unused).symm) hne
    · obtain ⟨k, hk⟩ := Option.isSome_iff_exists.mp hk
      have := context_cookie hc.inv.received_settled hk
      rw [hctx] at this
      cases this
    · rw [Core.connected, h, hinuse, hc.unused]
  · exact without_requests hc.inv hctx fun _ => hc.unused
  · intro k hk
    obtain ⟨e, hev, hw⟩ := (step_writes hs).1 _ hk
    obtain h | ⟨-, h⟩ | ⟨k', rfl, -⟩ := onCookie_write hw
    · rw [hreq] at h
      cases h
    · cases h
    · exact hset k' hev
  · intro k hk
    rw [(step_writes hs).2 k hk] at hrot
    cases hrot

/-- What MAM work keeps of a replaced cookie: no session, no confirmed seedbox and
no download permitted, on another connection. -/
def DroppedAsReplaced (before after : Core) : Prop :=
  before.mam.epoch < after.mam.epoch ∧ after.mam.session = .unverified ∧
    after.mam.seedbox.status = .unconfirmed ∧ after.mam.confirmedDownloadIp = none ∧
    after.mam.acquisition.newlyFetched = ∅ ∧ after.mam.acquisition.reapproved = ∅

theorem watchDownloads_newlyFetched {m : Mam} (now : ClockReading) (registry : Registry)
    (h : m.acquisition.newlyFetched = ∅) :
    (m.watchDownloads now registry).1.acquisition.newlyFetched = ∅ := by
  cases registry with
  | loaded records =>
    simp only [Mam.watchDownloads, h]
    rfl
  | _ => exact h

theorem replaced_dropped {m : Mam} {now : ClockReading} {context : Context} (plan : Plan)
    {requested : Option ApiCookie} (h : ∃ m', m.connect now context = Mam.replaceCookie m' requested) :
    ((m.prepare now context).1.send now context plan).1.seedbox.status = .unconfirmed ∧
      ((m.prepare now context).1.send now context plan).1.acquisition.newlyFetched = ∅ ∧
      ((m.prepare now context).1.send now context plan).1.acquisition.reapproved = ∅ := by
  obtain ⟨m', h⟩ := h
  rw [send_frame, prepare_frame, h]
  refine ⟨?_, ?_, rfl⟩
  · simp only [Mam.prepare, Mam.noteHold, h]
    obtain ⟨-, hs⟩ | ⟨-, hs⟩ := survey_unconfirms (m'.replaceCookie requested) now context
    · rw [hs]; rfl
    · rw [hs]; rfl
  · simp only [Mam.prepare, Mam.noteHold, h, Mam.survey]
    refine watchDownloads_newlyFetched now context.registry ?_
    rw [followConnectability_frame]
    rfl

/-- Removing the cookie is noticed when an issued cookie is on record. -/
theorem clear_step {s : Settings} (hc : CookieInv c) (hev : i.event = .settings .clearApiCookie)
    (hs : c.settings = .loaded s) (hn : c.mam.cookieInUse.isSome → c.mam.issuedCookie.isSome) :
    Cleared (c.handle i.occurredAt i.event).1 ∧ WithoutCookie (core.entry c i) ∧
      (c.mam.cookieInUse.isSome → DroppedAsReplaced c (c.handle i.occurredAt i.event).1) := by
  have hearly := hc.started (by rw [hs]; simp)
  obtain ⟨s', hs', hk'⟩ := received_cookie c i.occurredAt i.event hs hearly
  have hreq' : s'.apiCookie.requested = none := by
    rw [hk', hev]
    exact request_requested _ _
  have hctx : (c.received i.occurredAt i.event).context.requestedCookie = none := by
    rw [received_requested hs', hreq']
  have hfinal : (c.handle i.occurredAt i.event).1.settings = .loaded s' := by
    rw [(handle_frame c i.occurredAt i.event).2.1, hs']
  have hwithout : WithoutCookie (core.entry c i) := by
    refine ⟨⟨s', hfinal, hreq'⟩, ?_, ?_, ?_⟩
    · exact without_requests hc hctx fun h => by rw [hev] at h; cases h
    · intro k hk
      obtain ⟨e, he, hw⟩ := (step_writes hs).1 _ hk
      rw [hev] at he
      cases he
      have := request_write _ hw
      cases this
    · intro k hk
      have := (step_writes hs).2 k hk
      rw [hev] at this
      cases this
  obtain ⟨hcu, -, hce, hcs, hcd⟩ := handle_cookies c i.occurredAt i.event
  obtain ⟨-, hepoch, hinuse⟩ := received_mam_frame c i.occurredAt i.event
  have hissued : (c.received i.occurredAt i.event).mam.issuedCookie = c.mam.issuedCookie := by
    rw [received_issued, hev]
    rfl
  -- the cookie is replaced by none, kept, or there was none to use
  obtain ⟨-, -, h⟩ | ⟨-, hk, -⟩ | ⟨hr, -, h, -⟩ :=
    connect_cookie_cases (c.received i.occurredAt i.event).mam i.occurredAt
    (c.received i.occurredAt i.event).context
  · rw [hctx] at h
    have hcon : c.connected i.occurredAt i.event = _ := h
    rw [hcon] at hcu hce hcs hcd
    refine ⟨⟨cookieInv_step i.occurredAt i.event hc, ⟨s', hfinal, hreq'⟩, hcu⟩, hwithout, fun _ => ?_⟩
    obtain ⟨wake, hm⟩ := handle_mam c i.occurredAt i.event
    obtain ⟨hsb, hnf, hra⟩ := replaced_dropped (c.planned i.occurredAt i.event) ⟨_, h⟩
    refine ⟨?_, hcs, ?_, hcd, ?_, ?_⟩
    · have hg := (followGate_epoch ((c.received i.occurredAt i.event).mam.remind i.occurredAt).1
        (c.received i.occurredAt i.event).context).1
      rw [remind_epoch, hepoch] at hg
      rw [hce]
      exact Nat.lt_succ_of_le hg
    · rw [hm]; exact hsb
    · rw [hm]; exact hnf
    · rw [hm]; exact hra
  · obtain ⟨k, hk⟩ := Option.isSome_iff_exists.mp hk
    have := context_cookie hc.received_settled hk
    rw [hctx] at this
    cases this
  · have hnone : c.mam.cookieInUse = none := by
      cases hu : c.mam.cookieInUse with
      | none => rfl
      | some k =>
        obtain ⟨k', hk'⟩ := Option.isSome_iff_exists.mp (hn (by rw [hu]; rfl))
        rw [hctx, hinuse, hissued, hu, hk'] at hr
        obtain hr | hr := hr <;> cases hr
    refine ⟨⟨cookieInv_step i.occurredAt i.event hc, ⟨s', hfinal, hreq'⟩, ?_⟩, hwithout, fun h => ?_⟩
    · rw [hcu, Core.connected, h, hinuse, hnone]
    · rw [hnone] at h
      cases h

end

theorem trace_of_cleared {c : Core} {ks : List TimedEvent} (hc : Cleared c)
    (hset : ∀ f ∈ core.trace c ks, ∀ k, f.input.event ≠ .settings (.setApiCookie k))
    (hf : ∀ f ∈ core.trace c ks,
      f.input.event = .settings .rotatedApiCookieWriteFailed → ¬ f.before.removesCookie) :
    ∀ f ∈ core.trace c ks, WithoutCookie f := by
  induction ks generalizing c with
  | nil => intro f h; cases h
  | cons i ks ih =>
    obtain ⟨hnext, hw⟩ := cleared_step (i := i) hc (hset _ List.mem_cons_self) (hf _ List.mem_cons_self)
    intro f h
    obtain rfl | h := List.mem_cons.mp h
    · exact hw
    · exact ih hnext (fun g hg => hset g (List.mem_cons_of_mem _ hg))
        (fun g hg => hf g (List.mem_cons_of_mem _ hg)) f h

/-- A cookie the owner removes stays removed, in every run in which the removal
is noticed and no failed save of an issued cookie is reported for it. -/
theorem removed_cookie_stays_removed (is : List TimedEvent)
    {pre post : List (Reactive.Entry Core TimedEvent Action)} {e : Reactive.Entry Core TimedEvent Action}
    (hrun : core.run is = pre ++ e :: post) (hclear : e.input.event = .settings .clearApiCookie)
    {s : Settings} (hs : e.before.settings = .loaded s)
    (hset : ∀ f ∈ post, ∀ k, f.input.event ≠ .settings (.setApiCookie k))
    (hnoticed : e.before.mam.cookieInUse.isSome → e.before.mam.issuedCookie.isSome)
    (hfailed : ∀ f ∈ post, f.input.event = .settings .rotatedApiCookieWriteFailed →
      ¬ f.before.removesCookie) :
    (∀ f ∈ e :: post, WithoutCookie f) ∧
      (e.before.mam.cookieInUse.isSome → DroppedAsReplaced e.before e.after) := by
  obtain ⟨js, i, ks, -, -, rfl, rfl⟩ := Reactive.run_split core hrun
  rw [entry_before] at hs hnoticed
  rw [entry_input] at hclear
  obtain ⟨hcleared, hw, hdrop⟩ := clear_step (cookieInv_last js) hclear hs hnoticed
  refine ⟨?_, hdrop⟩
  intro f hf
  obtain rfl | hf := List.mem_cons.mp hf
  · exact hw
  · exact trace_of_cleared hcleared hset hfailed f hf

def issuedCookie : ApiCookie := ⟨"issued", by decide⟩

def registeredEvent : TimedEvent :=
  .after 64 (.mam (.answered (.ok (.registered .completed (.v4 1))) (some issuedCookie)))

def attemptSentEvents : List TimedEvent := startedEvents ++ [.after 62 (.mam .registrationAttemptSaved)]

def removedEvent (seconds : Nat) : TimedEvent := .after seconds (.settings .clearApiCookie)

/-- Removed while the issued cookie is being saved: the removal is noticed. -/
theorem removed_while_issued_stays_removed :
    (core.last (attemptSentEvents ++ [registeredEvent])).mam.cookieInUse = some savedCookie ∧
    WithoutCookie (core.entry (core.last (attemptSentEvents ++ [registeredEvent])) (removedEvent 65)) ∧
    WithoutCookie (core.entry (core.last (attemptSentEvents ++ [registeredEvent] ++ [removedEvent 65]))
      (.after 66 (.settings .rotatedApiCookieWritten))) := by
  have hs : ∃ s, (core.last (attemptSentEvents ++ [registeredEvent])).settings = .loaded s := by
    cases h : (core.last (attemptSentEvents ++ [registeredEvent])).settings with
    | loaded s => exact ⟨s, rfl⟩
    | _ => exact absurd (congrArg (·.toLoaded.isSome) h) (by decide +kernel)
  obtain ⟨s, hs⟩ := hs
  have hrun := Reactive.run_stretch core (attemptSentEvents ++ [registeredEvent]) [] (removedEvent 65)
    (.after 66 (.settings .rotatedApiCookieWritten))
  have hpost : ∀ f ∈ core.trace
    (core.step (core.last (attemptSentEvents ++ [registeredEvent])) (removedEvent 65)).1 [] ++
      [core.entry (core.last (attemptSentEvents ++ [registeredEvent] ++ removedEvent 65 :: []))
        (.after 66 (.settings .rotatedApiCookieWritten))],
      f.input.event = .settings .rotatedApiCookieWritten := by
    intro f hf
    rw [Reactive.Machine.trace, List.nil_append, List.mem_singleton] at hf
    rw [hf, entry_input]
    rfl
  have h := removed_cookie_stays_removed _ hrun rfl hs (fun f hf k => by rw [hpost f hf]; simp)
    (fun _ => by decide +kernel) (fun f hf he => by rw [hpost f hf] at he; cases he)
  exact ⟨by decide +kernel, h.1 _ List.mem_cons_self, h.1 _ (List.mem_cons_of_mem _ List.mem_cons_self)⟩

/-- Removed while the registration is in flight: its answer brings a cookie back. -/
theorem removed_cookie_comes_back : ∃ pre e post s,
    core.run (attemptSentEvents ++ [removedEvent 63, registeredEvent]) = pre ++ e :: post ∧
    e.input.event = .settings .clearApiCookie ∧ e.before.settings = .loaded s ∧
    (∀ f ∈ post, ∀ k, f.input.event ≠ .settings (.setApiCookie k)) ∧ ¬ ∀ f ∈ e :: post,
    WithoutCookie f := by
  have hs : ∃ s, (core.last attemptSentEvents).settings = .loaded s := by
    cases h : (core.last attemptSentEvents).settings with
    | loaded s => exact ⟨s, rfl⟩
    | _ => exact absurd (congrArg (·.toLoaded.isSome) h) (by decide +kernel)
  obtain ⟨s, hs⟩ := hs
  refine ⟨_, _, _, s, Reactive.run_stretch core attemptSentEvents [] (removedEvent 63)
    registeredEvent, rfl, hs, ?_, ?_⟩
  · intro f hf k
    rw [Reactive.Machine.trace, List.nil_append, List.mem_singleton] at hf
    rw [hf, entry_input]
    simp [registeredEvent, TimedEvent.after]
  · intro h
    obtain ⟨⟨s', hs', hr⟩, -⟩ := h _ (List.mem_cons_of_mem _ List.mem_cons_self)
    have hback : (core.last (attemptSentEvents ++ [removedEvent 63] ++
      [registeredEvent])).context.requestedCookie =
        some issuedCookie := by decide +kernel
    rw [Reactive.last_snoc] at hback
    have hs'' : (core.step (core.last (attemptSentEvents ++
      [removedEvent 63])) registeredEvent).1.settings =
        .loaded s' := hs'
    simp only [Core.context, hs'', SettingsState.toLoaded, Option.bind_some, hr] at hback
    cases hback

end Windlass
