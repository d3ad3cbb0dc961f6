import Windlass.Reasons

/-!
# Not asking again before MAM said to

Each kind of request keeps its own books of a refusal, and not all of them keep
how long MAM asked to wait. `Mam.Waiting` says what is kept; while it holds, no
request of that kind leaves.
-/

namespace Windlass

inductive RequestKind
  | lookUpIp | registerSeedbox | loadUserData | listBookmarks | lookUpTorrent | wedgeHistory | fetchTorrent | buy
deriving DecidableEq

def MamRequest.kind : MamRequest → RequestKind
  | .lookUpIp => .lookUpIp
  | .registerSeedbox => .registerSeedbox
  | .loadUserData _ => .loadUserData
  | .listBookmarks _ => .listBookmarks
  | .lookUpTorrent _ => .lookUpTorrent
  | .wedgeHistory => .wedgeHistory
  | .fetchTorrent .. => .fetchTorrent
  | .buy _ => .buy

def Outstanding.kind : Outstanding → RequestKind
  | .savingRegistration .. => .registerSeedbox
  | .request r _ _ => r.kind

/-- The books keep requests of this kind back until the given time. Torrents are
fetched without any such book. -/
def Mam.Waits (m : Mam) (kind : RequestKind) (until' : ClockReading) : Prop :=
  match kind with
  | .lookUpIp => ∃ next, m.network.nextLookup = some next ∧ until'.monotonic ≤ next
  | .registerSeedbox => ∃ next, m.seedbox.notBefore = some next ∧ until'.wall ≤ next
  | .loadUserData =>
    m.account.lastFailure.isSome ∧ ∃ next, m.account.nextRead = some next ∧ until'.monotonic ≤ next
  | .listBookmarks =>
    m.acquisition.bookmarks.listing = none ∧
      ∃ next, m.acquisition.bookmarks.next = some next ∧ until'.monotonic ≤ next
  | .lookUpTorrent =>
    ∃ failed, m.acquisition.lookupFailed = some failed ∧ until'.monotonic ≤ failed + acquisitionRetryAfter
  | .wedgeHistory =>
    ∃ failed, m.acquisition.historyFailed = some failed ∧
    until'.monotonic ≤ failed + acquisitionRetryAfter
  | .buy => ∃ refused, m.account.refused = some refused ∧ until'.monotonic ≤ refused + refusalBackoff
  | .fetchTorrent => False

structure Mam.Waiting (m : Mam) (kind : RequestKind) (until' : ClockReading) : Prop where
  waits : m.Waits kind until'
  slot : ∀ outstanding, m.outstanding = some outstanding → outstanding.kind ≠ kind

/-! ## The conditions on a step -/

section
variable (c : Core) (now : ClockReading) (event : Event)

/-- What must not happen in a step for the wait to be kept: lookups of the IP
start over whenever the IP is unconfirmed, and registrations go by the calendar. -/
def Core.KeepsWait (kind : RequestKind) (until' : ClockReading) : Prop :=
  match kind with
  | .lookUpIp => ¬ c.switches now event ∧ ¬ c.closesGate now event ∧ c.repairs now event = false
  | .registerSeedbox => until'.wall ≤ now.wall → until'.monotonic ≤ now.monotonic
  | _ => True

end

def RequestKind.CanWait (kind : RequestKind) (now : ClockReading) (after : Duration) : Prop :=
  match kind with
  | .lookUpIp => now.monotonic + max observeEvery after ≤ Instant.latest
  | .registerSeedbox => now.wall + after ≤ SystemTime.latest
  | .loadUserData => now.monotonic + max accountFreshFor after ≤ Instant.latest
  | .listBookmarks => now.monotonic + max acquisitionRetryAfter after ≤ Instant.latest
  | .lookUpTorrent | .wedgeHistory => after ≤ acquisitionRetryAfter
  | .buy => after ≤ refusalBackoff
  | .fetchTorrent => after = 0

def ClockReading.later (now : ClockReading) (after : Duration) : ClockReading :=
  { monotonic := now.monotonic + after, wall := now.wall + after }

/-! ## What answers leave of a wait -/

section
variable {c : Core} {now : ClockReading} {event : Event} {kind : RequestKind} {until' : ClockReading}

theorem accepted_outstanding {m : Mam} {request : MamRequest} {result : Except MamFailure MamReply}
    (h : m.accepted event = some (request, result)) :
    ∃ sent epoch rotated, m.outstanding = some (.request request sent epoch) ∧
      event = .mam (.answered result rotated) := by
  unfold Mam.accepted at h
  split at h
  · next result' rotated request' sent epoch ho =>
    split at h
    · cases h
      exact ⟨sent, epoch, rotated, ho, rfl⟩
    · cases h
  · cases h

theorem Mam.Waiting.accepted_kind {m : Mam} (h : m.Waiting kind until') {request : MamRequest}
    {result : Except MamFailure MamReply} (ha : m.accepted event = some (request, result)) :
    request.kind ≠ kind := by
  obtain ⟨sent, epoch, rotated, ho, -⟩ := accepted_outstanding ha
  exact h.slot _ ho

theorem network_answered_same {n : Network} {answer : Answer}
    (h : ∀ request result, answer = some (request, result) → request.kind ≠ .lookUpIp) :
    n.answered now answer = n := by
  unfold Network.answered
  split
  · exact absurd rfl (h _ _ rfl)
  · exact absurd rfl (h _ _ rfl)
  · rfl

theorem seedbox_answered_same {s : Seedbox} {answer : Answer}
    (h : ∀ request result, answer = some (request, result) → request.kind ≠ .registerSeedbox) :
    s.answered now answer = s := by
  unfold Seedbox.answered
  split
  · exact absurd rfl (h _ _ rfl)
  · exact absurd rfl (h _ _ rfl)
  · rfl

theorem account_read_refused (a : Account) (data : UserData) :
    (a.read now.monotonic now.wall data).1.refused = a.refused := by
  unfold Account.read Account.settle
  dsimp only
  split
  · split <;> rfl
  · rfl

theorem account_answered_reads {a : Account} {answer : Answer}
    (h : ∀ request result, answer = some (request, result) → request.kind ≠ .loadUserData) :
    (a.answered now answer).lastFailure = a.lastFailure ∧
    (a.answered now answer).nextRead = a.nextRead := by
  unfold Account.answered
  split
  · exact absurd rfl (h _ _ rfl)
  · exact absurd rfl (h _ _ rfl)
  · exact ⟨rfl, rfl⟩
  · exact ⟨rfl, rfl⟩

theorem account_answered_refused {a : Account} {answer : Answer}
    (h : ∀ request result, answer = some (request, result) → request.kind ≠ .buy) :
    (a.answered now answer).refused = a.refused := by
  unfold Account.answered
  split
  · exact account_read_refused a _
  · rfl
  · exact absurd rfl (h _ _ rfl)
  · rfl

theorem account_checked_frame (a : Account) (sale : Sale) :
    (a.checked sale).1 = { a with lastPurchase := (a.checked sale).1.lastPurchase } := by
  unfold Account.checked
  split
  · split <;> rfl
  · rfl

theorem bookmarks_answered_same {b : Bookmarks} {answer : Answer}
    (h : ∀ request result, answer = some (request, result) → request.kind ≠ .listBookmarks) :
    b.answered now answer = b := by
  unfold Bookmarks.answered
  split
  · exact absurd rfl (h _ _ rfl)
  · exact absurd rfl (h _ _ rfl)
  · rfl

theorem lookupFailed_answered_same {failed : Option Instant} {answer : Answer}
    (h : ∀ request result, answer = some (request, result) → request.kind ≠ .lookUpTorrent) :
    lookupFailedAnswered now answer failed = failed := by
  unfold lookupFailedAnswered
  split
  · exact absurd rfl (h _ _ rfl)
  · exact absurd rfl (h _ _ rfl)
  · rfl

theorem historyFailed_answered_same {failed : Option Instant} {answer : Answer}
    (h : ∀ request result, answer = some (request, result) → request.kind ≠ .wedgeHistory) :
    historyFailedAnswered now answer failed = failed := by
  unfold historyFailedAnswered
  split
  · exact absurd rfl (h _ _ rfl)
  · exact absurd rfl (h _ _ rfl)
  · rfl

theorem received_account_reads (h : ∀ request result, c.mam.accepted event = some (request, result) →
    request.kind ≠ .loadUserData) :
    (c.received now event).mam.account.lastFailure = c.mam.account.lastFailure ∧
      (c.received now event).mam.account.nextRead = c.mam.account.nextRead := by
  obtain ha | ⟨sale, -, ha⟩ := (received_receives c now event).account
  · rw [ha]
    exact account_answered_reads h
  · rw [ha, account_checked_frame]
    exact ⟨rfl, rfl⟩

theorem received_account_refused (h : ∀ request result, c.mam.accepted event = some (request, result) →
    request.kind ≠ .buy) : (c.received now event).mam.account.refused = c.mam.account.refused := by
  obtain ha | ⟨sale, -, ha⟩ := (received_receives c now event).account
  · rw [ha]
    exact account_answered_refused h
  · rw [ha, account_checked_frame]

theorem received_waits (h : c.mam.Waiting kind until') (hk : c.KeepsWait now event kind until') :
    (c.received now event).mam.Waits kind until' := by
  have hr := received_receives c now event
  have hother : ∀ request result, c.mam.accepted event = some (request, result) → request.kind ≠ kind :=
    fun _ _ ha => h.accepted_kind ha
  have hw := h.waits
  cases kind with
  | lookUpIp =>
    unfold Mam.Waits at hw ⊢
    obtain hn | ⟨-, hn⟩ | ⟨hs, -⟩ := hr.network
    · rw [hn, network_answered_same hother]
      exact hw
    · rw [hn]
      exact hw
    · exact absurd hs hk.1
  | registerSeedbox =>
    unfold Mam.Waits at hw ⊢
    rw [hr.notBefore, seedbox_answered_same hother]
    exact hw
  | loadUserData =>
    unfold Mam.Waits at hw ⊢
    rw [(received_account_reads hother).1, (received_account_reads hother).2]
    exact hw
  | listBookmarks =>
    unfold Mam.Waits at hw ⊢
    rw [hr.bookmarks, bookmarks_answered_same hother]
    exact hw
  | lookUpTorrent =>
    unfold Mam.Waits at hw ⊢
    rw [hr.lookupFailed, lookupFailed_answered_same hother]
    exact hw
  | wedgeHistory =>
    unfold Mam.Waits at hw ⊢
    rw [hr.historyFailed, historyFailed_answered_same hother]
    exact hw
  | fetchTorrent => exact hw
  | buy =>
    unfold Mam.Waits at hw ⊢
    rw [received_account_refused hother]
    exact hw

theorem refused_waits {request : MamRequest} {after : Duration}
    (ha : c.mam.accepted event = some (request, .error (.tooSoon (some after)))) (hpos : 0 < after)
    (hcan : request.kind.CanWait now after) :
    (c.received now event).mam.Waits request.kind (now.later after) := by
  have hr := received_receives c now event
  have hne : event.isAnswer := by
    obtain ⟨_, _, _, -, rfl⟩ := accepted_outstanding ha
    rfl
  have hacc : (c.received now event).mam.account = c.mam.account.answered now (c.mam.accepted event) := by
    obtain h | ⟨sale, rfl, -⟩ := hr.account
    · exact h
    · cases hne
  -- each kind keeps its wait in a book of its own
  cases request with
  | lookUpIp =>
    have hn : (c.received now event).mam.network = c.mam.network.answered now (c.mam.accepted event) := by
      obtain h | ⟨rfl, -⟩ | ⟨hs, -⟩ := hr.network
      · exact h
      · cases hne
      · cases event <;> first | cases hne | cases hs
    refine ⟨now.monotonic + max observeEvery after, ?_, Nat.add_le_add_left (le_max_right _ _) _⟩
    rw [hn, ha]
    exact Instant.checkedAdd_eq_some.mpr ⟨hcan, rfl⟩
  | registerSeedbox =>
    refine ⟨now.wall + after, ?_, le_rfl⟩
    rw [hr.notBefore, ha]
    exact SystemTime.checkedAdd_eq_some.mpr ⟨hcan, rfl⟩
  | loadUserData clients =>
    unfold MamRequest.kind Mam.Waits
    rw [hacc, ha]
    exact ⟨rfl, now.monotonic + max accountFreshFor after, Instant.checkedAdd_eq_some.mpr ⟨hcan, rfl⟩,
      Nat.add_le_add_left (le_max_right _ _) _⟩
  | listBookmarks start =>
    unfold MamRequest.kind Mam.Waits
    rw [hr.bookmarks, ha]
    exact ⟨rfl, now.monotonic + max acquisitionRetryAfter after,
      Instant.checkedAdd_eq_some.mpr ⟨hcan, rfl⟩,
      Nat.add_le_add_left (le_max_right _ _) _⟩
  | lookUpTorrent id =>
    refine ⟨now.monotonic, ?_, Nat.add_le_add_left hcan _⟩
    rw [hr.lookupFailed, ha]
    rfl
  | wedgeHistory =>
    refine ⟨now.monotonic, ?_, Nat.add_le_add_left hcan _⟩
    rw [hr.historyFailed, ha]
    rfl
  | fetchTorrent id wedge => exact absurd hcan hpos.ne'
  | buy purchase =>
    refine ⟨now.monotonic, ?_, Nat.add_le_add_left hcan _⟩
    rw [hacc, ha]
    rfl

/-! ## What deciding and sending leave of a wait -/

theorem surveyed_waits (h : (c.received now event).mam.Waits kind until')
    (hk : c.KeepsWait now event kind until') :
    (c.surveyed now event).Waits kind until' := by
  cases kind with
  | lookUpIp =>
    unfold Mam.Waits at h ⊢
    obtain ⟨hn, -⟩ | ⟨-, hu | hu⟩ := surveyed_network c now event
    · rw [hn]
      exact h
    · exact absurd hu hk.2.1
    · rw [hk.2.2] at hu
      cases hu
  | registerSeedbox =>
    unfold Mam.Waits at h ⊢
    rw [surveyed_seedbox_notBefore]
    exact h
  | loadUserData =>
    unfold Mam.Waits at h ⊢
    rw [surveyed_account]
    exact h
  | buy =>
    unfold Mam.Waits at h ⊢
    rw [surveyed_account]
    exact h
  | fetchTorrent => exact h
  | _ =>
    unfold Mam.Waits at h ⊢
    rw [surveyed_acquisition]
    exact h

theorem handle_waits (h : (c.received now event).mam.Waits kind until')
    (hk : c.KeepsWait now event kind until') :
    (c.handle now event).1.mam.Waits kind until' := by
  have hs := surveyed_waits h hk
  cases kind with
  | lookUpIp =>
    unfold Mam.Waits at hs ⊢
    rw [handle_network]
    exact hs
  | registerSeedbox =>
    unfold Mam.Waits at h ⊢
    rw [handle_notBefore]
    exact h
  | loadUserData =>
    unfold Mam.Waits at h ⊢
    rw [handle_account]
    exact h
  | buy =>
    unfold Mam.Waits at h ⊢
    rw [handle_account]
    exact h
  | fetchTorrent => exact h
  | _ =>
    unfold Mam.Waits at h ⊢
    rw [handle_acquisition]
    exact h

/-! ## Nothing wanted while waiting -/

theorem mayAsk_after {failed : Instant} {now : Instant} (h : mayAsk (some failed) now) :
    failed + acquisitionRetryAfter ≤ now :=
  Instant.add_le_of_durationSince (by decide) (of_decide_eq_true h)

theorem wantedPurchase_refused {a : Account} {wall : SystemTime} {points : Points} {purchase : Purchase}
    {refused now : Instant} (h : a.wantedPurchase now wall points = some purchase)
    (hr : a.refused = some refused) :
    refused + refusalBackoff ≤ now := by
  unfold Account.wantedPurchase at h
  obtain ⟨data, -, h⟩ := Option.bind_eq_some_iff.mp h
  obtain ⟨cost, -, h⟩ := Option.bind_eq_some_iff.mp h
  split at h
  · next hc =>
    have hb := (Bool.and_eq_true_iff.mp hc).2
    rw [hr, Option.any_some, Bool.not_eq_true', decide_eq_false_iff_not, not_lt] at hb
    exact Instant.add_le_of_durationSince (by decide) hb
  · cases h

theorem acquisition_waits {m : Mam} {request : MamRequest} (queued : List MamTorrentId) (facts : Facts)
    (hf : facts.now = now.monotonic) (h : m.Waits request.kind until')
    (hr : acquisitionRequest (m.acquisition.watchNext m.account now.monotonic) = some request ∨
      acquisitionRequest (m.acquisition.next queued facts) = some request) : until'.monotonic ≤
      now.monotonic := by
  have hlook : mayAsk m.acquisition.lookupFailed now.monotonic → request.kind = .lookUpTorrent →
      until'.monotonic ≤ now.monotonic := by
    intro hask hk
    rw [hk] at h
    obtain ⟨failed, hfail, hle⟩ := h
    rw [hfail] at hask
    exact hle.trans (mayAsk_after hask)
  have hhist : ∀ id, m.acquisition.mayAskHistory id now.monotonic → request.kind = .wedgeHistory →
      until'.monotonic ≤ now.monotonic := by
    intro id hask hk
    rw [hk] at h
    obtain ⟨failed, hfail, hle⟩ := h
    unfold Acquisition.mayAskHistory at hask
    rw [Bool.and_eq_true, hfail] at hask
    exact hle.trans (mayAsk_after hask.1)
  obtain hr | hr := hr
  · obtain ⟨download, watch, -, ⟨rfl, -, hask⟩ | ⟨rfl, -, hask⟩ | ⟨rfl, -⟩⟩ := watchNext_cases hr
    · exact hlook hask rfl
    · exact hhist _ hask rfl
    · exact h.elim
  · obtain ⟨bookmark, data, -, -, ha⟩ := next_cases hr
    obtain ⟨rfl, -⟩ | ⟨history, -, ⟨rfl, -⟩ | ⟨rfl, -⟩⟩ | ⟨rfl, hask⟩ | ⟨rfl, hask⟩ := admit_cases ha
    · exact h.elim
    · exact h.elim
    · exact h.elim
    · exact hhist _ (hf ▸ hask) rfl
    · exact hlook (hf ▸ hask) rfl

theorem decision_waits {request : MamRequest} {reserve : Option Points}
    (h : (c.surveyed now event).Waits request.kind until')
    (hw : (c.prepared now event).wanted now reserve (c.planned now event) = some (.request request)) :
    until'.monotonic ≤ now.monotonic := by
  obtain ⟨rfl, hd⟩ | ⟨clients, rfl, hd⟩ | ⟨start, rfl, hd⟩ | ⟨purchase, points, rfl,
    hd⟩ | hd | ⟨records, -, hd⟩ :=
    decision_cases hw
  · obtain ⟨next, hn, hle⟩ := h
    unfold Network.due at hd
    rw [hn, Bool.and_eq_true] at hd
    exact hle.trans (by simpa using hd.1)
  · obtain ⟨hf, next, hn, hle⟩ := h
    unfold Account.wanted at hd
    rw [hf, hn] at hd
    split at hd
    · cases hd
    · next hlt =>
      have hge : next ≤ now.monotonic := by simpa using hlt
      exact hle.trans hge
  · obtain ⟨hl, next, hn, hle⟩ := h
    unfold Bookmarks.wanted at hd
    rw [hl, hn] at hd
    simp only at hd
    split at hd
    · next hge => exact hle.trans (by simpa using hge)
    · cases hd
  · obtain ⟨refused, hr, hle⟩ := h
    exact hle.trans (wantedPurchase_refused hd hr)
  · exact acquisition_waits [] (c.admissionFacts now event) rfl h (.inl hd)
  · exact acquisition_waits _ (c.admissionFacts now event) rfl h (.inr hd)

theorem wanted_register {m : Mam} {reserve : Option Points} {plan : Plan}
    (h : m.wanted now reserve plan = some .register) : m.seedbox.wanted now.wall m.network.current := by
  unfold Mam.wanted at h
  split at h
  · cases h
  · split at h
    · cases h
    · split at h
      · next hs => exact hs
      · split at h
        · cases h
        · rw [Option.map_eq_some_iff] at h
          obtain ⟨r, -, hr⟩ := h
          cases hr

theorem allowance_notBefore {s : Seedbox} {wall next : SystemTime} (h : s.allowance wall = .now)
    (hn : s.notBefore = some next) : next ≤ wall := by
  unfold Seedbox.allowance at h
  split at h
  · split at h
    · next allowed hl =>
      split at h
      · cases h
      · next hlt =>
        have hle : next ≤ allowed := by
          rw [hn] at hl
          unfold laterOf at hl
          split at hl
          · next heq =>
            cases heq
            cases hl
            exact le_max_right _ _
          · next heq => cases heq
          · cases hl
            exact le_rfl
        exact hle.trans (not_lt.mp hlt)
    · next hl =>
      rw [hn] at hl
      unfold laterOf at hl
      split at hl <;> cases hl
  · cases h
  · cases h
  · cases h

theorem register_waits {reserve : Option Points}
    (h : (c.surveyed now event).Waits .registerSeedbox until')
    (hk : c.KeepsWait now event .registerSeedbox until')
    (hw : (c.prepared now event).wanted now reserve (c.planned now event) = some .register) :
    until'.monotonic ≤ now.monotonic := by
  have hs := wanted_register hw
  obtain ⟨next, hn, hle⟩ := h
  unfold Seedbox.wanted at hs
  simp only [Bool.and_eq_true, beq_iff_eq] at hs
  exact hk (hle.trans (allowance_notBefore hs.2 hn))

/-! ## One step -/

/-- Once the event is handled, the rest of the step keeps a wait and sends
nothing of its kind. -/
theorem rest_waiting (hr : (c.received now event).mam.Waiting kind until')
    (hk : c.KeepsWait now event kind until') (hnow : now.monotonic < until'.monotonic) :
    (∀ request cookie, .mamRequest request cookie ∈ (c.handle now event).2 → request.kind ≠ kind) ∧
      (c.handle now event).1.mam.Waiting kind until' := by
  have hs := surveyed_waits hr.waits hk
  refine ⟨?_, handle_waits hr.waits hk, ?_⟩
  · rintro request cookie hreq rfl
    obtain ⟨rfl, rfl, at', k, ho, -⟩ | ⟨-, -, hw, -⟩ := request_cases hreq
    · refine hr.slot (.request .registerSeedbox now.monotonic c.mam.epoch) ?_ rfl
      rw [received_outstanding]
      simp [Mam.slotAfter, ho]
    · exact absurd (decision_waits hs hw) (not_le.mpr hnow)
  · intro outstanding ho
    rw [handle_outstanding] at ho
    obtain hq | ⟨-, -, ⟨k, budget, hw, -, hq⟩ | ⟨r, budget, hw, hq⟩⟩ :=
      send_cases (c.prepared now event) now (c.received now event).context (c.planned now event)
    · have hq' : c.sending now event = _ := hq
      rw [hq', prepared_outstanding] at ho
      exact hr.slot outstanding ho
    · have hq' : c.sending now event = _ := hq
      rw [hq'] at ho
      cases ho
      rintro rfl
      exact absurd (register_waits hs hk hw) (not_le.mpr hnow)
    · have hq' : c.sending now event = _ := hq
      rw [hq'] at ho
      cases ho
      rintro rfl
      exact absurd (decision_waits hs hw) (not_le.mpr hnow)

theorem slotAfter_kind {m : Mam} {outstanding : Outstanding}
    (h : m.slotAfter now event = some outstanding) :
    ∃ before, m.outstanding = some before ∧ before.kind = outstanding.kind := by
  unfold Mam.slotAfter at h
  split at h
  · next hm =>
    split at h
    · cases h
    · cases h
      exact ⟨_, hm, rfl⟩
  · cases h
  · cases h
  · exact ⟨outstanding, h, rfl⟩

theorem received_waiting (h : c.mam.Waiting kind until') (hk : c.KeepsWait now event kind until') :
    (c.received now event).mam.Waiting kind until' where
  waits := received_waits h hk
  slot := by
    intro outstanding ho
    rw [received_outstanding] at ho
    obtain ⟨before, hb, hkind⟩ := slotAfter_kind ho
    exact hkind ▸ h.slot before hb

theorem refused_waiting {request : MamRequest} {after : Duration}
    (ha : c.mam.accepted event = some (request, .error (.tooSoon (some after)))) (hpos : 0 < after)
    (hcan : request.kind.CanWait now after) :
    (c.received now event).mam.Waiting request.kind (now.later after) where
  waits := refused_waits ha hpos hcan
  slot := by
    intro outstanding ho
    obtain ⟨sent, epoch, rotated, hm, rfl⟩ := accepted_outstanding ha
    rw [received_outstanding] at ho
    simp [Mam.slotAfter, hm] at ho

end

/-! ## Runs -/

/-- A wait MAM asked for is kept through every step before it ends, as long as
the books of the kind can hold it and no step drops it. -/
theorem retry_after_kept {is : List TimedEvent} (hs : Steady (core.run is))
    {pre rest mid post : List (Reactive.Entry Core TimedEvent Action)}
    {e f : Reactive.Entry Core TimedEvent Action}
    (hrun : core.run is = pre ++ e :: rest) {request : MamRequest} {after : Duration}
    (ha : e.before.mam.accepted e.input.event = some (request, .error (.tooSoon (some after))))
    (hcan : request.kind.CanWait e.input.occurredAt after) (hrest : e :: rest = mid ++ f :: post)
    (hkeep : ∀ g ∈ mid ++ [f], g.input.occurredAt.monotonic < e.input.occurredAt.monotonic + after →
      g.before.KeepsWait g.input.occurredAt g.input.event request.kind (e.input.occurredAt.later after))
    {request' : MamRequest} {cookie : Option ApiCookie} (hreq : .mamRequest request' cookie ∈ f.out)
    (hkind : request'.kind = request.kind) :
    e.input.occurredAt.monotonic + after ≤ f.input.occurredAt.monotonic := by
  by_contra hlt
  rw [not_le] at hlt
  have hsteady : Steady (mid ++ f :: post) := by
    rw [← hrest]
    exact (List.pairwise_append.mp (hrun ▸ hs)).2.1
  have hbefore : ∀ g ∈ mid ++ [f],
      g.input.occurredAt.monotonic < e.input.occurredAt.monotonic + after := by
    intro g hg
    rw [List.mem_append, List.mem_singleton] at hg
    obtain hg | rfl := hg
    · exact lt_of_le_of_lt ((List.pairwise_append.mp hsteady).2.2 g hg f List.mem_cons_self) hlt
    · exact hlt
  obtain ⟨js, i, ks, -, -, rfl, hpost⟩ := Reactive.run_split core hrun
  have hpos : 0 < after := by
    cases mid with
    | nil =>
      cases hrest
      exact Nat.pos_of_lt_add_right hlt
    | cons g mid =>
      have hg := hbefore g (by simp)
      cases hrest
      exact Nat.pos_of_lt_add_right hg
  have hwait := refused_waiting ha hpos hcan
  -- the request leaves in the step of the refusal, or in a later one
  cases mid with
  | nil =>
    cases hrest
    exact (rest_waiting hwait (hkeep _ (by simp) hlt) hlt).1 request' cookie hreq hkind
  | cons g mid =>
    obtain ⟨rfl, rfl⟩ := List.cons.inj hrest
    have he := rest_waiting hwait (hkeep _ (by simp) (hbefore _ (by simp))) (hbefore _ (by simp))
    obtain ⟨t, j, ht, rfl⟩ := Reactive.trace_until core
      (I := fun c => c.mam.Waiting request.kind (i.occurredAt.later after))
      (P := fun g => g.before.KeepsWait g.input.occurredAt g.input.event request.kind
        (i.occurredAt.later after) ∧
        g.input.occurredAt.monotonic < i.occurredAt.monotonic + after)
      (fun c j hc hP => (rest_waiting (received_waiting hc hP.1) hP.1 hP.2).2) hpost.symm he.2
      (fun g hg => ⟨hkeep g (by simp [hg]) (hbefore g (by simp [hg])), hbefore g (by simp [hg])⟩)
    have hk := hkeep (core.entry t j) (by simp) hlt
    exact (rest_waiting (received_waiting ht hk) hk hlt).1 request' cookie hreq hkind

def lookupSentEvents : List TimedEvent := startedEvents.dropLast

def askedToWait (minutes : Nat) : TimedEvent :=
  .after 61 (.mam (.answered (.error (.tooSoon (some (Duration.fromMins minutes)))) none))

def wakeAt (seconds : Nat) : TimedEvent := .after seconds (.timerExpired .mam 1)

theorem asked_to_wait_ten_minutes :
    .mamRequest .lookUpIp none ∈
    (core.entry (core.last (lookupSentEvents ++ [askedToWait 10])) (wakeAt 661)).out ∧
    (askedToWait 10).occurredAt.monotonic + Duration.fromMins 10 ≤ (wakeAt 661).occurredAt.monotonic := by
  have hrun := Reactive.run_stretch core lookupSentEvents [] (askedToWait 10) (wakeAt 661)
  have hsent : .mamRequest .lookUpIp none ∈
      (core.entry (core.last (lookupSentEvents ++ [askedToWait 10])) (wakeAt 661)).out := by
        decide +kernel
  have hsteady : Steady (core.run (lookupSentEvents ++ askedToWait 10 :: ([] ++ [wakeAt 661]))) :=
    steady_iff.mpr (by decide +kernel)
  have hasked : (core.entry (core.last lookupSentEvents) (askedToWait 10)).before.mam.accepted
    (askedToWait 10).event =
      some (.lookUpIp, .error (.tooSoon (some (Duration.fromMins 10)))) := by decide +kernel
  refine ⟨hsent, retry_after_kept hsteady hrun hasked ?_ (List.singleton_append).symm ?_ hsent rfl⟩
  · unfold MamRequest.kind RequestKind.CanWait
    decide +kernel
  · intro g hg hlt
    simp only [List.singleton_append, List.mem_cons, List.not_mem_nil, or_false] at hg
    obtain rfl | rfl := hg
    · exact ⟨id, by unfold Core.closesGate; decide +kernel, by decide +kernel⟩
    · exact absurd hlt (by decide +kernel)

/-- Pausing and resuming makes Windlass look its IP up within the hour MAM asked
it to wait. -/
theorem pause_forgets_the_wait :
    ∃ pre e mid f post request after request' cookie,
      core.run (lookupSentEvents ++ askedToWait 60 :: ((pauseEvent :: resumeEvents) ++ [wakeAt 120])) =
        pre ++ e :: (mid ++ f :: post) ∧
      e.before.mam.accepted e.input.event = some (request, .error (.tooSoon (some after))) ∧
      .mamRequest request' cookie ∈ f.out ∧ request'.kind = request.kind ∧
      f.input.occurredAt.monotonic < e.input.occurredAt.monotonic + after := by
  refine ⟨_, _, _, _, [], .lookUpIp, Duration.fromMins 60, .lookUpIp, none,
    Reactive.run_stretch core lookupSentEvents (pauseEvent :: resumeEvents) (askedToWait 60)
      (wakeAt 120), ?_, ?_, rfl,
    ?_⟩
  · decide +kernel
  · decide +kernel
  · decide +kernel

end Windlass
