import Windlass.AccountSound

/-!
# Purchases are not repeated

A purchase is followed from the step that sends it through its answer, the
reading that settles an uncertain one, and the owner's check. The next purchase
waits until its outcome is known, and rests on a reading asked for after that.
-/

namespace Windlass

/-! ## The outcome of a purchase -/

def Before.judge (before : Before) (data : UserData) : PurchaseOutcome :=
  if laterVip data.vipUntil before.vipUntil then .settled .made .reading
  else if data.points < before.points then .unresolved
  else .settled .notMade .reading

def followPurchase (before : Before) (outcome : PurchaseOutcome) (e : Handled) : PurchaseOutcome :=
  match outcome, e.answer, e.input.event with
  | .uncertain, some (.loadUserData _, .ok (.userData data)), _ => before.judge data
  | .unresolved, _, .mam (.purchaseChecked sale) => .settled sale .owner
  | outcome, _, _ => outcome

section
variable {before : Before} {e : Handled}

theorem followPurchase_reads {clients : ClientListing} {data : UserData} (h : e.Reads clients data) :
    followPurchase before .uncertain e = before.judge data := by
  unfold followPurchase
  rw [h]

theorem judge_cases {data : UserData} {sale : Sale} (h : before.judge data = .settled sale .reading) :
    (sale = .made → laterVip data.vipUntil before.vipUntil) ∧
      (sale = .notMade → ¬ laterVip data.vipUntil before.vipUntil ∧ before.points ≤ data.points) := by
  unfold Before.judge at h
  split at h
  · next hvip =>
    cases h
    exact ⟨fun _ => hvip, by rintro ⟨⟩⟩
  · next hvip =>
    split at h
    · cases h
    · next hpoints =>
      cases h
      exact ⟨by rintro ⟨⟩, fun _ => ⟨hvip, not_lt.mp hpoints⟩⟩

theorem followPurchase_unread (h : ∀ clients data, ¬ e.Reads clients data) :
    followPurchase before .uncertain e = .uncertain := by
  unfold followPurchase
  split
  · next clients data _ ha => exact absurd ha (h clients data)
  · next heq _ => cases heq
  · rfl

theorem followPurchase_checked {sale : Sale} (h : e.input.event = .mam (.purchaseChecked sale)) :
    followPurchase before .unresolved e = .settled sale .owner := by
  unfold followPurchase
  rw [h]

theorem followPurchase_unchecked (h : ∀ sale, e.input.event ≠ .mam (.purchaseChecked sale)) :
    followPurchase before .unresolved e = .unresolved := by
  unfold followPurchase
  split
  · next heq _ => cases heq
  · next sale _ heq => exact absurd heq (h sale)
  · rfl

theorem followPurchase_known {outcome : PurchaseOutcome} (hu : outcome ≠ .uncertain)
    (hn : outcome ≠ .unresolved) :
    followPurchase before outcome e = outcome := by
  unfold followPurchase
  split
  · exact absurd rfl hu
  · exact absurd rfl hn
  · rfl

end

/-- An uncertain purchase is settled by the first reading after it, or by the
owner when that reading shows points spent without longer VIP. -/
def PurchaseCleared (based : UserData) (steps : List Handled) : Prop :=
  ∃ pre s post clients data,
  steps = pre ++ s :: post ∧ (∀ x ∈ pre, ∀ clients data, ¬ Handled.Reads x clients data) ∧
    Handled.Reads s clients data ∧
    (laterVip data.vipUntil based.vipUntil ∨ based.points ≤ data.points ∨
      ∃ k ∈ post, ∃ sale, k.input.event = .mam (.purchaseChecked sale))

theorem unresolved_checked {before : Before} {steps : List Handled}
    (h : steps.foldl (followPurchase before) .unresolved ≠ .unresolved) :
    ∃ k ∈ steps, ∃ sale, k.input.event = .mam (.purchaseChecked sale) := by
  induction steps with
  | nil => exact absurd rfl h
  | cons e steps ih =>
    rw [List.foldl_cons] at h
    by_cases he : ∃ sale, e.input.event = .mam (.purchaseChecked sale)
    · exact ⟨e, by simp, he⟩
    · rw [followPurchase_unchecked (not_exists.mp he)] at h
      obtain ⟨k, hk, hs⟩ := ih h
      exact ⟨k, by simp [hk], hs⟩

theorem uncertain_cleared {based : UserData} {steps : List Handled} {outcome : PurchaseOutcome}
    (h : steps.foldl (followPurchase ⟨based.points, based.vipUntil⟩) .uncertain = outcome)
    (hu : outcome ≠ .uncertain) (hn : outcome ≠ .unresolved) : PurchaseCleared based steps := by
  -- on the steps since; the first that reads the account settles the purchase or does not
  induction steps with
  | nil => exact absurd h.symm hu
  | cons e steps ih =>
    rw [List.foldl_cons] at h
    by_cases he : ∃ clients data, Handled.Reads e clients data
    · obtain ⟨clients, data, hread⟩ := he
      refine ⟨[], e, steps, clients, data, rfl, by simp, hread, ?_⟩
      by_cases hvip : laterVip data.vipUntil based.vipUntil
      · exact .inl hvip
      · by_cases hpoints : data.points < based.points
        · rw [followPurchase_reads hread, Before.judge, if_neg hvip, if_pos hpoints] at h
          exact .inr (.inr (unresolved_checked (h ▸ hn)))
        · exact .inr (.inl (not_lt.mp hpoints))
    · rw [followPurchase_unread fun clients data hread => he ⟨clients, data, hread⟩] at h
      obtain ⟨pre, s, post, clients, data, rfl, hpre, hs⟩ := ih h
      refine ⟨e :: pre, s, post, clients, data, rfl, ?_, hs⟩
      intro x hx clients data hread
      rw [List.mem_cons] at hx
      obtain rfl | hx := hx
      · exact he ⟨clients, data, hread⟩
      · exact hpre x hx clients data hread

/-! ## One step -/

section
variable {c : Core} {now : ClockReading} {event : Event}

theorem wantedPurchase_cases {a : Account} {now : Instant} {wall : SystemTime} {points : Points}
    {purchase : Purchase}
    (h : a.wantedPurchase now wall points = some purchase) :
    ∃ reading, a.reading = some reading ∧ now.durationSince reading.taken ≤ accountFreshFor ∧
      ∀ record, a.lastPurchase = some record → record.sent < reading.taken ∧
        ∃ outcome, record.outcome = some outcome ∧ outcome ≠ .uncertain ∧ outcome ≠ .unresolved := by
  unfold Account.wantedPurchase at h
  simp only [Option.bind_eq_some_iff, Option.filter_eq_some_iff] at h
  obtain ⟨data, ⟨hfresh, hwaiting⟩, -⟩ := h
  unfold Account.fresh at hfresh
  simp only [Option.map_eq_some_iff, Option.filter_eq_some_iff, Bool.and_eq_true,
    decide_eq_true_eq] at hfresh
  obtain ⟨reading, ⟨hreading, hage, hsince⟩, -⟩ := hfresh
  refine ⟨reading, hreading, hage, ?_⟩
  intro record hrecord
  rw [hrecord] at hsince hwaiting
  refine ⟨by simpa using hsince, ?_⟩
  cases houtcome : record.outcome with
  | none => simp [houtcome] at hwaiting
  | some outcome =>
    refine ⟨outcome, rfl, ?_, ?_⟩
    · rintro rfl
      simp [houtcome] at hwaiting
    · rintro rfl
      simp [houtcome] at hwaiting

/-- The record of the last purchase once the step is done: a new one when the step
buys, and else as the event left it. -/
theorem handle_purchase (c : Core) (now : ClockReading) (event : Event) :
    (∃ purchase cookie points, requests (c.handle now event).2 = [(.buy purchase, cookie)] ∧
      (c.received now event).mam.account.wantedPurchase now.monotonic now.wall points = some purchase ∧
      (c.handle now event).1.mam.account.lastPurchase =
        ((c.received now event).mam.account.buying purchase now.monotonic now.wall).lastPurchase) ∨
    ((∀ purchase cookie, .mamRequest (.buy purchase) cookie ∉ (c.handle now event).2) ∧
      (c.handle now event).1.mam.account.lastPurchase =
      (c.received now event).mam.account.lastPurchase) := by
  have hp : (c.prepared now event).account =
      (c.received now event).mam.account.setPace (c.surveyed now event).account.pace :=
        surveyed_account c now event
  obtain ⟨hreq, budget, slot, wake, hmam⟩ | ⟨request, hw, hreq, budget, slot, wake, hmam⟩ :=
    handle_recorded c now event
  · refine .inr ⟨?_, ?_⟩
    · intro purchase cookie hmem
      rw [← mem_requests, hreq] at hmem
      cases sentAtOnce_register hmem
    · rw [hmam, hp]
      rfl
  · by_cases hbuy : ∃ purchase, request = .buy purchase
    · obtain ⟨purchase, rfl⟩ := hbuy
      obtain ⟨hr, -⟩ | ⟨_, hr, -⟩ | ⟨_, hr, -⟩ | ⟨_, points, hr, hd⟩ | hd | ⟨records, -, hd⟩ :=
        decision_cases hw
      · cases hr
      · cases hr
      · cases hr
      · cases hr
        refine .inl ⟨purchase, _, points, hreq, ?_, ?_⟩
        · rw [surveyed_account] at hd
          exact hd
        · rw [hmam]
          unfold Mam.recordSent
          dsimp only
          rw [hp]
          rfl
      · obtain ⟨_, _, -, ⟨hr, -⟩ | ⟨hr, -⟩ | ⟨hr, -⟩⟩ := watchNext_cases hd <;> cases hr
      · obtain ⟨_, _, -, -, hadmit⟩ := next_cases hd
        obtain ⟨hr, -⟩ | ⟨_, -, ⟨hr, -⟩ | ⟨hr, -⟩⟩ | ⟨hr, -⟩ | ⟨hr, -⟩ := admit_cases hadmit <;> cases hr
    · refine .inr ⟨?_, ?_⟩
      · intro purchase cookie hmem
        rw [← mem_requests, hreq, List.mem_singleton] at hmem
        cases hmem
        exact hbuy ⟨purchase, rfl⟩
      · rw [hmam]
        unfold Mam.recordSent
        split
        · rw [hp]
          rfl
        · rw [hp]
          rfl
        · next purchase => exact absurd ⟨purchase, rfl⟩ hbuy
        · rw [hp]
          rfl
        · rw [hp]
          rfl

theorem settle_uncertain {a : Account} {record : PurchaseRecord} {before : Before} (data : UserData)
    (h : a.lastPurchase = some record) (hb : record.before = some before)
    (hu : record.outcome = some .uncertain) :
    (a.settle data).1.lastPurchase = some { record with outcome := some (before.judge data) } := by
  unfold Account.settle
  rw [h]
  dsimp only
  rw [if_pos hu, hb, Option.bind_some]
  unfold Before.judge
  cases record.purchase
  dsimp only
  by_cases hvip : laterVip data.vipUntil before.vipUntil
  · rw [if_pos hvip, if_pos hvip]
  · rw [if_neg hvip, if_neg hvip]
    by_cases hpoints : data.points < before.points
    · rw [if_pos hpoints, if_pos hpoints]
    · rw [if_neg hpoints, if_neg hpoints]

theorem settle_certain {a : Account} {record : PurchaseRecord} (data : UserData)
    (h : a.lastPurchase = some record)
    (hu : record.outcome ≠ some .uncertain) : (a.settle data).1.lastPurchase = some record := by
  unfold Account.settle
  rw [h]
  dsimp only
  rw [if_neg hu]
  exact h

theorem checked_unresolved {a : Account} {record : PurchaseRecord} (sale : Sale)
    (h : a.lastPurchase = some record)
    (hu : record.outcome = some .unresolved) :
    (a.checked sale).1.lastPurchase = some { record with outcome := some (.settled sale .owner) } := by
  unfold Account.checked
  rw [h]
  dsimp only
  rw [if_pos hu]

theorem checked_known {a : Account} {record : PurchaseRecord} (sale : Sale)
    (h : a.lastPurchase = some record)
    (hu : record.outcome ≠ some .unresolved) : (a.checked sale).1.lastPurchase = some record := by
  unfold Account.checked
  rw [h]
  dsimp only
  rw [if_neg hu]
  exact h

theorem received_checked (c : Core) (now : ClockReading) (sale : Sale) :
    (c.received now (.mam (.purchaseChecked sale))).mam.account = (c.mam.account.checked sale).1 := by
  rw [received_mam, dispatch_mam_eq]
  rfl

theorem received_answered (h : ∀ sale, event ≠ .mam (.purchaseChecked sale)) :
    (c.received now event).mam.account = c.mam.account.answered now (c.mam.accepted event) := by
  obtain hr | ⟨sale, he, -⟩ := (received_receives c now event).account
  · exact hr
  · exact absurd he (h sale)

/-- The answer to a purchase is its outcome, on whatever connection it arrives. -/
theorem received_bought {purchase : Purchase} {result : Except MamFailure MamReply}
    {record : PurchaseRecord}
    (ha : c.mam.accepted event = some (.buy purchase, result))
    (h : c.mam.account.lastPurchase = some record) :
    (c.received now event).mam.account.lastPurchase =
      some { record with outcome := some (purchaseResult purchase result).2 } := by
  obtain ⟨sent, epoch, rotated, -, rfl⟩ := accepted_outstanding ha
  rw [received_answered (by simp), ha]
  unfold Account.answered Account.bought
  dsimp only
  rw [h]
  rfl

theorem received_unanswered {record : PurchaseRecord}
    (ha : ∀ purchase result, c.mam.accepted event ≠ some (.buy purchase, result))
    (h : c.mam.account.lastPurchase = some record) (hn : record.outcome = none) :
    (c.received now event).mam.account.lastPurchase = some record := by
  obtain hr | ⟨sale, -, hr⟩ := (received_receives c now event).account
  · rw [hr]
    unfold Account.answered
    split
    · rw [read_frame]
      exact settle_certain _ h (by simp [hn])
    · exact h
    · next purchase result heq => exact absurd heq (ha purchase result)
    · exact h
  · rw [hr]
    exact checked_known sale h (by simp [hn])

theorem received_unbought (ha : ∀ purchase result, c.mam.accepted event ≠ some (.buy purchase, result))
    (h : c.mam.account.lastPurchase = none) : (c.received now event).mam.account.lastPurchase = none := by
  obtain hr | ⟨sale, -, hr⟩ := (received_receives c now event).account
  · rw [hr]
    unfold Account.answered
    split
    · rw [read_frame]
      unfold Account.settle
      dsimp only
      rw [h]
      exact h
    · exact h
    · next purchase result heq => exact absurd heq (ha purchase result)
    · exact h
  · rw [hr]
    unfold Account.checked
    rw [h]
    exact h

theorem unbought_before (h : (c.received now event).mam.account.lastPurchase = none) :
    c.mam.account.lastPurchase = none := by
  cases hlast : c.mam.account.lastPurchase with
  | none => rfl
  | some record =>
    obtain hr | ⟨sale, -, hr⟩ := (received_receives c now event).account
    · rw [hr] at h
      unfold Account.answered at h
      split at h
      · rw [read_frame] at h
        unfold Account.settle at h
        dsimp only at h
        rw [hlast] at h
        dsimp only at h
        split at h
        · cases h
        · rw [hlast] at h
          cases h
      · rw [← hlast, ← h]
        rfl
      · cases h
      · rw [← hlast, ← h]
    · rw [hr] at h
      unfold Account.checked at h
      rw [hlast] at h
      dsimp only at h
      split at h
      · cases h
      · rw [hlast] at h
        cases h

/-- A purchase with an outcome changes it only as a reading settles it or the owner
checks it. -/
theorem received_followed {i : TimedEvent} {record : PurchaseRecord} {before : Before}
    {outcome : PurchaseOutcome}
    (ha : ∀ purchase result, c.mam.accepted i.event ≠ some (.buy purchase, result))
    (h : c.mam.account.lastPurchase = some record) (hb : record.before = some before)
    (ho : record.outcome = some outcome) :
    (c.received i.occurredAt i.event).mam.account.lastPurchase =
      some { record with outcome := some (followPurchase before outcome (core.entry c i)) } := by
  have hsame : some record = some { record with outcome := some outcome } := by rw [← ho]
  -- the owner checks the purchase, the account is read, or neither
  by_cases he : ∃ sale, i.event = .mam (.purchaseChecked sale)
  · obtain ⟨sale, he⟩ := he
    have hno : ∀ clients data, ¬ Handled.Reads (core.entry c i) clients data := by
      intro clients data hread
      have ha' : c.mam.accepted i.event = _ := hread
      rw [he] at ha'
      cases ha'
    have hr : (c.received i.occurredAt i.event).mam.account = (c.mam.account.checked sale).1 := by
      rw [he]
      exact received_checked c i.occurredAt sale
    rw [hr]
    by_cases hn : outcome = .unresolved
    · subst hn
      rw [checked_unresolved sale h ho, followPurchase_checked he]
    · rw [checked_known sale h (by simpa [ho] using hn), hsame]
      by_cases hu : outcome = .uncertain
      · subst hu
        rw [followPurchase_unread hno]
      · rw [followPurchase_known hu hn]
  · rw [received_answered (not_exists.mp he)]
    by_cases hread : ∃ clients data, Handled.Reads (core.entry c i) clients data
    · obtain ⟨clients, data, hread⟩ := hread
      have ha' : c.mam.accepted i.event = some (.loadUserData clients, .ok (.userData data)) := hread
      rw [ha']
      unfold Account.answered
      dsimp only
      rw [read_frame]
      dsimp only
      by_cases hu : outcome = .uncertain
      · subst hu
        rw [settle_uncertain data h hb ho, followPurchase_reads hread]
      · rw [settle_certain data h (by simpa [ho] using hu), hsame]
        by_cases hn : outcome = .unresolved
        · subst hn
          rw [followPurchase_unchecked (not_exists.mp he)]
        · rw [followPurchase_known hu hn]
    · have hkept : (c.mam.account.answered i.occurredAt (c.mam.accepted i.event)).lastPurchase =
        some record := by
        unfold Account.answered
        split
        · next clients data heq => exact absurd ⟨clients, data, heq⟩ hread
        · exact h
        · next purchase result heq => exact absurd heq (ha purchase result)
        · exact h
      rw [hkept, hsame]
      by_cases hu : outcome = .uncertain
      · subst hu
        rw [followPurchase_unread fun clients data h => hread ⟨clients, data, h⟩]
      · by_cases hn : outcome = .unresolved
        · subst hn
          rw [followPurchase_unchecked (not_exists.mp he)]
        · rw [followPurchase_known hu hn]

end

/-! ## Where the record of the last purchase comes from -/

def OutcomeOf (slot : Option Outstanding) (record : PurchaseRecord) (before : Before)
    (steps : List Handled) : Prop :=
  match record.outcome with
  | none =>
    (∃ sent epoch, slot = some (.request (.buy record.purchase) sent epoch)) ∧ ∀ x ∈ steps,
    requests x.out = []
  | some outcome => ∃ pre g post result, steps = pre ++ g :: post ∧ (∀ x ∈ pre, requests x.out = []) ∧
      Handled.answer g = some (.buy record.purchase, result) ∧
      outcome = post.foldl (followPurchase before) (purchaseResult record.purchase result).2

def Buys (e : Handled) : Prop := ∃ purchase, Sends e (.buy purchase)

structure PurchasedBy (tr later : List Handled) (slot : Option Outstanding) (record : PurchaseRecord)
    (pre mid : List Handled) (b : Handled) (based : UserData) : Prop where
  split : tr = pre ++ b :: mid
  sends : Sends b (.buy record.purchase)
  sent : record.sent = b.time
  data : b.after.mam.account.data = some based
  before : record.before = some ⟨based.points, based.vipUntil⟩
  alone : ∀ x ∈ mid, ¬ Buys x
  outcome : OutcomeOf slot record ⟨based.points, based.vipUntil⟩ (mid ++ later)

structure PurchaseInv (tr : List Handled) (c : Core) : Prop where
  record : ∀ record, c.mam.account.lastPurchase = some record →
    ∃ pre mid b based, PurchasedBy tr [] c.mam.outstanding record pre mid b based
  unbought : c.mam.account.lastPurchase = none → ∀ x ∈ tr, ¬ Buys x
  slot : ∀ purchase sent epoch, c.mam.outstanding = some (.request (.buy purchase) sent epoch) →
    ∃ record, c.mam.account.lastPurchase = some record ∧ record.purchase = purchase ∧
    record.outcome = none
  refused : ∀ g ∈ tr, ∀ purchase result message, Handled.answer g = some (.buy purchase, result) →
    (purchaseResult purchase result).2 = .refused message →
    ∃ refused, c.mam.account.refused = some refused ∧ g.time ≤ refused

section
variable {tr : List Handled} {c : Core} {i : TimedEvent}

theorem received_purchasedBy (hi : PurchaseInv tr c) {record : PurchaseRecord}
    (h : (c.received i.occurredAt i.event).mam.account.lastPurchase = some record) :
    ∃ pre mid b based, PurchasedBy tr [core.entry c i] (c.mam.slotAfter i.occurredAt i.event) record
    pre mid b based := by
  cases hlast : c.mam.account.lastPurchase with
  | none =>
    by_cases ha : ∃ purchase result, c.mam.accepted i.event = some (.buy purchase, result)
    · obtain ⟨purchase, result, ha⟩ := ha
      obtain ⟨sent, epoch, rotated, ho, -⟩ := accepted_outstanding ha
      obtain ⟨record', hr', -⟩ := hi.slot purchase sent epoch ho
      rw [hlast] at hr'
      cases hr'
    · rw [received_unbought (fun purchase result h => ha ⟨purchase, result, h⟩) hlast] at h
      cases h
  | some last =>
    obtain ⟨pre, mid, b, based, hb⟩ := hi.record last hlast
    -- the answer to the purchase on record ends its wait
    by_cases ha : ∃ purchase result, c.mam.accepted i.event = some (.buy purchase, result)
    · obtain ⟨purchase, result, ha⟩ := ha
      obtain ⟨sent, epoch, rotated, ho, -⟩ := accepted_outstanding ha
      obtain ⟨record', hr', rfl, hnone⟩ := hi.slot purchase sent epoch ho
      rw [hlast] at hr'
      cases hr'
      rw [received_bought ha hlast] at h
      cases h
      have hout := hb.outcome
      unfold OutcomeOf at hout
      rw [hnone] at hout
      refine ⟨pre, mid, b, based, hb.split, hb.sends, hb.sent, hb.data, hb.before, hb.alone, ?_⟩
      exact ⟨mid, core.entry c i, [], result, rfl, by simpa using hout.2, ha, rfl⟩
    · have ha' : ∀ purchase result, c.mam.accepted i.event ≠ some (.buy purchase, result) :=
        fun purchase result h => ha ⟨purchase, result, h⟩
      have hout := hb.outcome
      unfold OutcomeOf at hout
      rw [List.append_nil] at hout
      cases hoc : last.outcome with
      | none =>
        rw [received_unanswered ha' hlast hoc] at h
        cases h
        rw [hoc] at hout
        obtain ⟨⟨sent, epoch, hslot⟩, hquiet⟩ := hout
        have hans : i.event.isAnswer = false := by
          by_contra hans
          obtain ⟨result, rotated, he⟩ := isAnswer_iff.mp (by simpa using hans)
          refine ha' record.purchase result ?_
          simp [Mam.accepted, he, hslot, MamRequest.recordsSpend]
        refine ⟨pre, mid, b, based, hb.split, hb.sends, hb.sent, hb.data, hb.before, hb.alone, ?_⟩
        unfold OutcomeOf
        rw [hoc]
        refine ⟨⟨sent, epoch, slotAfter_unanswered hslot hans⟩, ?_⟩
        intro x hx
        rw [List.mem_append, List.mem_singleton] at hx
        obtain hx | rfl := hx
        · exact hquiet x hx
        · exact (unanswered_step i.occurredAt hslot hans).2
      | some outcome =>
        rw [received_followed ha' hlast hb.before hoc] at h
        cases h
        rw [hoc] at hout
        obtain ⟨l, g, l', result, rfl, hquiet, hg, rfl⟩ := hout
        refine ⟨pre, _, b, based, hb.split, hb.sends, hb.sent, hb.data, hb.before, hb.alone, ?_⟩
        refine ⟨l, g, l' ++ [core.entry c i], result, by simp, hquiet, hg, ?_⟩
        rw [List.foldl_append]
        rfl

theorem received_refused (c : Core) (now : ClockReading) (event : Event) :
    (∃ purchase result message, c.mam.accepted event = some (.buy purchase, result) ∧
      (purchaseResult purchase result).2 = .refused message ∧
      (c.received now event).mam.account.refused = some now.monotonic) ∨
    ((∀ purchase result message, c.mam.accepted event = some (.buy purchase, result) →
      (purchaseResult purchase result).2 ≠ .refused message) ∧
      (c.received now event).mam.account.refused = c.mam.account.refused) := by
  by_cases ha : ∃ purchase result, c.mam.accepted event = some (.buy purchase, result)
  · obtain ⟨purchase, result, ha⟩ := ha
    obtain ⟨_, _, rotated, -, rfl⟩ := accepted_outstanding ha
    rw [received_answered (by simp), ha]
    unfold Account.answered Account.bought
    dsimp only
    split
    · next message hm => exact .inl ⟨purchase, result, message, rfl, hm, rfl⟩
    · next hm =>
      refine .inr ⟨?_, rfl⟩
      intro _ _ message heq
      cases heq
      exact hm message
  · refine .inr ⟨fun purchase result message h => absurd ⟨purchase, result, h⟩ ha, ?_⟩
    refine received_account_refused ?_
    intro request result h hk
    cases request with
    | buy purchase => exact ha ⟨purchase, result, h⟩
    | _ => cases hk

theorem sentPurchase_purchasedBy {purchase : Purchase} {cookie : Option ApiCookie} {points : Points}
    {record : PurchaseRecord}
    (hreq : requests (c.handle i.occurredAt i.event).2 = [(.buy purchase, cookie)])
    (hw : (c.received i.occurredAt i.event).mam.account.wantedPurchase i.occurredAt.monotonic
      i.occurredAt.wall
      points = some purchase)
    (hr : ((c.received i.occurredAt i.event).mam.account.buying purchase i.occurredAt.monotonic
      i.occurredAt.wall).lastPurchase = some record) :
    ∃ based, PurchasedBy (tr ++ [core.entry c i]) [] (core.step c i).1.mam.outstanding record tr []
      (core.entry c i) based := by
  obtain ⟨reading, hreading, -⟩ := wantedPurchase_cases hw
  have hdata : (c.received i.occurredAt i.event).mam.account.data = some reading.data := by
    unfold Account.data
    rw [hreading]
    rfl
  have hsent : .mamRequest (.buy purchase) cookie ∈ (c.handle i.occurredAt i.event).2 := by
    rw [← mem_requests, hreq]
    exact List.mem_singleton_self _
  obtain ⟨-, epoch, ho⟩ := sent_step hsent
  unfold Account.buying at hr
  cases hr
  refine ⟨reading.data, rfl, ⟨cookie, hsent⟩, rfl, ?_, ?_, by simp, ?_⟩
  · rw [entry_after, handle_account]
    exact hdata
  · dsimp only
    rw [hdata]
    rfl
  · exact ⟨⟨i.occurredAt.monotonic, epoch, ho⟩, by simp⟩

theorem purchaseInv_step (hs : Steady (tr ++ [core.entry c i])) (hi : PurchaseInv tr c) :
    PurchaseInv (tr ++ [core.entry c i]) (core.step c i).1 := by
  have hnow : ∀ e ∈ tr, e.time ≤ i.occurredAt.monotonic :=
    fun e he => (List.pairwise_append.mp hs).2.2 e he _ (List.mem_singleton_self _)
  refine ⟨?_, ?_, ?_, ?_⟩
  -- the purchase on record is this step's own, or the one there was
  · intro record hr
    obtain ⟨purchase, cookie, points, hreq, hw, hlast⟩ | ⟨hno, hlast⟩ :=
      handle_purchase c i.occurredAt i.event
    · exact ⟨tr, [], core.entry c i, sentPurchase_purchasedBy hreq hw (hlast.symm.trans hr)⟩
    · obtain ⟨pre, mid, b, based, hb⟩ := received_purchasedBy hi (hlast.symm.trans hr)
      refine ⟨pre, mid ++ [core.entry c i], b, based, ?_, hb.sends, hb.sent, hb.data, hb.before, ?_, ?_⟩
      · simp [hb.split]
      · intro x hx
        rw [List.mem_append, List.mem_singleton] at hx
        obtain hx | rfl := hx
        · exact hb.alone x hx
        · rintro ⟨purchase, cookie, hmem⟩
          exact hno purchase cookie hmem
      · have hout := hb.outcome
        unfold OutcomeOf at hout ⊢
        rw [List.append_nil]
        cases hoc : record.outcome with
        | none =>
          rw [hoc] at hout
          obtain ⟨⟨sent, epoch, hslot⟩, hquiet⟩ := hout
          exact ⟨⟨sent, epoch, (slot_taken c i.occurredAt i.event hslot).1⟩, hquiet⟩
        | some outcome =>
          rw [hoc] at hout
          exact hout
  · intro hn x hx hbuys
    obtain ⟨purchase, cookie, points, hreq, hw, hlast⟩ | ⟨hno, hlast⟩ :=
      handle_purchase c i.occurredAt i.event
    · rw [core_step, hlast] at hn
      cases hn
    · rw [List.mem_append, List.mem_singleton] at hx
      obtain hx | rfl := hx
      · exact hi.unbought (unbought_before (hlast.symm.trans hn)) x hx hbuys
      · obtain ⟨purchase, cookie, hmem⟩ := hbuys
        exact hno purchase cookie hmem
  -- the purchase in flight is the one on record, still without an outcome
  · intro purchase sent epoch ho
    obtain ⟨hb, hq⟩ | ⟨rfl, cookie, hmem⟩ := outstanding_sent ho
    · obtain ⟨record, hr, hp, hnone⟩ := hi.slot purchase sent epoch hb
      have hans : i.event.isAnswer = false := (outstanding_kept hq ho).2
      refine ⟨record, ?_, hp, hnone⟩
      obtain ⟨purchase', cookie, points, hreq, -⟩ | ⟨-, hlast⟩ := handle_purchase c i.occurredAt i.event
      · rw [hq] at hreq
        cases hreq
      · refine hlast.trans (received_unanswered ?_ hr hnone)
        rw [accepted_none i.event hans]
        simp
    · obtain ⟨purchase', cookie', points, hreq, -, hlast⟩ | ⟨hno, -⟩ :=
        handle_purchase c i.occurredAt i.event
      · rw [← mem_requests, hreq, List.mem_singleton] at hmem
        cases hmem
        exact ⟨_, hlast, rfl, rfl⟩
      · exact absurd hmem (hno purchase cookie)
  · intro g hg purchase result message ha hm
    rw [core_step, handle_account]
    dsimp only
    rw [List.mem_append, List.mem_singleton] at hg
    obtain ⟨_, _, _, -, -, h⟩ | ⟨hno, h⟩ := received_refused c i.occurredAt i.event
    · refine ⟨i.occurredAt.monotonic, h, ?_⟩
      obtain hg | rfl := hg
      · exact hnow g hg
      · exact le_rfl
    · obtain hg | rfl := hg
      · obtain ⟨refused, hr, hle⟩ := hi.refused g hg purchase result message ha hm
        exact ⟨refused, h.trans hr, hle⟩
      · exact absurd hm (hno purchase result message ha)

end

theorem purchaseInv_init : PurchaseInv [] Core.new where
  record := by intro record h; cases h
  unbought := by intro _ x hx; cases hx
  slot := by intro purchase sent epoch h; cases h
  refused := by intro g hg; cases hg

theorem purchaseInv_run (is : List TimedEvent) (hs : Steady (core.run is)) :
    PurchaseInv (core.run is) (core.last is) :=
  Reactive.run_invariant core (fun _ _ h => (List.pairwise_append.mp h).1) purchaseInv_init
    (fun _ _ _ hi hs => purchaseInv_step hs hi) is hs

/-! ## Purchases over a run -/

def RestsOn (steps : List Handled) (f : Handled) (clients : ClientListing) : Prop :=
  ∃ r ∈ steps, ∃ data, Handled.Reads r clients data ∧ f.after.mam.account.data = some data ∧
    f.time ≤ r.time + accountFreshFor

/-- What a step that buys may rely on, after the steps `pre`: a recent reading, no
refusal in the last six hours, and that the purchase before it, sent at `b`, was
answered, its outcome is known, and the reading was asked for after the answer. -/
structure PurchaseSafe (pre : List Handled) (f : Handled) : Prop where
  reading : ∃ clients, RestsOn (pre ++ [f]) f clients
  refused : ∀ g ∈ pre ++ [f], ∀ purchase result message, Handled.answer g = some (.buy purchase, result) →
    (purchaseResult purchase result).2 = .refused message → g.time + refusalBackoff ≤ f.time
  previous : ∀ pre' b mid purchase, pre = pre' ++ b :: mid → Sends b (.buy purchase) →
    (∀ x ∈ mid, ¬ Buys x) →
    ∃ l g l' result based, mid ++ [f] = l ++ g :: l' ∧ Handled.answer g = some (.buy purchase, result) ∧
      b.after.mam.account.data = some based ∧
      ((purchaseResult purchase result).2 = .uncertain → PurchaseCleared based l') ∧
      ∃ k h k' clients, g :: l' = k ++ h :: k' ∧ Sends h (.loadUserData clients) ∧ RestsOn k' f clients

theorem last_split_unique {α : Type} {P : α → Prop} {l l' m m' : List α} {b b' : α}
    (h : l ++ b :: m = l' ++ b' :: m') (hb : P b) (hb' : P b') (hm : ∀ x ∈ m, ¬ P x)
    (hm' : ∀ x ∈ m', ¬ P x) :
    l = l' ∧ b = b' ∧ m = m' := by
  obtain ⟨as, rfl, hrest⟩ | ⟨cs, rfl, hrest⟩ := List.append_eq_append_iff.mp h
  · cases as with
    | nil =>
      obtain ⟨rfl, rfl⟩ := List.cons.inj hrest
      exact ⟨by simp, rfl, rfl⟩
    | cons x as =>
      obtain ⟨-, htail⟩ := List.cons.inj hrest
      exact absurd hb' (hm b' (by rw [htail]; simp))
  · cases cs with
    | nil =>
      obtain ⟨rfl, rfl⟩ := List.cons.inj hrest
      exact ⟨by simp, rfl, rfl⟩
    | cons x cs =>
      obtain ⟨-, htail⟩ := List.cons.inj hrest
      exact absurd hb (hm' b (by rw [htail]; simp))

theorem sends_after_quiet {l l' m rest : List Handled} {g h : Handled}
    (heq : l ++ g :: l' = m ++ h :: rest)
    (hl : ∀ x ∈ l, requests x.out = []) (hh : requests h.out ≠ []) : ∃ k, g :: l' = k ++ h :: rest := by
  obtain ⟨as, rfl, hrest⟩ | ⟨cs, rfl, hrest⟩ := List.append_eq_append_iff.mp heq
  · exact ⟨as, hrest⟩
  · cases cs with
    | nil => exact ⟨[], hrest.symm⟩
    | cons x cs =>
      obtain ⟨rfl, -⟩ := List.cons.inj hrest
      exact absurd (hl h (by simp)) hh

section
variable {js : List TimedEvent} {i : TimedEvent}

theorem purchase_safe (hs : Steady (core.run js ++ [core.entry (core.last js) i]))
    (hf : Buys (core.entry (core.last js) i)) :
    PurchaseSafe (core.run js) (core.entry (core.last js) i) := by
  have hsjs := (List.pairwise_append.mp hs).1
  have hi := purchaseInv_run js hsjs
  have hi' := purchaseInv_step hs hi
  obtain ⟨purchase, cookie, hmem⟩ := hf
  obtain ⟨purchase', cookie', points, hreq, hw, -⟩ | ⟨hno, -⟩ :=
    handle_purchase (core.last js) i.occurredAt i.event
  · obtain ⟨reading, hreading, hage, hlast⟩ := wantedPurchase_cases hw
    have hafter : (core.step (core.last js) i).1.mam.account.reading = some reading := by
      rw [core_step, handle_account]
      exact hreading
    have hdata : (core.step (core.last js) i).1.mam.account.data = some reading.data := by
      unfold Account.data
      rw [hafter]
      rfl
    obtain ⟨pr, md, po, h, r, hread⟩ := (sourceInv_step (sourceInv_run js)).reading reading hafter
    obtain ⟨clients, hsends, hreads⟩ := hread.asked
    have hfresh : i.occurredAt.monotonic ≤ r.time + accountFreshFor := by
      rw [hread.taken]
      exact Instant.le_add_of_durationSince hage
    refine ⟨⟨clients, r, by rw [hread.split]; simp, reading.data, hreads, hdata, hfresh⟩, ?_, ?_⟩
    · intro g hg purchase result message ha hm
      obtain ⟨refused, hr, hle⟩ := hi'.refused g hg purchase result message ha hm
      rw [core_step, handle_account] at hr
      exact (Nat.add_le_add_right hle refusalBackoff).trans (wantedPurchase_refused hw hr)
    · intro pre' b mid purchase hsplit hb halone
      -- the previous purchase is the one on record, as no other came between
      cases hrec : ((core.last js).received i.occurredAt i.event).mam.account.lastPurchase with
      | none =>
        refine absurd ⟨purchase, hb⟩ (hi.unbought (unbought_before hrec) b ?_)
        rw [hsplit]
        simp
      | some record =>
        obtain ⟨pre₀, mid₀, b₀, based, hby⟩ := received_purchasedBy hi hrec
        obtain ⟨rfl, rfl, rfl⟩ := last_split_unique (hsplit.symm.trans hby.split) ⟨purchase, hb⟩
          ⟨record.purchase, hby.sends⟩ halone hby.alone
        have hmemb : b ∈ core.run js := by rw [hsplit]; simp
        have hpurchase : purchase = record.purchase := by
          have h := sends_unique hmemb hb hby.sends
          cases h
          rfl
        subst hpurchase
        obtain ⟨hsent, outcome, hoc, hu, hn⟩ := hlast record hrec
        have hout := hby.outcome
        unfold OutcomeOf at hout
        rw [hoc] at hout
        obtain ⟨l, g, l', result, hmid, hquiet, hg, hfold⟩ := hout
        refine ⟨l, g, l', result, based, hmid, hg, hby.data, ?_, ?_⟩
        · intro huncertain
          rw [huncertain] at hfold
          exact uncertain_cleared hfold.symm hu hn
        · have hwhole : core.run js ++ [core.entry (core.last js) i] =
              pre' ++ b :: (mid ++ [core.entry (core.last js) i]) := by
            rw [hsplit]
            simp
          have hne : b ≠ h := by
            rintro rfl
            cases sends_unique hmemb hb hsends
          obtain ⟨m, -, hm⟩ :=
            hread.after hs hwhole hb.requests_ne_nil hne (by rw [← hby.sent]; exact hsent)
          obtain ⟨k, hk⟩ := sends_after_quiet (hmid.symm.trans hm) hquiet hsends.requests_ne_nil
          exact ⟨k, h, md ++ r :: po, clients, hk, hsends, r, by simp, reading.data, hreads, hdata,
            hfresh⟩
  · exact absurd hmem (hno purchase cookie)

end

theorem purchases_safe {is : List TimedEvent} (hs : Steady (core.run is)) :
    (∀ pre f post, core.run is = pre ++ f :: post → Buys f → PurchaseSafe pre f) ∧
    ∀ pre e post, core.run is = pre ++ e :: post →
      ∀ record, e.before.mam.account.lastPurchase = some record → record.outcome = some .uncertain →
      ∀ record' sale, (e.before.received e.input.occurredAt
        e.input.event).mam.account.lastPurchase = some record' →
        record'.outcome = some (.settled sale .reading) →
        ∃ pre' b mid based clients data, pre = pre' ++ b :: mid ∧ Sends b (.buy record.purchase) ∧
          (∀ x ∈ mid, ¬ Buys x) ∧ b.after.mam.account.data = some based ∧ Handled.Reads e clients data ∧
          (sale = .made → laterVip data.vipUntil based.vipUntil) ∧
          (sale = .notMade → ¬ laterVip data.vipUntil based.vipUntil ∧ based.points ≤ data.points) := by
  refine ⟨?_, ?_⟩
  · intro pre f post hrun hf
    have hsteady : Steady (pre ++ [f]) := by
      rw [hrun] at hs
      have hall : Steady ((pre ++ [f]) ++ post) := by simpa using hs
      exact (List.pairwise_append.mp hall).1
    obtain ⟨js, i, ks, his, rfl, rfl, -⟩ := Reactive.run_split core hrun
    exact purchase_safe hsteady hf
  · intro pre e post hrun record hrecord huncertain record' sale hreceived hsettled
    obtain ⟨js, i, ks, his, rfl, rfl, -⟩ := Reactive.run_split core hrun
    have hi := purchaseInv_run js (List.pairwise_append.mp (hrun ▸ hs)).1
    obtain ⟨pre', mid, b, based, hb⟩ := hi.record record hrecord
    have hno : ∀ purchase result, (core.last js).mam.accepted i.event ≠ some (.buy purchase, result) := by
      intro purchase result ha
      obtain ⟨sent, epoch, rotated, ho, -⟩ := accepted_outstanding ha
      obtain ⟨last, hlast, -, hnone⟩ := hi.slot purchase sent epoch ho
      rw [entry_before, hlast] at hrecord
      cases hrecord
      rw [hnone] at huncertain
      cases huncertain
    have hfollowed := received_followed hno hrecord hb.before huncertain
    rw [entry_before, entry_input, hfollowed] at hreceived
    cases hreceived
    by_cases hread : ∃ clients data, Handled.Reads (core.entry (core.last js) i) clients data
    · obtain ⟨clients, data, hread⟩ := hread
      dsimp only at hsettled
      rw [followPurchase_reads hread, Option.some.injEq] at hsettled
      exact ⟨pre', b, mid, based, clients, data, hb.split, hb.sends, hb.alone, hb.data, hread,
        judge_cases hsettled⟩
    · dsimp only at hsettled
      rw [followPurchase_unread fun clients data h => hread ⟨clients, data, h⟩] at hsettled
      cases hsettled

def richData : UserData := { accountData with points := 100000 }

def uncertainEvents : List TimedEvent :=
  startedEvents ++
    [attemptSaved, registeredAt 63, replyAt 64 (.userData richData), failureAt 65 .unreachable,
      replyAt 66 noBookmarks,
      wakeAt 124]

theorem bought_again_once_settled :
    Buys (core.entry (core.last uncertainEvents) (replyAt 125 (.userData richData))) ∧
    PurchaseSafe (core.run uncertainEvents)
      (core.entry (core.last uncertainEvents) (replyAt 125 (.userData richData))) := by
  have hrun := Reactive.run_snoc core uncertainEvents (replyAt 125 (.userData richData))
  have hbuys : Buys (core.entry (core.last uncertainEvents) (replyAt 125 (.userData richData))) :=
    ⟨.vip, some savedCookie, by decide +kernel⟩
  have hsteady : Steady (core.run (uncertainEvents ++ [replyAt 125 (.userData richData)])) :=
    steady_iff.mpr (by decide +kernel)
  exact ⟨hbuys, (purchases_safe hsteady).1 _ _ [] hrun hbuys⟩

end Windlass
