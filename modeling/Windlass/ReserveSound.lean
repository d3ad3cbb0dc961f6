import Windlass.Mam.Account

/-!
# The points reserve

A renewal is weighed in whole hundredths of a week. What that drops of the time
bought is not weighed against the reserve, and what it drops of the price paid is
not learned.
-/

namespace Windlass

/-! ## The price of a time -/

def centiweek : Duration := Duration.fromSecs 6048

def vipRemaining (data : UserData) (now : SystemTime) : Duration :=
  (data.vipUntil.bind fun until' => until'.durationSince now).getD 0

def vipTime (data : UserData) (now : SystemTime) : Duration := max (vipFill - vipRemaining data now) week

def proRata (perWeek : Points) (time : Duration) : Points := perWeek * time ⌈/⌉ week

theorem week_eq : week = 100 * centiweek := by decide

/-- A time's price is within the budget when what whole parts of it leave of the
budget pays for the rest. -/
theorem rest_paid_iff (price time part : Nat) (parts budget : ℤ) :
    (price * time : ℤ) ≤ parts * part * budget ↔
      (price * (time % part : ℕ) : ℤ) ≤ part * (parts * budget - price * (time / part : ℕ)) := by
  have htime : (time : ℤ) = part * (time / part : ℕ) + (time % part : ℕ) := by
    exact_mod_cast (Nat.div_add_mod time part).symm
  rw [htime]
  constructor
  · intro h
    linarith
  · intro h
    linarith

theorem proRata_within_iff (reserve price time points : Nat) : reserve + proRata price time ≤ points ↔
    (price * (time % centiweek : ℕ) : ℤ) ≤
      centiweek * (100 * ((points : ℤ) - reserve) - price * (time / centiweek : ℕ)) := by
  have hprice : reserve + proRata price time ≤ points ↔
      (price * time : ℤ) ≤ 100 * centiweek * ((points : ℤ) - reserve) := by
    -- a reserve above the balance leaves nothing to pay from
    obtain hle | hlt := le_or_gt reserve points
    · obtain ⟨budget, rfl⟩ := Nat.exists_eq_add_of_le hle
      have hpro : proRata price time ≤ budget ↔ price * time ≤ week * budget :=
        ceilDiv_le_iff_le_mul (by decide)
      rw [Nat.add_le_add_iff_left, hpro, week_eq, Nat.cast_add, add_sub_cancel_left]
      exact_mod_cast Iff.rfl
    · refine iff_of_false (by omega) (not_le.mpr ?_)
      have hneg : (100 * centiweek : ℤ) * ((points : ℤ) - reserve) < 0 :=
        mul_neg_of_pos_of_neg (by decide) (by omega)
      exact hneg.trans_le (by positivity)
  rw [hprice]
  exact rest_paid_iff price time centiweek 100 (points - reserve)

/-! ## Spending -/

/-- The reading a purchase may be based on: a fresh one since the last purchase,
which is settled, with no refusal in the last hours. -/
def Account.spendable (a : Account) (now : Instant) : Option UserData :=
  let waiting := a.lastPurchase.any fun purchase =>
    match purchase.outcome with
    | none | some .uncertain | some .unresolved => true
    | _ => false
  if waiting || a.refused.any fun at' => now.durationSince at' < refusalBackoff then none
  else a.fresh now (a.lastPurchase.map (·.sent))

theorem spendable_data {a : Account} {now : Instant} {data : UserData} (h : a.spendable now = some data) :
    a.data = some data := by
  unfold Account.spendable Account.fresh at h
  dsimp only at h
  split at h
  · cases h
  · obtain ⟨reading, hr, rfl⟩ := Option.map_eq_some_iff.mp h
    rw [Option.filter_eq_some_iff] at hr
    unfold Account.data
    rw [hr.1]
    rfl

theorem hundredths_eq {time : Nat} (hlow : week ≤ time) (hhigh : time ≤ vipFill) :
    max (satMul u64Max (Duration.asSecs time) 100 / Duration.asSecs week) 100 = time / centiweek := by
  have hsecs : Duration.asSecs time * 100 / Duration.asSecs week = time / centiweek := by
    have hw : Duration.asSecs week = 6048 * 100 := by decide
    rw [hw, Nat.mul_div_mul_right _ _ (by decide)]
    exact Nat.div_div_eq_div_mul time 1000000000 6048
  have hroom : Duration.asSecs time * 100 ≤ u64Max := by
    have hfill : Duration.asSecs vipFill * 100 ≤ u64Max := by decide
    exact (Nat.mul_le_mul_right 100 (Nat.div_le_div_right hhigh)).trans hfill
  have hleast : 100 ≤ time / centiweek := by
    rw [Nat.le_div_iff_mul_le (by decide), ← week_eq]
    exact hlow
  rw [satMul, min_eq_left hroom, hsecs, max_eq_left hleast]

theorem vipWeeks_eq (data : UserData) (now : SystemTime) : vipWeeks data now =
    if vipRenewWithin ≤ vipRemaining data now then none else some (vipTime data now / centiweek) := by
  unfold vipWeeks
  by_cases hdue : vipRenewWithin ≤ vipRemaining data now
  · rw [if_pos hdue]
    exact if_pos hdue
  · rw [if_neg hdue]
    refine (if_neg hdue).trans (congrArg some ?_)
    have hlow : week ≤ vipFill - vipRemaining data now := by
      have hfill : week + vipRenewWithin ≤ vipFill := by decide
      exact Nat.le_sub_of_add_le ((Nat.add_le_add_left (le_of_lt (not_le.mp hdue)) week).trans hfill)
    have htime : vipTime data now = vipFill - vipRemaining data now := max_eq_left hlow
    rw [htime]
    exact hundredths_eq hlow (Nat.sub_le _ _)

theorem wantedPurchase_iff (a : Account) (now : Instant) (wall : SystemTime) (reserve : Points) :
    a.wantedPurchase now wall reserve = some .vip ↔ ∃ data, a.spendable now = some data ∧
      vipRemaining data wall < vipRenewWithin ∧
      reserve.plus (VipWeeks.cost (vipTime data wall / centiweek) a.vipPricePerWeek) ≤ data.points := by
  unfold Account.wantedPurchase Account.spendable Account.vipCost
  simp only [vipWeeks_eq]
  generalize (a.lastPurchase.any _ : Bool) = waiting
  generalize (a.refused.any _ : Bool) = backedOff
  cases waiting with
  | true => simp
  | false =>
    cases backedOff with
    | true => simp
    | false =>
      simp only [Bool.not_false, Bool.and_true, Option.filter_eq_some_iff, Bool.or_self,
        Bool.false_eq_true, if_false,
        Option.bind_eq_some_iff, decide_eq_true_eq, and_true]
      constructor
      · rintro ⟨data, hdata, cost, hcost, hbuy⟩
        split at hcost
        · cases hcost
        · next hdue =>
          cases hcost
          split at hbuy
          · next hle => exact ⟨data, hdata, not_le.mp hdue, hle⟩
          · cases hbuy
      · rintro ⟨data, hdata, hdue, hle⟩
        refine ⟨data, hdata, _, ?_, if_pos hle⟩
        rw [if_neg (not_le.mpr hdue)]
        rfl

/-- What is left of the balance after the renewal is the reserve at least. -/
def Account.KeepsReserve (a : Account) (now : Instant) (wall : SystemTime) (reserve : Points) : Prop :=
  a.wantedPurchase now wall reserve = some .vip → ∀ data, a.data = some data →
    reserve + proRata a.vipPricePerWeek (vipTime data wall) ≤ data.points

def slack (points reserve cost : Points) : ℤ := points - (reserve + cost)

def rounding (hundredths perWeek cost : Points) : ℤ := 100 * cost - perWeek * hundredths

/-- Where the check passes, the time under a hundredth of a week costs no more than the
check leaves and the price was rounded up by. -/
def Account.PaysRest (a : Account) (now : Instant) (wall : SystemTime) (reserve : Points) : Prop :=
  ∀ data, a.spendable now = some data → vipRemaining data wall < vipRenewWithin →
    let hundredths := vipTime data wall / centiweek
    let cost := VipWeeks.cost hundredths a.vipPricePerWeek
    reserve.plus cost ≤ data.points →
    (a.vipPricePerWeek * (vipTime data wall % centiweek : ℕ) : ℤ) ≤
      centiweek * (100 * slack data.points reserve cost + rounding hundredths a.vipPricePerWeek cost)

theorem slack_rounding (points reserve hundredths perWeek cost : Points) :
    100 * slack points reserve cost + rounding hundredths perWeek cost =
      100 * ((points : ℤ) - reserve) - perWeek * hundredths := by
  unfold slack rounding
  ring

theorem keepsReserve_iff (a : Account) (now : Instant) (wall : SystemTime) (reserve : Points) :
    a.KeepsReserve now wall reserve ↔ a.PaysRest now wall reserve := by
  unfold Account.KeepsReserve Account.PaysRest
  rw [wantedPurchase_iff]
  simp only [slack_rounding]
  -- the check itself is among the hypotheses on both sides
  constructor
  · intro h data hdata hdue hcost
    exact (proRata_within_iff ..).mp (h ⟨data, hdata, hdue, hcost⟩ data (spendable_data hdata))
  · intro h hwanted data' hdata'
    obtain ⟨data, hdata, hdue, hcost⟩ := hwanted
    have hsame : data = data' := Option.some.inj ((spendable_data hdata).symm.trans hdata')
    subst hsame
    exact (proRata_within_iff ..).mpr (h data hdata hdue hcost)

/-! ## Learning the price -/

def Account.learns (a : Account) (outcome : PurchaseOutcome) : Option Points :=
  a.lastPurchase.bind (·.pricePaid outcome)

/-- The price learned from a renewal is no lower than what was paid per week of
the time it bought. -/
def Account.LearnsPaid (a : Account) (now : Instant) (wall : SystemTime) (after : Points) : Prop :=
  ∀ price, (a.buying .vip now wall).learns (.made after) = some price → ∀ data, a.data = some data →
    data.points.less after * week ≤ price * vipTime data wall

/-- The division drops no greater share of the points spent than the hundredths of a week
drop of the time bought. A product that saturates drops points of its own. -/
def Account.DropsAlike (a : Account) (wall : SystemTime) (after : Points) : Prop :=
  ∀ data, a.data = some data → vipRemaining data wall < vipRenewWithin →
    let time := vipTime data wall
    let spent := data.points.less after
    let shared := spent.times 100
    time / centiweek ≤ shared →
    (spent * 100 - shared) * (time - time % centiweek) + shared % (time / centiweek) * time ≤
      shared * (time % centiweek)

theorem hundredths_least (data : UserData) (now : SystemTime) : 100 ≤ vipTime data now / centiweek := by
  rw [Nat.le_div_iff_mul_le (by decide), ← week_eq]
  exact le_max_right _ _

theorem learns_iff (a : Account) (now : Instant) (wall : SystemTime) (after price : Points) :
    (a.buying .vip now wall).learns (.made after) = some price ↔ ∃ data, a.data = some data ∧
      vipRemaining data wall < vipRenewWithin ∧
      price = (data.points.less after).times 100 / (vipTime data wall / centiweek) ∧ 0 < price := by
  unfold Account.learns Account.buying PurchaseRecord.pricePaid
  simp only [Option.bind_some]
  cases hdata : a.data with
  | none => simp
  | some data =>
    simp only [Option.map_some, Option.bind_some, vipWeeks_eq, Option.some.injEq, exists_eq_left']
    by_cases hdue : vipRenewWithin ≤ vipRemaining data wall
    · simp [hdue]
    · simp only [hdue, if_false, not_le.mp hdue, true_and, VipWeeks.pricePerWeek,
        max_eq_left ((by decide : 1 ≤ 100).trans (hundredths_least data wall))]
      split
      · next hpos =>
        constructor
        · rintro ⟨⟩
          exact ⟨rfl, hpos⟩
        · rintro ⟨rfl, -⟩
          rfl
      · next hpos =>
        constructor
        · rintro ⟨⟩
        · rintro ⟨rfl, h⟩
          exact (hpos h).elim

theorem paid_iff {spent shared time : Nat} (hshared : shared ≤ spent * 100) (hh : 0 < time / centiweek) :
    spent * week ≤ shared / (time / centiweek) * time ↔
      (spent * 100 - shared) * (time - time % centiweek) + shared % (time / centiweek) * time ≤
        shared * (time % centiweek) := by
  obtain ⟨lost, hlost⟩ := Nat.exists_eq_add_of_le hshared
  have htime : time - time % centiweek = time / centiweek * centiweek := by
    rw [Nat.sub_eq_iff_eq_add (Nat.mod_le _ _), mul_comm]
    exact (Nat.div_add_mod time centiweek).symm
  have hwhole := Nat.div_add_mod time centiweek
  have hparts := Nat.div_add_mod shared (time / centiweek)
  have hdropped : spent * 100 - shared = lost := by omega
  rw [hdropped, htime, ← Nat.mul_le_mul_left_iff hh]
  -- from here on both divisions are a quotient and a remainder
  generalize time / centiweek = hundredths at *
  generalize time % centiweek = rest at *
  generalize shared / hundredths = perWeek at *
  generalize shared % hundredths = dropped at *
  have hspent : hundredths * (spent * week) = (shared + lost) * (hundredths * centiweek) := by
    rw [← hlost, week_eq]
    ring
  have hlearned : hundredths * (perWeek * time) + dropped * time = shared * time := by
    rw [← hparts]
    ring
  have hbought : shared * time = shared * (hundredths * centiweek) + shared * rest := by
    rw [← hwhole]
    ring
  rw [hspent, add_mul]
  omega

theorem times_le (spent : Points) : spent.times 100 ≤ spent * 100 := min_le_left _ _

theorem learnsPaid_iff (a : Account) (now : Instant) (wall : SystemTime) (after : Points) :
    a.LearnsPaid now wall after ↔ a.DropsAlike wall after := by
  unfold Account.LearnsPaid Account.DropsAlike
  simp only [learns_iff]
  constructor
  · intro h data hdata hdue hlearned
    have hpos : 0 < vipTime data wall / centiweek :=
      lt_of_lt_of_le (by decide) (hundredths_least data wall)
    exact (paid_iff (times_le _) hpos).mp
      (h _ ⟨data, hdata, hdue, rfl, Nat.div_pos hlearned hpos⟩ data hdata)
  · intro h price hprice data' hdata'
    obtain ⟨data, hdata, hdue, rfl, hlearned⟩ := hprice
    have hsame : data = data' := Option.some.inj (hdata.symm.trans hdata')
    subst hsame
    have hpos : 0 < vipTime data wall / centiweek :=
      lt_of_lt_of_le (by decide) (hundredths_least data wall)
    refine (paid_iff (times_le _) hpos).mpr (h data hdata hdue ?_)
    by_contra hless
    rw [Nat.div_eq_of_lt (not_le.mp hless)] at hlearned
    exact lt_irrefl 0 hlearned

/-- A renewal leaves the reserve just when the slack of its check pays for the time that
was not weighed, and the price it shows is no lower than paid just when the two
divisions drop alike. -/
theorem renewals_exact_iff (a : Account) (now : Instant) (wall : SystemTime) :
    (∀ reserve, a.KeepsReserve now wall reserve ↔ a.PaysRest now wall reserve) ∧
      ∀ after, a.LearnsPaid now wall after ↔ a.DropsAlike wall after :=
  ⟨keepsReserve_iff a now wall, learnsPaid_iff a now wall⟩

def renewing : Account :=
  { Account.new with
    reading := some
      { data :=
          { uploaded := 0
            downloaded := 0
            points := 34275
            wedges := 0
            class' := .vip
            vipUntil := some (Duration.fromHours 240)
            summary := none
            notices := none
            clients := none }
        at' := 0
        taken := 0 } }

/-- 80 days cost 14,286 points and leave 19,989; and of 14,012 points paid for
them, the price learned is 1,226 a week, which makes 14,011. -/
theorem reserve_crossed : ¬ renewing.KeepsReserve 0 0 20000 ∧ ¬ renewing.LearnsPaid 0 0 20263 := by
  constructor
  · intro h
    have hleft := h (by decide +kernel) _ rfl
    exact absurd hleft (by decide +kernel)
  · intro h
    have hpaid := h 1226 (by decide +kernel) _ rfl
    exact absurd hpaid (by decide +kernel)

end Windlass
