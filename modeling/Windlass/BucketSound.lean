import Windlass.Mam.Network
import Windlass.Reactive
import Windlass.TokenBucket

/-!
# The token bucket

Whole refill steps are counted from a reference time that each token taken moves
on by those already counted, so no part of a step is lost. A bucket without a
token has just its reference to wait from, and the next token comes one refill
step after it.
-/

namespace Windlass

open Reactive

/-! ## What the bucket holds -/

def Budget.bucket (b : Budget) : TokenBucket.Bucket := { tokens := b.tokens, since := b.refilledAt }

def Budget.level (b : Budget) (now : Instant) : Tokens := b.bucket.level requestBurst requestRefill now

/-- Only a full bucket has no restoring in progress, and none starts later than
`now`. -/
structure Budget.Valid (b : Budget) (now : Instant) : Prop where
  full : b.refilledAt = none → b.tokens = requestBurst
  since : ∀ since, b.refilledAt = some since → since ≤ now

theorem requestRefill_pos : 0 < requestRefill := by decide

theorem restored_eq (d : Duration) : d.asSecs / requestRefill.asSecs = d / requestRefill := by
  unfold Duration.asSecs
  rw [Nat.div_div_eq_div_mul]
  rfl

theorem restoring_below {t n : ℕ} (h : t + n < requestBurst) :
    min n u32Max = n ∧ Tokens.restoring t n = t + n := by
  unfold Tokens.restoring satAdd
  have hn : t + n ≤ u32Max := h.le.trans (by decide)
  exact ⟨min_eq_left ((Nat.le_add_left n t).trans hn), by rw [min_eq_left hn, min_eq_left h.le]⟩

theorem restoring_full {t n : ℕ} (h : requestBurst ≤ t + n) :
    Tokens.restoring t (min n u32Max) = requestBurst := by
  unfold Tokens.restoring satAdd
  have hburst : requestBurst ≤ u32Max := by decide
  apply min_eq_right
  rcases Nat.le_total n u32Max with hn | hn
  · rw [min_eq_left hn]
    exact le_min h hburst
  · rw [min_eq_right hn]
    exact le_min (hburst.trans (Nat.le_add_left _ _)) hburst

section
variable {b : Budget} {now since : Instant}

theorem budget_level_some (h : b.refilledAt = some since) :
    b.level now = b.tokens + (now - since) / requestRefill :=
  TokenBucket.level_some h

theorem refilled_cases (hf : b.refilledAt = none → b.tokens = requestBurst) :
    (requestBurst ≤ b.level now ∧ b.refilled now = (requestBurst, none)) ∨
    ∃ since, b.refilledAt = some since ∧ b.level now < requestBurst ∧
      b.refilled now =
        (b.level now, since.checkedAdd (requestRefill * ((now - since) / requestRefill))) := by
  cases hs : b.refilledAt with
  | none =>
    left
    unfold Budget.refilled Budget.level TokenBucket.Bucket.level
    simp only [Budget.bucket, hs]
    exact ⟨le_rfl, by rw [hf hs]⟩
  | some since =>
    have hlevel := @budget_level_some b now since hs
    unfold Budget.refilled
    simp only [hs, restored_eq, Instant.durationSince]
    rw [hlevel]
    rcases Nat.lt_or_ge (b.tokens + (now - since) / requestRefill) requestBurst with h | h
    · obtain ⟨hcount, htokens⟩ := restoring_below h
      rw [hcount, htokens, if_neg h.ne]
      exact .inr ⟨since, rfl, h, rfl⟩
    · rw [restoring_full h, if_pos rfl]
      exact .inl ⟨h, rfl⟩

theorem take_takes {b' : Budget} (hb : b.Valid now) (h : b.take now = some b') :
    b.bucket.Takes requestBurst requestRefill now b'.bucket ∧ b'.Valid now := by
  unfold Budget.take at h
  obtain ⟨hfull, hr⟩ | ⟨since, hs, hlevel, hr⟩ := refilled_cases hb.full
  · rw [hr] at h
    cases h
    exact ⟨.full hfull, nofun, fun _ hs => (Option.some.inj hs).symm.le⟩
  · rw [hr] at h
    have hle : since + requestRefill * ((now - since) / requestRefill) ≤ now := by
      have hdiv := Nat.mul_div_le (now - since) requestRefill
      exact Nat.add_le_of_le_sub' (hb.since since hs) hdiv
    have hnext : since + requestRefill * ((now - since) / requestRefill) ≤
          (since.checkedAdd (requestRefill * ((now - since) / requestRefill))).getD now ∧
        (since.checkedAdd (requestRefill * ((now - since) / requestRefill))).getD now ≤ now := by
      unfold Instant.checkedAdd
      split
      · exact ⟨le_rfl, hle⟩
      · exact ⟨hle, le_rfl⟩
    cases hl : b.level now with
    | zero =>
      rw [hl] at h
      cases h
    | succ left =>
      rw [hl] at h
      cases h
      refine ⟨.restoring left since _ hs hl.symm hlevel hnext.1 hnext.2, nofun, fun _ hs => ?_⟩
      rw [← Option.some.inj hs]
      exact hnext.2

/-! ## When there is no token -/

theorem refilled_tokens (hf : b.refilledAt = none → b.tokens = requestBurst) :
    (b.refilled now).1 = min requestBurst (b.level now) := by
  obtain ⟨hfull, hr⟩ | ⟨since, -, hlevel, hr⟩ := @refilled_cases b now hf
  · rw [hr, min_eq_left hfull]
  · rw [hr, min_eq_right hlevel.le]

theorem take_none_iff : b.take now = none ↔ (b.refilled now).1 = 0 := by
  unfold Budget.take
  split
  · next h => simp [h]
  · next h => simp [h]

/-- A bucket has no token before the first refill step after its reference. -/
theorem take_none_some (hf : b.refilledAt = none → b.tokens = requestBurst) :
    b.take now = none ↔ ∃ since,
    b.refilledAt = some since ∧ b.tokens = 0 ∧ now < since + requestRefill := by
  have hburst : requestBurst ≠ 0 := by decide
  rw [take_none_iff, refilled_tokens hf]
  cases hs : b.refilledAt with
  | none =>
    have hlevel : b.level now = requestBurst := by
      unfold Budget.level TokenBucket.Bucket.level
      simp only [Budget.bucket, hs]
    rw [hlevel, min_self]
    simp [hburst]
  | some since =>
    have hperiod := @TokenBucket.first_period requestRefill now since requestRefill_pos
    rw [budget_level_some hs, Nat.min_eq_zero_iff, or_iff_right hburst, Nat.add_eq_zero_iff,
      and_congr_right fun _ => hperiod]
    simp only [Option.some.injEq, exists_eq_left']

/-- Without a token, the next one is due one refill step after the reference. -/
theorem nextToken_eq (hf : b.refilledAt = none → b.tokens = requestBurst) (ht : b.take now = none)
    (hs : b.refilledAt = some since) : b.nextToken now = since.checkedAdd requestRefill := by
  obtain ⟨since', hs', htokens, hlt⟩ := (take_none_some hf).mp ht
  obtain rfl := Option.some.inj (hs'.symm.trans hs)
  have hdiv : (now - since') / requestRefill = 0 := (TokenBucket.first_period requestRefill_pos).mpr hlt
  have hzero := take_none_iff.mp ht
  unfold Budget.nextToken
  obtain ⟨-, hr⟩ | ⟨since, hsince, -, hr⟩ := @refilled_cases b now hf
  · rw [hr] at hzero
    exact absurd hzero (by decide)
  · obtain rfl := Option.some.inj (hsince.symm.trans hs)
    rw [hr] at hzero ⊢
    dsimp only at hzero
    rw [hzero, hdiv, Nat.mul_zero]
    by_cases hpast : since ≤ Instant.latest
    · have hsome : since.checkedAdd 0 = some since := by
        unfold Instant.checkedAdd
        rw [Nat.add_zero, if_pos hpast]
      simp only [hsome]
    · have hlate (d : Duration) : since.checkedAdd d = none := by
        unfold Instant.checkedAdd
        exact if_neg fun h => hpast ((Nat.le_add_right since d).trans h)
      simp only [hlate]

/-- A bucket that keeps on restoring has one token less for each one taken, at
every later time. -/
theorem take_costs {b' : Budget} {later : Instant} (hb : b.Valid now) (hn : now ≤ Instant.latest)
    (ht : b.take now = some b') (hl : (b.refilled now).1 < requestBurst) (hle : now ≤ later) :
    b'.level later + 1 = b.level later := by
  obtain ⟨-, hr⟩ | ⟨since, hs, -, hr⟩ := refilled_cases hb.full
  · rw [hr] at hl
    exact absurd hl (lt_irrefl _)
  · have hsince := hb.since since hs
    have hpast : since + requestRefill * ((now - since) / requestRefill) ≤ now :=
      TokenBucket.past_periods_le hsince
    have hnext := Instant.checkedAdd_eq_some.mpr ⟨hpast.trans hn, rfl⟩
    have hrest := TokenBucket.restoring_eq requestRefill_pos hsince hle
    have hlevel := @budget_level_some b now since hs
    unfold Budget.take at ht
    rw [hr, hnext] at ht
    cases hv : b.level now with
    | zero =>
      rw [hv] at ht
      cases ht
    | succ left =>
      rw [hv] at ht hlevel
      cases ht
      rw [budget_level_some rfl, budget_level_some hs, hrest, ← Nat.add_assoc, ← hlevel]
      dsimp only [Option.getD_some]
      rw [Nat.add_right_comm]

end

/-! ## Calls one after the other -/

/-- One call of `take` at each time, with the times at which it gave a token. -/
def budgetCalls : Machine Budget Instant Instant where
  init := Budget.new
  step b now :=
    match b.take now with
    | some left => (left, [now])
    | none => (b, [])

def tokensTaken (calls : List Instant) : List Instant := (budgetCalls.run calls).flatMap Entry.out

def takesWithin (calls : List Instant) (start finish : Instant) : ℕ :=
  TokenBucket.takenWithin (tokensTaken calls) start finish

theorem tokensTaken_snoc (calls : List Instant) (now : Instant) : tokensTaken (calls ++ [now]) =
    tokensTaken calls ++ (budgetCalls.step (budgetCalls.last calls) now).2 := by
  unfold tokensTaken
  rw [run_snoc, List.flatMap_append, List.flatMap_singleton]
  rfl

theorem taken_budget {b b' : Budget} {now : Instant} (h : b.take now = some b') :
    budgetCalls.step b now = (b', [now]) := by
  simp only [budgetCalls, h]

theorem untaken_budget {b : Budget} {now : Instant} (h : b.take now = none) :
    budgetCalls.step b now = (b, []) := by
  simp only [budgetCalls, h]

structure Budget.Kept (taken : List Instant) (b : Budget) (now : Instant) : Prop where
  used : TokenBucket.Used requestBurst requestRefill taken b.bucket now
  valid : b.Valid now
  tokens : b.tokens ≤ requestBurst

theorem Budget.Kept.waits {taken : List Instant} {b : Budget} {now later : Instant} (h : b.Kept taken now)
    (hle : now ≤ later) : b.Kept taken later where
  used := h.used.waits hle
  valid := ⟨h.valid.full, fun since hs => (h.valid.since since hs).trans hle⟩
  tokens := h.tokens

theorem taken_tokens {b b' : Budget} {now : Instant} (hf : b.refilledAt = none → b.tokens = requestBurst)
    (h : b.take now = some b') : b'.tokens ≤ requestBurst := by
  have hheld := @refilled_tokens b now hf
  unfold Budget.take at h
  split at h
  · cases h
  · next left since hr =>
    cases h
    rw [hr] at hheld
    have hle : left + 1 ≤ requestBurst := hheld.le.trans (min_le_left _ _)
    exact (Nat.le_succ left).trans hle

theorem kept_step {taken : List Instant} {b : Budget} {now : Instant} (h : b.Kept taken now) :
    (budgetCalls.step b now).1.Kept (taken ++ (budgetCalls.step b now).2) now := by
  cases ht : b.take now with
  | none =>
    rw [untaken_budget ht, List.append_nil]
    exact h
  | some left =>
    rw [taken_budget ht]
    obtain ⟨htakes, hvalid⟩ := take_takes h.valid ht
    exact ⟨h.used.takes htakes, hvalid, taken_tokens h.valid.full ht⟩

theorem calls_kept {calls : List Instant} (hs : calls.Pairwise (· ≤ ·)) {now : Instant}
    (hn : ∀ t ∈ calls, t ≤ now) :
    (budgetCalls.last calls).Kept (tokensTaken calls) now := by
  induction calls using List.reverseRecOn generalizing now with
  | nil => exact ⟨.full requestBurst now, ⟨fun _ => rfl, nofun⟩, le_rfl⟩
  | append_singleton calls call ih =>
    obtain ⟨hpast, -, hlast⟩ := List.pairwise_append.mp hs
    have hcall : call ≤ now := hn call (by simp)
    have hkept := kept_step (ih hpast fun t ht => hlast t ht call (List.mem_singleton.mpr rfl))
    rw [last_snoc, tokensTaken_snoc]
    exact hkept.waits hcall

/-! ## What a caller relies on -/

/-- The next token comes just when it is said to come, and without such a time
the clock ends before it comes. -/
def Budget.Awaits (b : Budget) (now : Instant) : Prop :=
  (∃ due, b.nextToken now = some due ∧ now < due ∧ (∀ t < due, b.take t = none) ∧ (b.take due).isSome) ∨
    b.nextToken now = none ∧ ∀ t ≤ Instant.latest, b.take t = none

theorem awaits_of_none {b : Budget} {now : Instant} (hf : b.refilledAt = none → b.tokens = requestBurst)
    (ht : b.take now = none) : b.Awaits now := by
  obtain ⟨since, hs, htokens, hlt⟩ := (take_none_some hf).mp ht
  have hnext := nextToken_eq hf ht hs
  have hbefore : ∀ t < since + requestRefill, b.take t = none := fun t hlt =>
    (take_none_some hf).mpr ⟨since, hs, htokens, hlt⟩
  by_cases hroom : since + requestRefill ≤ Instant.latest
  · left
    refine ⟨since + requestRefill, hnext.trans (Instant.checkedAdd_eq_some.mpr ⟨hroom, rfl⟩), hlt,
      hbefore, ?_⟩
    apply Option.isSome_iff_ne_none.mpr
    intro hnone
    obtain ⟨since', hs', -, hlt'⟩ := (take_none_some hf).mp hnone
    obtain rfl := Option.some.inj (hs'.symm.trans hs)
    exact lt_irrefl _ hlt'
  · right
    refine ⟨hnext.trans ?_, fun t hlate => hbefore t (lt_of_le_of_lt hlate (not_le.mp hroom))⟩
    unfold Instant.checkedAdd
    exact if_neg hroom

/-- Any calls on a fresh bucket are given at most ten tokens in every window and
one more for every three seconds of it; the bucket never holds more than ten, and
tells exactly when the next one comes, unless the clock ends before that. No
restoring is lost: at every later time it holds one token less for each taken. -/
theorem budget_kept {calls : List Instant} (hs : calls.Pairwise (· ≤ ·)) :
    (∀ start wait, takesWithin calls start (start + wait) ≤ requestBurst + wait / requestRefill) ∧
    (budgetCalls.last calls).tokens ≤ requestBurst ∧
    (∀ now, ((budgetCalls.last calls).refilled now).1 ≤ requestBurst) ∧
    (∀ now, (budgetCalls.last calls).take now = none → (budgetCalls.last calls).Awaits now) ∧
    ∀ now left later, (∀ t ∈ calls, t ≤ now) → now ≤ Instant.latest →
    (budgetCalls.last calls).take now = some left →
      ((budgetCalls.last calls).refilled now).1 < requestBurst → now ≤ later →
      left.level later + 1 = (budgetCalls.last calls).level later := by
  have hkept : ∀ now, (∀ t ∈ calls, t ≤ now) → (budgetCalls.last calls).Kept (tokensTaken calls) now :=
    fun now hn => calls_kept hs hn
  obtain ⟨latest, hlatest⟩ : ∃ latest, ∀ t ∈ calls, t ≤ latest :=
    ⟨calls.sum, fun t ht => List.le_sum_of_mem ht⟩
  have hlast := hkept latest hlatest
  have hf := hlast.valid.full
  refine ⟨fun start wait => ?_, hlast.tokens, fun now => ?_, fun now ht => awaits_of_none hf ht, ?_⟩
  · exact TokenBucket.used_window requestRefill_pos (by decide) hlast.used start wait
  · rw [refilled_tokens hf]
    exact min_le_left _ _
  · intro now left later hn hnow ht hlt hle
    exact take_costs (hkept now hn).valid hnow ht hlt hle

def burstAt (now : Instant) : List Instant := List.replicate 10 now

/-- Ten tokens are taken at once, and the next comes three seconds later. -/
theorem burst_kept :
    (burstAt 0).Pairwise (· ≤ ·) ∧ takesWithin (burstAt 0) 0 (0 + 0) ≤ requestBurst + 0 / requestRefill ∧
    (budgetCalls.last (burstAt 0)).Awaits 0 :=
  ⟨by decide, (budget_kept (by decide)).1 0 0, (budget_kept (by decide)).2.2.2.1 0 (by decide)⟩

/-- Ten tokens are taken as the clock ends. -/
theorem next_token_past_the_clock : (burstAt Instant.latest).Pairwise (· ≤ ·) ∧
    (∀ t ∈ burstAt Instant.latest, t ≤ Instant.latest) ∧
    (budgetCalls.last (burstAt Instant.latest)).take Instant.latest = none ∧
    (budgetCalls.last (burstAt Instant.latest)).nextToken Instant.latest = none := by
  decide +kernel

end Windlass
