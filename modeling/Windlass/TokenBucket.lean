import Mathlib

/-!
# Token buckets

A bucket holds up to `cap` tokens and gets one back every `period` once some are
missing. Everything about its rate follows from one bound: what was taken since
a time, with what is there now, is at most `cap` and one for every whole period
passed since that time, at every later time.
-/

namespace TokenBucket

structure Bucket where
  tokens : ℕ
  since : Option ℕ

section
variable (cap period : ℕ)

/-- What the bucket holds at `now`, were there no `cap`. -/
def Bucket.level (b : Bucket) (now : ℕ) : ℕ :=
  match b.since with
  | none => cap
  | some since => b.tokens + (now - since) / period

/-- A token is taken: from a full bucket, which starts to get tokens back now, or
from one that goes on getting them back. -/
inductive Bucket.Takes (b : Bucket) (now : ℕ) : Bucket → Prop
  | full (h : cap ≤ b.level cap period now) : Bucket.Takes b now ⟨cap - 1, some now⟩
  | restoring (tokens since since' : ℕ) (hs : b.since = some since) (ht : tokens + 1 =
      b.level cap period now)
      (hc : b.level cap period now < cap) (hle : since + period * ((now - since) / period) ≤ since')
      (hn : since' ≤ now) : Bucket.Takes b now ⟨tokens, some since'⟩

/-- From `now` on, `spent` tokens taken since `start` keep the rate. -/
def Bucket.Keeps (b : Bucket) (spent start now : ℕ) : Prop :=
  ∀ later, now ≤ later → spent + b.level cap period later ≤ cap + (later - start) / period

end

section
variable {cap period : ℕ} {b b' : Bucket} {spent start now later : ℕ}

theorem Bucket.Keeps.fewer {spent' : ℕ} (h : b.Keeps cap period spent start now) (hle : spent' ≤ spent) :
    b.Keeps cap period spent' start now := by
  intro x hx
  exact (Nat.add_le_add_right hle _).trans (h x hx)

theorem Bucket.Keeps.waiting (h : b.Keeps cap period spent start now) (hle : now ≤ later) :
    b.Keeps cap period spent start later := by
  intro x hx
  exact h x (hle.trans hx)

theorem Bucket.Keeps.rate (h : b.Keeps cap period spent start now) :
    spent ≤ cap + (now - start) / period :=
  (Nat.le_add_right _ _).trans (h now le_rfl)

theorem level_some {since : ℕ} (hs : b.since = some since) :
    b.level cap period now = b.tokens + (now - since) / period := by
  unfold Bucket.level
  rw [hs]

/-! ## Whole periods -/

variable (period) in
/-- Waiting in two stretches restores no more than waiting at once. -/
theorem stretches_le (h : start ≤ now) (hle : now ≤ later) :
    (now - start) / period + (later - now) / period ≤ (later - start) / period := by
  have hsum : later - start = (now - start) + (later - now) := by omega
  rw [hsum]
  exact Nat.div_add_div_le_add_div

/-- Waiting at once restores at most one token more than waiting in two
stretches. -/
theorem le_stretches (hp : 0 < period) (h : start ≤ now) (hle : now ≤ later) :
    (later - start) / period ≤ (now - start) / period + (later - now) / period + 1 := by
  have hsum : later - start = (now - start) + (later - now) := by omega
  rw [hsum, Nat.add_div hp]
  split <;> omega

theorem restoring_le {since since' : ℕ} (hp : 0 < period)
    (hle : since + period * ((now - since) / period) ≤ since')
    (hn : since' ≤ now) (hx : now ≤ later) :
    (now - since) / period + (later - since') / period ≤ (later - since) / period := by
  have hsum : period * ((now - since) / period) + (later - since') ≤ later - since := by omega
  have hdiv : (period * ((now - since) / period) + (later - since')) / period ≤
      (later - since) / period :=
    Nat.div_le_div_right hsum
  rwa [Nat.mul_add_div hp] at hdiv

theorem since_near {since since' : ℕ} (hp : 0 < period)
    (hle : since + period * ((now - since) / period) ≤ since')
    (hn : since' ≤ now) : (now - since') / period = 0 := by
  have hmod := Nat.mod_lt (now - since) hp
  have hdiv := Nat.div_add_mod (now - since) period
  apply Nat.div_eq_of_lt
  omega

theorem first_period {since : ℕ} (hp : 0 < period) :
    (now - since) / period = 0 ↔ now < since + period := by
  rw [Nat.div_eq_zero_iff]
  omega

theorem past_periods_le {since : ℕ} (h : since ≤ now) :
    since + period * ((now - since) / period) ≤ now := by
  have hdiv := Nat.mul_div_le (now - since) period
  omega

/-- Restoring that goes on from its last whole period restores as much. -/
theorem restoring_eq {since : ℕ} (hp : 0 < period) (h : since ≤ now) (hle : now ≤ later) :
    (later - since) / period =
      (now - since) / period + (later - (since + period * ((now - since) / period))) / period := by
  have hpast := @past_periods_le period now since h
  have hsplit : later - since = period * ((now - since) / period) +
      (later - (since + period * ((now - since) / period))) := by omega
  rw [← Nat.mul_add_div hp, ← hsplit]

/-! ## Taking tokens keeps the rate -/

theorem Bucket.Takes.keeps (hp : 0 < period) (hcap : 0 < cap) (ht : b.Takes cap period now b')
    (h : b.Keeps cap period spent start now) (hstart : start ≤ now) :
    b'.Keeps cap period (spent + 1) start now := by
  intro later hlater
  cases ht with
  | full hfull =>
    have hnow := h now le_rfl
    have hdiv := stretches_le period hstart hlater
    simp only [Bucket.level]
    omega
  | restoring tokens since since' hs ht hc hle hn =>
    have hthen := h later hlater
    rw [level_some hs] at hthen ht
    have hdiv := restoring_le hp hle hn hlater
    simp only [Bucket.level]
    omega

theorem Bucket.Takes.first (hp : 0 < period) (hcap : 0 < cap) (ht : b.Takes cap period now b')
    (hstart : start ≤ now) :
    b'.Keeps cap period 1 start now := by
  intro later hlater
  have hdiv : (later - now) / period ≤ (later - start) / period :=
    Nat.div_le_div_right (Nat.sub_le_sub_left hstart later)
  cases ht with
  | full hfull =>
    simp only [Bucket.level]
    omega
  | restoring tokens since since' hs ht hc hle hn =>
    have hnear := since_near hp hle hn
    have hlong := le_stretches hp hn hlater
    simp only [Bucket.level]
    omega

/-- What is spent without taking a token, from a bucket that lacks two. -/
theorem Bucket.keeps_of_lacking_two (hp : 0 < period) (hb : ∀ since, b.since = some since → since ≤ now)
    (h : b.level cap period now + 2 ≤ cap) (hstart : start ≤ now) : b.Keeps cap period 1 start now := by
  intro later hlater
  have hdiv : (later - now) / period ≤ (later - start) / period :=
    Nat.div_le_div_right (Nat.sub_le_sub_left hstart later)
  cases hs : b.since with
  | none =>
    simp only [Bucket.level, hs] at h
    omega
  | some since =>
    have hlong := le_stretches hp (hb since hs) hlater
    rw [level_some hs] at h ⊢
    omega

/-- What is spent without taking a token, from a bucket that lacks one and gets
one back just then. -/
theorem Bucket.keeps_of_lacking_one {since : ℕ} (hp : 0 < period) (hs : b.since = some since)
    (hnow : since + period * ((now - since) / period) = now) (h : b.level cap period now + 1 ≤ cap)
    (hstart : start ≤ now) : b.Keeps cap period 1 start now := by
  intro later hlater
  have hdiv : (later - now) / period ≤ (later - start) / period :=
    Nat.div_le_div_right (Nat.sub_le_sub_left hstart later)
  have hsum : later - since = period * ((now - since) / period) + (later - now) := by omega
  rw [level_some hs] at h ⊢
  rw [hsum, Nat.mul_add_div hp]
  omega

end

/-! ## A bucket in use -/

section
variable (cap period : ℕ)

/-- A bucket that was full at first, at `now`, with the times at which tokens were
taken from it. -/
inductive Used : List ℕ → Bucket → ℕ → Prop
  | full (tokens now : ℕ) : Used [] ⟨tokens, none⟩ now
  | waits {taken : List ℕ} {b : Bucket} {now later : ℕ} (h : Used taken b now) (hle : now ≤ later) :
      Used taken b later
  | takes {taken : List ℕ} {b b' : Bucket} {now : ℕ} (h : Used taken b now)
      (ht : b.Takes cap period now b') :
      Used (taken ++ [now]) b' now

end

def takenSince (taken : List ℕ) (start : ℕ) : ℕ := taken.countP fun t => start ≤ t

def takenWithin (taken : List ℕ) (start finish : ℕ) : ℕ := taken.countP fun t => start ≤ t ∧ t ≤ finish

section
variable {cap period : ℕ} {taken : List ℕ} {b : Bucket} {start finish now : ℕ}

theorem used_past (h : Used cap period taken b now) : ∀ t ∈ taken, t ≤ now := by
  induction h with
  | full tokens now => exact fun t ht => absurd ht List.not_mem_nil
  | waits h hle ih => exact fun t ht => (ih t ht).trans hle
  | takes h htakes ih =>
    intro t ht
    rcases List.mem_append.mp ht with ht | ht
    · exact ih t ht
    · exact (List.mem_singleton.mp ht).le

theorem takenSince_snoc (h : start ≤ now) :
    takenSince (taken ++ [now]) start = takenSince taken start + 1 := by
  simp [takenSince, List.countP_append, h]

theorem takenSince_past (h : ∀ t ∈ taken, t < start) : takenSince taken start = 0 := by
  apply List.countP_eq_zero.mpr
  intro t ht
  simpa using h t ht

theorem takenWithin_all (h : ∀ t ∈ taken, t ≤ finish) :
    takenWithin taken start finish = takenSince taken start := by
  apply List.countP_congr
  intro t ht
  simp [h t ht]

theorem takenWithin_snoc (h : finish < now) :
    takenWithin (taken ++ [now]) start finish = takenWithin taken start finish := by
  simp [takenWithin, List.countP_append, not_le.mpr h]

/-- What was taken since a time keeps the rate from then on. -/
theorem used_keeps (hp : 0 < period) (hcap : 0 < cap) (h : Used cap period taken b now) (start : ℕ) :
    takenSince taken start = 0 ∨ start ≤ now ∧ b.Keeps cap period (takenSince taken start) start now := by
  induction h with
  | full tokens now => exact .inl rfl
  | waits h hle ih => exact ih.imp_right fun ⟨hstart, hkeeps⟩ => ⟨hstart.trans hle, hkeeps.waiting hle⟩
  | @takes taken b b' now h htakes ih =>
    by_cases hstart : start ≤ now
    · right
      rw [takenSince_snoc hstart]
      refine ⟨hstart, ?_⟩
      rcases ih with hnone | ⟨-, hkeeps⟩
      · rw [hnone]
        exact htakes.first hp hcap hstart
      · exact htakes.keeps hp hcap hkeeps hstart
    · left
      apply takenSince_past
      intro t ht
      exact lt_of_le_of_lt (used_past (h.takes htakes) t ht) (not_le.mp hstart)

/-- A window holds at most `cap` tokens taken, and one more for each of its
periods. -/
theorem used_window (hp : 0 < period) (hcap : 0 < cap) (h : Used cap period taken b now)
    (start wait : ℕ) :
    takenWithin taken start (start + wait) ≤ cap + wait / period := by
  have hall {taken : List ℕ} {b : Bucket} {now : ℕ} (h : Used cap period taken b now)
      (hle : now ≤ start + wait) :
      takenWithin taken start (start + wait) ≤ cap + wait / period := by
    rw [takenWithin_all fun t ht => (used_past h t ht).trans hle]
    rcases used_keeps hp hcap (h.waits hle) start with hnone | ⟨-, hkeeps⟩
    · rw [hnone]
      exact Nat.zero_le _
    · have hrate := hkeeps.rate
      rwa [Nat.add_sub_cancel_left] at hrate
  -- along the uses; a token taken past the window does not count
  induction h with
  | full tokens now => exact Nat.zero_le _
  | waits h hle ih => exact ih
  | @takes taken b b' now h htakes ih =>
    by_cases hle : now ≤ start + wait
    · exact hall (h.takes htakes) hle
    · rw [takenWithin_snoc (not_le.mp hle)]
      exact ih

end

end TokenBucket
