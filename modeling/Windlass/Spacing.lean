import Windlass.Reactive

/-!
# Actions kept apart in time

A machine that must not do something too often decides on it at one time, has
that time saved, and does it once it is saved; after a restart it reads back what
was saved. It keeps the times it decides at apart. What it does is then kept
apart too, unless one action leaves sooner after its decision than an earlier
one did.
-/

namespace Reactive

/-- What a machine knows of an action it keeps apart, and what its steps do to
that. -/
structure Spaced {σ ι ο : Type} (M : Machine σ ι ο) where
  spacing : ℤ
  /-- The end of the clock: what lies beyond is not compared with. -/
  latest : ℤ
  time : ι → ℤ
  /-- What storage makes of a time. -/
  store : ℤ → ℤ
  /-- The last action, when it is known. -/
  known : σ → Option (Option ℤ)
  /-- The action that is being saved. -/
  waiting : σ → Option ℤ
  started : Entry σ ι ο → List ℤ
  saved : Entry σ ι ο → Option ℤ
  read : Entry σ ι ο → Option (Option ℤ)
  /-- How often a step does the action. -/
  does : Entry σ ι ο → ℕ
  spacing_nonneg : 0 ≤ spacing
  store_mono : Monotone store
  store_late : ∀ t, t + spacing ≤ latest → store t + spacing ≤ latest
  known_init : known M.init = none
  waiting_init : waiting M.init = none
  started_now : ∀ s i, ∀ d ∈ started (M.entry s i), d = time i
  saved_waiting : ∀ s i d, saved (M.entry s i) = some d → waiting s = some d
  known_step : ∀ s i x, known (M.step s i).1 = some x →
    (saved (M.entry s i) = none ∧ known s = some x) ∨
    (saved (M.entry s i) = none ∧ read (M.entry s i) = some x) ∨
    ∃ d, saved (M.entry s i) = some d ∧ x = some d
  waiting_step : ∀ s i d, waiting (M.step s i).1 = some d →
    (saved (M.entry s i) = none ∧ waiting s = some d) ∨
    d = time i ∧ ∃ x, known (M.step s i).1 = some x ∧
      ∀ last, x = some last → last + spacing ≤ latest → last + spacing ≤ d
  does_once : ∀ s i, does (M.entry s i) ≤ 1
  does_saved : ∀ s i, does (M.entry s i) ≠ 0 → ∃ d, saved (M.entry s i) = some d

section
variable {σ ι ο : Type} {M : Machine σ ι ο} (S : Spaced M)

/-- When the actions of a history were done. -/
def Spaced.doneTimes (tr : List (Entry σ ι ο)) : List ℤ :=
  tr.flatMap fun e => List.replicate (S.does e) (S.time e.input)

/-- The time an action is counted from when another follows it: the one it was
decided at, or what storage made of that if it was read back since. -/
def Spaced.base (since : List (Entry σ ι ο)) (d : ℤ) : ℤ :=
  if since.any fun e => (S.read e).isSome then min d (S.store d) else d

/-- What is read back is an action that was to be saved, none that was saved
being later, or nothing when none was saved. -/
def Spaced.Restores (pre : List (Entry σ ι ο)) (e : Entry σ ι ο) : Prop :=
  ∀ x ∈ S.read e,
    (∃ f ∈ pre, ∃ d ∈ S.started f, x = some (S.store d) ∧ ∀ g ∈ pre, ∀ d' ∈ S.saved g, d' ≤ d) ∨
    x = none ∧ ∀ g ∈ pre, S.saved g = none

/-- An action leaves as long after its decision as the earlier ones left after
theirs, or longer. -/
def Spaced.Prompt (pre : List (Entry σ ι ο)) (f : Entry σ ι ο) : Prop :=
  ∀ b ∈ S.saved f, S.does f ≠ 0 → ∀ p ∈ cuts pre, ∀ a ∈ S.saved p.1, S.does p.1 ≠ 0 →
    S.time p.1.input - S.base p.2 a ≤ S.time f.input - b

instance (pre : List (Entry σ ι ο)) (e : Entry σ ι ο) : Decidable (S.Restores pre e) :=
  inferInstanceAs (Decidable (∀ x ∈ S.read e, _))

instance (pre : List (Entry σ ι ο)) (e : Entry σ ι ο) : Decidable (S.Prompt pre e) :=
  inferInstanceAs (Decidable (∀ b ∈ S.saved e, _))

/-- The saved actions of a history are counted from `x` or before. -/
def Spaced.Before (tr : List (Entry σ ι ο)) (x : ℤ) : Prop :=
  ∀ p ∈ cuts tr, ∀ d ∈ S.saved p.1, S.base p.2 d ≤ x

structure Spaced.Inv (tr : List (Entry σ ι ο)) (s : σ) : Prop where
  known : ∀ last, S.known s = some (some last) → last + S.spacing ≤ S.latest ∧ S.Before tr last
  unknown : S.known s = some none → ∀ e ∈ tr, S.saved e = none
  waiting : ∀ d, S.waiting s = some d → d + S.spacing ≤ S.latest ∧ S.Before tr (d - S.spacing)
  started : ∀ e ∈ tr, ∀ d ∈ S.started e, d + S.spacing ≤ S.latest
  done : ∀ e ∈ tr, S.does e ≠ 0 → ∃ d, S.saved e = some d
  apart : (S.doneTimes tr).Pairwise fun a b => a + S.spacing ≤ b

end

section
variable {σ ι ο : Type} {M : Machine σ ι ο} {S : Spaced M} {tr since : List (Entry σ ι ο)}
  {e : Entry σ ι ο} {x y d : ℤ}

theorem base_snoc : S.base (since ++ [e]) d ≤ S.base since d := by
  unfold Spaced.base
  rw [List.any_append]
  by_cases h : (since.any fun e => (S.read e).isSome) = true
  · simp [h]
  · rw [if_neg h]
    split
    · exact min_le_left _ _
    · exact le_rfl

theorem base_read {r : Option ℤ} (h : S.read e = some r) : S.base (since ++ [e]) d ≤ S.store d := by
  unfold Spaced.base
  rw [List.any_append]
  simp [h]

theorem Spaced.Before.mono (h : S.Before tr x) (hle : x ≤ y) : S.Before tr y := by
  intro p hp d hd
  exact (h p hp d hd).trans hle

theorem Spaced.Before.snoc (h : S.Before tr x) (he : ∀ d ∈ S.saved e, d ≤ x) :
    S.Before (tr ++ [e]) x := by
  intro p hp d hd
  rw [cuts_snoc] at hp
  rcases List.mem_append.mp hp with hp | hp
  · obtain ⟨q, hq, rfl⟩ := List.mem_map.mp hp
    exact base_snoc.trans (h q hq d hd)
  · cases List.mem_singleton.mp hp
    exact he d hd

/-- Once storage is read back, what was saved counts as storage has it. -/
theorem before_read {r : Option ℤ} (h : S.read e = some r) (he : S.saved e = none)
    (hx : ∀ g ∈ tr, ∀ d ∈ S.saved g, S.store d ≤ x) : S.Before (tr ++ [e]) x := by
  intro p hp d hd
  rw [cuts_snoc] at hp
  rcases List.mem_append.mp hp with hp | hp
  · obtain ⟨q, hq, rfl⟩ := List.mem_map.mp hp
    exact (base_read h).trans (hx q.1 (mem_of_cuts hq) d hd)
  · cases List.mem_singleton.mp hp
    rw [he] at hd
    cases hd

theorem before_of_none (h : ∀ e ∈ tr, S.saved e = none) : S.Before tr x := by
  intro p hp d hd
  rw [h p.1 (mem_of_cuts hp)] at hd
  cases hd

end

section
variable {σ ι ο : Type} {M : Machine σ ι ο} {S : Spaced M} {tr : List (Entry σ ι ο)} {s : σ} {i : ι}

/-- A machine that starts again knows nothing of the action yet. -/
theorem spaced_restart (h : S.Inv tr s) : S.Inv tr M.init where
  known last h := by
    rw [S.known_init] at h
    cases h
  unknown h := by
    rw [S.known_init] at h
    cases h
  waiting d h := by
    rw [S.waiting_init] at h
    cases h
  started := h.started
  done := h.done
  apart := h.apart

theorem spaced_init : S.Inv [] M.init where
  known last h := by
    rw [S.known_init] at h
    cases h
  unknown _ := nofun
  waiting d h := by
    rw [S.waiting_init] at h
    cases h
  started := nofun
  done := nofun
  apart := List.Pairwise.nil

/-- What is known after a step is no earlier than what was saved. -/
theorem known_kept (h : S.Inv tr s) (hread : S.Restores tr (M.entry s i)) :
    (∀ last, S.known (M.step s i).1 = some (some last) →
      last + S.spacing ≤ S.latest ∧ S.Before (tr ++ [M.entry s i]) last) ∧
    (S.known (M.step s i).1 = some none → ∀ e ∈ tr ++ [M.entry s i], S.saved e = none) := by
  have hnone : ∀ (hsaved : S.saved (M.entry s i) = none) (htr : ∀ e ∈ tr, S.saved e = none),
      ∀ e ∈ tr ++ [M.entry s i], S.saved e = none := by
    intro hsaved htr e he
    rcases List.mem_append.mp he with he | he
    · exact htr e he
    · rw [List.mem_singleton.mp he]
      exact hsaved
  constructor
  · intro last hknown
    obtain ⟨hsaved, hbefore⟩ | ⟨hsaved, hr⟩ | ⟨d, hsaved, hd⟩ := S.known_step s i _ hknown
    · obtain ⟨hlate, hlast⟩ := h.known last hbefore
      exact ⟨hlate, hlast.snoc (by simp [hsaved])⟩
    · obtain ⟨f, hf, d, hd, hlast, hall⟩ | ⟨hlast, -⟩ := hread _ hr
      · cases hlast
        refine ⟨S.store_late d (h.started f hf d hd), before_read hr hsaved fun g hg d' hd' => ?_⟩
        exact S.store_mono (hall g hg d' hd')
      · cases hlast
    · cases hd
      obtain ⟨hlate, hbefore⟩ := h.waiting last (S.saved_waiting s i last hsaved)
      have hle : last - S.spacing ≤ last := by
        have hpos := S.spacing_nonneg
        omega
      refine ⟨hlate, (hbefore.mono hle).snoc fun d' hd' => ?_⟩
      rw [hsaved] at hd'
      exact (Option.some.inj hd').symm.le
  · intro hknown
    obtain ⟨hsaved, hbefore⟩ | ⟨hsaved, hr⟩ | ⟨d, hsaved, hd⟩ := S.known_step s i _ hknown
    · exact hnone hsaved (h.unknown hbefore)
    · obtain ⟨f, hf, d, hd, hlast, -⟩ | ⟨-, hall⟩ := hread _ hr
      · cases hlast
      · exact hnone hsaved hall
    · cases hd

/-- What waits after a step was decided on far enough from what was saved. -/
theorem waiting_kept (h : S.Inv tr s) (hread : S.Restores tr (M.entry s i))
    (hend : S.time i + S.spacing ≤ S.latest) {d : ℤ} (hd : S.waiting (M.step s i).1 = some d) :
    d + S.spacing ≤ S.latest ∧ S.Before (tr ++ [M.entry s i]) (d - S.spacing) := by
  obtain ⟨hsaved, hbefore⟩ | ⟨hnow, x, hx, hapart⟩ := S.waiting_step s i d hd
  · obtain ⟨hlate, hd⟩ := h.waiting d hbefore
    exact ⟨hlate, hd.snoc (by simp [hsaved])⟩
  · refine ⟨hnow ▸ hend, ?_⟩
    obtain ⟨hknown, hunknown⟩ := known_kept h hread
    cases x with
    | none => exact before_of_none (hunknown hx)
    | some last =>
      obtain ⟨hlate, hlast⟩ := hknown last hx
      have hle := hapart last rfl hlate
      exact hlast.mono (by omega)

theorem apart_kept (h : S.Inv tr s) (hprompt : S.Prompt tr (M.entry s i)) :
    (S.doneTimes (tr ++ [M.entry s i])).Pairwise fun a b => a + S.spacing ≤ b := by
  have hsnoc : S.doneTimes (tr ++ [M.entry s i]) =
      S.doneTimes tr ++ List.replicate (S.does (M.entry s i)) (S.time i) := by
    simp [Spaced.doneTimes, Machine.entry]
  rw [hsnoc, List.pairwise_append]
  refine ⟨h.apart, ?_, ?_⟩
  · have hle := S.does_once s i
    interval_cases S.does (M.entry s i)
    · exact List.Pairwise.nil
    · exact List.pairwise_singleton _ _
  · intro a ha b hb
    obtain ⟨hdoes, rfl⟩ := List.mem_replicate.mp hb
    obtain ⟨e, he, ha⟩ := List.mem_flatMap.mp ha
    obtain ⟨hdone, rfl⟩ := List.mem_replicate.mp ha
    obtain ⟨d, hd⟩ := S.does_saved s i hdoes
    obtain ⟨d', hd'⟩ := h.done e he hdone
    obtain ⟨since, hsince⟩ := mem_cuts he
    have hbase := (h.waiting d (S.saved_waiting s i d hd)).2 _ hsince d' hd'
    have hdelay := hprompt d hd hdoes _ hsince d' hd' hdone
    simp only [Machine.entry] at hbase hdelay
    omega

theorem spaced_step (h : S.Inv tr s) (hread : S.Restores tr (M.entry s i))
    (hend : S.time i + S.spacing ≤ S.latest) (hprompt : S.Prompt tr (M.entry s i)) :
    S.Inv (tr ++ [M.entry s i]) (M.step s i).1 where
  known := (known_kept h hread).1
  unknown := (known_kept h hread).2
  waiting d := waiting_kept h hread hend
  started e he d hd := by
    rcases List.mem_append.mp he with he | he
    · exact h.started e he d hd
    · cases List.mem_singleton.mp he
      rw [S.started_now s i d hd]
      exact hend
  done e he := by
    rcases List.mem_append.mp he with he | he
    · exact h.done e he
    · cases List.mem_singleton.mp he
      exact S.does_saved s i
  apart := apart_kept h hprompt

end

/-- Over every history of runs that read back what was saved, what is done is kept
apart when nothing leaves sooner after its decision than what was done before
it. -/
theorem done_apart {σ ι ο : Type} {M : Machine σ ι ο} (S : Spaced M) (runs : List (List ι))
    (hread : Along S.Restores (M.lives runs))
    (hend : ∀ e ∈ M.lives runs, S.time e.input + S.spacing ≤ S.latest)
    (hprompt : Along S.Prompt (M.lives runs)) :
    (S.doneTimes (M.lives runs)).Pairwise fun a b => a + S.spacing ≤ b := by
  have h := lives_invariant M (I := S.Inv)
    (H := fun tr => Along S.Restores tr ∧ (∀ e ∈ tr, S.time e.input + S.spacing ≤ S.latest) ∧
      Along S.Prompt tr)
    (fun tr tr' h => ⟨h.1.left, fun e he => h.2.1 e (List.mem_append_left _ he), h.2.2.left⟩) spaced_init
    (fun tr s h => spaced_restart h)
    (fun tr s i hi h => spaced_step hi h.1.last (h.2.1 (M.entry s i) (by simp)) h.2.2.last) runs
    ⟨hread, hend, hprompt⟩
  exact h.apart

end Reactive
